import AwkToPython.Expression.Builtin
import AwkToPython.Proofs.Run

/-!
# Substrings with literal bounds

A substring whose bounds are literals is a slice. AWK counts characters from one and
takes those at the positions from `start` on, `count` of them, where positions before
the first count as well. A slice counts from zero, and from the end if a bound is
negative, so the bounds are clamped. Bounds have sixty-four bits: one that is out of
their range is the nearest in it, beyond the end of every string there is.
-/
namespace AwkToPython

open Text

/-- Where a bound of a slice stands in a string; a negative one is counted from the end. -/
def Python.position (length : Nat) (bound : Int) : Nat :=
  if bound < 0 then (bound + length).toNat else min bound.toNat length

/-- The characters that a slice takes. -/
def Python.sliced (first : Int) (last : Option Int) (cs : List Char) : List Char :=
  (cs.take ((last.map (position cs.length)).getD cs.length)).drop (position cs.length first)

/-- The bounds of a slice behind the text of a string. -/
def Python.sliceText (first : Int) (last : Option Int) : String :=
  s!"[{first}:" ++ (last.map toString).getD "" ++ "]"

/-- The positions from `start` on and before `start + count`. -/
def Awk.isTaken (start : Int) (count : Option Int) (k : Nat) : Bool :=
  start ≤ k && count.all (k < start + ·)

/-- The characters of a string at such positions, where the first is at position one. -/
def Awk.substring (start : Int) (count : Option Int) (cs : List Char) : List Char :=
  ((cs.zipIdx 1).filter fun c => isTaken start count c.2).map Prod.fst

namespace Text

def IsSigned64 (n : Int) : Prop := leastSigned64 ≤ n ∧ n ≤ greatestSigned64

lemma decimal?_toDigits (n : Nat) : decimal? (Nat.toDigits 10 n) = some n := by
  have digits : (Nat.toDigits 10 n).all Char.isDigit = true :=
    List.all_eq_true.mpr fun c mem => Nat.isDigit_of_mem_toDigits (by omega) (by omega) mem
  have value : digitsValue (Nat.toDigits 10 n) = n := by
    simp only [digitsValue, Nat.mul_comm _ 10]
    exact Nat.ofDigitChars_toDigits (by omega) (by omega)
  simp [decimal?, digits, value, Nat.toDigits_ne_nil]

lemma signed64?_repr (range : IsSigned64 n) : signed64? n.repr = some n := by
  rw [signed64?, Option.filter_eq_some_iff]
  refine ⟨?_, by simpa [IsSigned64] using range⟩
  rcases Int.lt_or_le n 0 with negative | positive
  · rw [Int.repr_eq_if, if_neg (by omega), String.toList_append, Nat.toList_repr]
    simp [decimal?_toDigits]
    omega
  · rw [Int.repr_eq_if, if_pos positive, Nat.toList_repr]
    have digit : ∀ c ∈ Nat.toDigits 10 n.toNat, c.isDigit = true := fun c =>
      Nat.isDigit_of_mem_toDigits (by omega) (by omega)
    split
    case h_1 same => exact absurd (digit '+' (by rw [same]; simp)) (by decide)
    case h_2 same => exact absurd (digit '-' (by rw [same]; simp)) (by decide)
    case h_3 =>
      rw [decimal?_toDigits, Option.map_some, Int.ofNat_eq_natCast, Int.toNat_of_nonneg positive]

end Text

namespace Expression

open Python (position sliced sliceText)

/-- Characters whose positions are an interval stand next to each other. -/
lemma filter_zipIdx {p : Nat → Bool} (cs : List Char) (base lower upper : Nat)
    (interval : ∀ k, base ≤ k → k < base + cs.length →
      (p k = true ↔ base + lower ≤ k ∧ k < base + upper)) :
    ((cs.zipIdx base).filter fun c => p c.2).map Prod.fst = (cs.take upper).drop lower := by
  induction cs generalizing base lower upper with
  | nil => simp
  | cons c cs ih =>
    rw [List.length_cons] at interval
    have here := interval base (by omega) (by omega)
    have rest := ih (base + 1) (lower - 1) (upper - 1) fun k low high => by
      rw [interval k (by omega) (by omega)]
      omega
    rw [List.zipIdx_cons]
    rcases lower with _ | lower <;> rcases upper with _ | upper
    case zero.succ =>
      rw [List.filter_cons_of_pos (by exact here.mpr (by omega)), List.map_cons, rest]
      rfl
    all_goals
      rw [List.filter_cons_of_neg (fun found => by have := here.mp found; omega), rest]
      simp

section Bounds

variable {start count : Int} {length : Nat}

/-- Where the slice begins. -/
def sliceFirst (start : Int) : Int := max start 1 - 1

/-- Where it ends. -/
def sliceLast (start count : Int) : Int :=
  max (saturate64 (saturate64 (start - 1) + count)) (sliceFirst start)

lemma slice_eq (subject : String) (start : Int) (count : Option Int) : slice subject start count =
      subject ++ sliceText (sliceFirst start) (count.map (sliceLast start)) := by
  cases count <;> simp [slice, sliceText, sliceFirst, sliceLast, toString, String.append_assoc]

lemma sliceFirst_range (range : IsSigned64 start) :
    0 ≤ sliceFirst start ∧ IsSigned64 (sliceFirst start) := by
  simp only [IsSigned64, leastSigned64, greatestSigned64, sliceFirst] at range ⊢
  omega

lemma sliceLast_range (range : IsSigned64 start) (count : Int) :
    sliceFirst start ≤ sliceLast start count ∧ IsSigned64 (sliceLast start count) := by
  have first := sliceFirst_range range
  simp only [IsSigned64, leastSigned64, greatestSigned64, sliceLast,
    saturate64] at first ⊢
  omega

/-- No position up to the greatest bound tells the end of the slice from the true one. -/
lemma lt_sliceLast (range : IsSigned64 start) (many : IsSigned64 count)
    (low : sliceFirst start ≤ k) (high : (k : Int) < greatestSigned64) :
    (k : Int) < sliceLast start count ↔ (k : Int) + 1 < start + count := by
  simp only [IsSigned64, leastSigned64, greatestSigned64, sliceFirst, sliceLast,
    saturate64] at *
  omega

end Bounds

lemma position_of_nonneg (length : Nat) (h : 0 ≤ bound) :
    position length bound = min bound.toNat length := by
  rw [position, if_neg (by omega)]

lemma sliced_eq_substring (range : IsSigned64 start) (many : ∀ n ∈ count, IsSigned64 n)
    (short : (cs.length : Int) ≤ greatestSigned64) :
    sliced (sliceFirst start) (count.map (sliceLast start)) cs = Awk.substring start count cs := by
  have first := (sliceFirst_range range).1
  rw [sliced, position_of_nonneg _ first, Awk.substring]
  refine (filter_zipIdx cs 1 _ _ fun k low high => ?_).symm
  have begins : start ≤ k ↔ sliceFirst start ≤ (k - 1 : Nat) := by
    rw [sliceFirst]
    omega
  rw [Awk.isTaken]
  cases count with
  | none =>
    simp only [Option.map_none, Option.getD_none, Option.all_none, Bool.and_true, decide_eq_true_eq]
    omega
  | some n =>
    have last := (sliceLast_range range n).1
    simp only [Option.map_some, Option.getD_some, Option.all_some, Bool.and_eq_true,
      decide_eq_true_eq, position_of_nonneg _ (Int.le_trans first last), begins]
    have ends := lt_sliceLast range (many n rfl) (k := k - 1)
    omega

/-- For bounds of sixty-four bits, all of which have literals, a substring is a slice
that takes just the characters at AWK's positions. The subtraction gives no bound out of
range, and the sums saturate; no bound is negative, and the end is not before the begin. -/
theorem literal_substr (subject : Fragment) {i : Int} {n : Option Int}
    (range : Text.IsSigned64 i) (many : ∀ m ∈ n, Text.IsSigned64 m) :
    (∀ m, Text.IsSigned64 m → Text.signed64? m.repr = some m) ∧
    ∃ first last,
      (∀ (start : Fragment) (count : Option Fragment) (s : Session),
        Text.signed64? start.text = some i → count.map (Text.signed64? ·.text) = n.map some →
          substr (subject :: start :: count.toList) s =
            .ok (.string (subject.stringified ++ sliceText first last)) s) ∧
      0 ≤ first ∧ Text.IsSigned64 first ∧
      (∀ b ∈ last, first ≤ b ∧ Text.IsSigned64 b) ∧
      ∀ cs : List Char, (cs.length : Int) ≤ Text.greatestSigned64 →
        sliced first last cs = Awk.substring i n cs := by
  refine ⟨fun m => Text.signed64?_repr, sliceFirst i, n.map (sliceLast i),
    fun start count s literal bounds => ?_, (sliceFirst_range range).1, (sliceFirst_range range).2,
    fun b mem => ?_, fun cs => sliced_eq_substring range many⟩
  · rw [← slice_eq]
    rcases count with _ | count <;> rcases n with _ | n <;> simp_all [substr]
  · obtain ⟨n, -, rfl⟩ := Option.map_eq_some_iff.mp mem
    exact sliceLast_range range n

/-- Of three characters from the position before the first, one is there. -/
theorem literal_substr_before :
    ∃ first last, 0 ≤ first ∧ sliced first last "awk".toList = ['a'] := by
  have range : Text.IsSigned64 (-1) := ⟨by decide +kernel, by decide +kernel⟩
  have many : ∀ m ∈ some (3 : Int), Text.IsSigned64 m := by
    rintro _ ⟨⟩
    exact ⟨by decide +kernel, by decide +kernel⟩
  obtain ⟨-, first, last, -, positive, -, -, same⟩ := literal_substr (.atom "self.x") range many
  exact ⟨first, last, positive, (same _ (by decide +kernel)).trans (by decide +kernel)⟩

end Expression

end AwkToPython
