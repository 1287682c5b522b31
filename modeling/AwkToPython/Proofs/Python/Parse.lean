import AwkToPython.Proofs.Python.Expr
import Mathlib.Tactic.Lemma

/-!
# Parsing what is written

`Accepts level ws e` says that the words are read as `e` wherever an operand of
that level may stand. The rules below build such words; they are the rules of
Python's grammar, and parsing follows them.
-/
namespace AwkToPython.Python

variable {k : List Word} {level limit n own : Nat} {α : Type} {op : String} {level' : Nat}

/-- Whatever the first answers, the second answers too. -/
def Extends {α : Type} (x y : Option α) : Prop := ∀ a, x = some a → y = some a

namespace Extends

lemma refl (x : Option α) : Extends x x := fun _ h => h

lemma bind {β : Type} {f g : α → Option β} (h : Extends x y)
    (h' : ∀ a, Extends (f a) (g a)) : Extends (x >>= f) (y >>= g) := by
  intro b hb
  obtain ⟨a, ha, hf⟩ := Option.bind_eq_some_iff.mp hb
  exact Option.bind_eq_some_iff.mpr ⟨a, h a ha, h' a b hf⟩

end Extends

section Fuel

variable {parts parts' : Parser} (h : ∀ g ws, Extends (parts g ws) (parts' g ws))
include h

lemma parseOperation_extends (level : Nat) (ws : List Word) :
    Extends (parseOperation parts level ws) (parseOperation parts' level ws) := by
  unfold parseOperation
  split
  · exact h _ _
  · exact h _ _
  · exact h _ _
  · split
    · exact .bind (h _ _) fun _ => .bind (.refl _) fun _ => h _ _
    · split
      · exact .bind (h _ _) fun _ => h _ _
      · split
        · exact .bind (h _ _) fun _ => h _ _
        · exact .refl _
  · exact .refl _

lemma parseTrailer_extends (left : Expr) (level : Nat) (ws : List Word) :
    Extends (parseTrailer parts left level ws) (parseTrailer parts' left level ws) := by
  unfold parseTrailer
  split
  · split
    · split
      · exact h _ _
      · exact .refl _
    · split
      · exact .bind (h _ _) fun _ => .bind (.refl _) fun _ => h _ _
      · split
        · exact .bind (h _ _) fun _ => .bind (.refl _) fun _ => h _ _
        · exact h _ _
  · exact h _ _

lemma parseRest_extends (left : Expr) (compared : Bool) (level : Nat) (ws : List Word) :
    Extends (parseRest parts left compared level ws) (parseRest parts' left compared level ws) := by
  unfold parseRest
  split
  · split
    · exact .bind (h _ _) fun _ => .bind (.refl _) fun _ => .bind (h _ _) fun _ => h _ _
    · split
      · split
        · exact .bind (h _ _) fun _ => h _ _
        · exact .refl _
      · exact .refl _
  · exact .refl _

end Fuel

lemma parse_succ (n : Nat) (g : Goal) (ws : List Word) :
    Extends (parse n g ws) (parse (n + 1) g ws) := by
  induction n generalizing g ws with
  | zero => exact fun _ h => nomatch h
  | succ n ih =>
    cases g with
    | operation level => exact parseOperation_extends ih level ws
    | trailer left level => exact parseTrailer_extends ih left level ws
    | rest left compared level => exact parseRest_extends ih left compared level ws

lemma parse_mono (h : m ≤ n) (run : parse m g ws = some r) : parse n g ws = some r := by
  induction h with
  | refl => exact run
  | step _ ih => exact parse_succ _ _ _ _ ih

/-! ### What ends an operand -/

/-- No operator of a level or tighter follows. -/
def Halts (level : Nat) : List Word → Prop
  | .mark op :: _ => (op = "if" → level < chooseLevel) ∧
      ∀ own right, operator? op = some (own, right) → level < own
  | _ => True

/-- What follows does not belong to an operand of a level. The operand of a power
or a sign would take a power. -/
def Stops (level : Nat) : List Word → Prop
  | .mark op :: _ => op ≠ "." ∧ op ≠ "[" ∧ op ≠ "(" ∧ (op = "if" → level < chooseLevel) ∧
      ∀ own right, operator? op = some (own, right) → level ≤ own ∧ (4 ≤ level → 6 ≤ own)
  | _ => True

lemma operator?_bounds (h : operator? op = some (own, right)) :
    own ≠ notLevel ∧ own < chooseLevel ∧ (right < own ∧ 6 ≤ own ∨ right = signLevel ∧ own = 4) := by
  unfold operator? at h
  repeat' split at h
  all_goals cases h
  all_goals simp [signLevel, comparisonLevel, notLevel, chooseLevel]

lemma Stops.mono (h : Stops level' k) (le : level ≤ level') : Stops level k := by
  unfold Stops at h ⊢
  split
  · obtain ⟨dot, bracket, paren, choose, all⟩ := h
    refine ⟨dot, bracket, paren, fun same => Nat.lt_of_le_of_lt le (choose same), ?_⟩
    intro own right found
    obtain ⟨below, power⟩ := all own right found
    exact ⟨Nat.le_trans le below, fun four => power (Nat.le_trans four le)⟩
  · trivial

lemma Stops.halts (h : Stops level k)
    (le : limit < level ∨ limit = signLevel ∧ 4 ≤ level ∨ limit = notLevel ∧ level = notLevel ∨
      level = chooseLevel) : Halts limit k := by
  unfold Halts
  split
  · obtain ⟨-, -, -, choose, all⟩ := h
    refine ⟨fun same => ?_, fun own right found => ?_⟩
    · have := choose same
      simp only [signLevel, notLevel, chooseLevel] at le this ⊢
      omega
    · obtain ⟨below, power⟩ := all own right found
      obtain ⟨other, most, -⟩ := operator?_bounds found
      simp only [signLevel, notLevel, chooseLevel] at le other most
      omega
  · trivial

lemma Stops.right {own right : Nat} (found : operator? op = some (own, right)) (h : Stops own k) :
    Stops right k ∧ Halts right k := by
  obtain ⟨-, -, low | ⟨rfl, rfl⟩⟩ := operator?_bounds found
  · exact ⟨h.mono (Nat.le_of_lt low.1), h.halts (.inl low.1)⟩
  · refine ⟨?_, h.halts (.inr (.inl ⟨rfl, Nat.le_refl _⟩))⟩
    unfold Stops at h ⊢
    split
    · obtain ⟨dot, bracket, paren, choose, all⟩ := h
      refine ⟨dot, bracket, paren, fun _ => by decide, fun own right found => ?_⟩
      have := (all own right found).2 (Nat.le_refl _)
      exact ⟨Nat.le_trans (by decide) this, fun _ => this⟩
    · trivial

lemma rest_halts (h : Halts limit k) (n : Nat) (e : Expr)
    (compared : Bool) : parse (n + 1) (.rest e compared limit) k = some (e, k) := by
  change parseRest _ _ _ _ k = _
  unfold parseRest
  split
  case h_1 op ws =>
    obtain ⟨choose, all⟩ := h
    rw [if_neg (by
      simp only [Bool.and_eq_true, decide_eq_true_eq, not_and, Nat.not_le]
      exact choose)]
    split
    case h_1 own right found => rw [if_neg (Nat.not_le.mpr (all own right found))]
    case h_2 => rfl
  case h_2 => rfl

lemma trailer_stops (h : Stops level k) (n limit : Nat) (e : Expr) :
    parse (n + 1) (.trailer e limit) k = parse n (.rest e false limit) k := by
  change parseTrailer _ _ _ k = _
  unfold parseTrailer
  split
  case h_1 op ws =>
    obtain ⟨dot, bracket, paren, -⟩ := h
    rw [if_neg dot, if_neg bracket, if_neg paren]
  case h_2 => rfl

/-! ### The rules of the grammar -/

/-- Read from the words on, the expression is the left side of what follows. -/
def Accepts (level : Nat) (ws : List Word) (e : Expr) : Prop :=
  ∃ compared, (compared = true → comparisonLevel ≤ level) ∧
    ∀ n limit k r, level ≤ limit → Stops level k → parse n (.rest e compared limit) k = some r →
      parse (n + 3 * ws.length) (.operation limit) (ws ++ k) = some r

namespace Accepts

variable {level : Nat} {ws : List Word} {e : Expr}

lemma mono (h : Accepts level ws e) (le : level ≤ level') : Accepts level' ws e := by
  obtain ⟨compared, low, h⟩ := h
  refine ⟨compared, fun c => Nat.le_trans (low c) le, fun n limit k r le' stops run => ?_⟩
  exact h n limit k r (Nat.le_trans le le') (stops.mono le) run

lemma parse_eq (h : Accepts level ws e) (le : level ≤ limit)
    (stops : Stops level k) (halts : Halts limit k) (fuel : 3 * ws.length < n) :
    parse n (.operation limit) (ws ++ k) = some (e, k) := by
  obtain ⟨compared, -, h⟩ := h
  exact parse_mono (by omega) (h 1 limit k (e, k) le stops (rest_halts halts 0 e compared))

lemma read_eq (h : Accepts chooseLevel (lex text.toList) e) : read text = some e := by
  have run := h.parse_eq (n := depthBound (lex text.toList).length) (k := []) (Nat.le_refl _)
    trivial trivial (by unfold depthBound; omega)
  rw [List.append_nil] at run
  simp only [read, run]

/-- An operand that is read as such when it has no trailer. -/
lemma of_trailer (short : 0 < ws.length)
    (h : ∀ n limit k r, parse n (.trailer e limit) k = some r →
      parse (n + 3 * ws.length - 1) (.operation limit) (ws ++ k) = some r) : Accepts 0 ws e := by
  refine ⟨false, nofun, fun n limit k r _ stops run => ?_⟩
  have := h (n + 1) limit k r (by rw [trailer_stops stops]; exact run)
  exact parse_mono (by omega) this

lemma name (text : String) : Accepts 0 [.name text] (.name text) :=
  of_trailer (by simp) fun _ _ _ _ run => parse_mono (m := _ + 1) (by simp) run

lemma number (text : String) : Accepts 0 [.number text] (.number text) :=
  of_trailer (by simp) fun _ _ _ _ run => parse_mono (m := _ + 1) (by simp) run

lemma string (text : String) : Accepts 0 [.string text] (.string text) :=
  of_trailer (by simp) fun _ _ _ _ run => parse_mono (m := _ + 1) (by simp) run

lemma member (owner text : String) :
    Accepts 0 [.name owner, .mark ".", .name text] (.attribute (.name owner) text) :=
  of_trailer (by simp) fun _ _ _ _ run => parse_mono (m := _ + 2) (by simp) run

/-- An expression between brackets, as part of an operand. -/
lemma enclosed (h : Accepts chooseLevel ws e) (close : String) (k : List Word)
    (closing : Stops chooseLevel (.mark close :: k)) (fuel : 3 * ws.length < n) :
    parse n (.operation chooseLevel) (ws ++ .mark close :: k) = some (e, .mark close :: k) :=
  h.parse_eq (Nat.le_refl _) closing (closing.halts (.inr (.inr (.inr rfl)))) fuel

lemma parens (h : Accepts chooseLevel ws e) : Accepts 0 (.mark "(" :: ws ++ [.mark ")"]) e := by
  refine of_trailer (by simp) fun n limit k r run => ?_
  have inner := h.enclosed ")" k (n := n + 3 * ws.length + 1)
    (by simp [Stops, operator?]) (by omega)
  have step : parseOperation (parse (n + 3 * ws.length + 1)) limit
      (.mark "(" :: (ws ++ .mark ")" :: k)) = some r := by
    simp only [parseOperation, if_true, inner, Option.bind_eq_bind, Option.bind_some, expect]
    exact parse_mono (by omega) run
  have whole : parse (n + 3 * ws.length + 2) (.operation limit)
      (.mark "(" :: (ws ++ .mark ")" :: k)) = some r := step
  rw [List.append_assoc]
  exact parse_mono (by simp; omega) whole

lemma element (owner text index : String) :
    Accepts 0 [.name owner, .mark ".", .name text, .mark "[", .number index, .mark "]"]
      (.subscript (.attribute (.name owner) text) (.number index)) := by
  refine of_trailer (by simp) fun n limit k r run => ?_
  have inner := ((number index).mono (Nat.zero_le chooseLevel)).enclosed "]" k (n := n + 4)
    (by simp [Stops, operator?]) (by simp)
  have step : parseTrailer (parse (n + 4)) (.attribute (.name owner) text) limit
      (.mark "[" :: ([.number index] ++ .mark "]" :: k)) = some r := by
    unfold parseTrailer
    dsimp only
    rw [if_neg (by decide), if_pos rfl, inner]
    exact parse_mono (by omega) run
  exact parse_mono (m := n + 7) (by simp) step

lemma call (h : Accepts chooseLevel ws e) (function : String) :
    Accepts 0 (.name function :: .mark "(" :: ws ++ [.mark ")"]) (.call (.name function) e) := by
  refine of_trailer (by simp) fun n limit k r run => ?_
  have inner := h.enclosed ")" k (n := n + 3 * ws.length + 1)
    (by simp [Stops, operator?]) (by omega)
  have step : parseTrailer (parse (n + 3 * ws.length + 1)) (.name function) limit
      (.mark "(" :: (ws ++ .mark ")" :: k)) = some r := by
    unfold parseTrailer
    dsimp only
    rw [if_neg (by decide), if_neg (by decide), if_pos rfl, inner]
    exact parse_mono (by omega) run
  have whole : parse (n + 3 * ws.length + 3) (.operation limit)
      (.name function :: .mark "(" :: (ws ++ .mark ")" :: k)) = some r := step
  rw [List.append_assoc]
  exact parse_mono (by simp; omega) whole

/-- The operators in front of an operand. -/
lemma unary (h : Accepts own ws e)
    (kind : isSign op = true ∧ own = signLevel ∨ op = "not" ∧ own = notLevel) :
    Accepts own (.mark op :: ws) (.unary op e) := by
  refine ⟨false, nofun, fun n limit k r le stops run => ?_⟩
  have halts : Halts own k := by
    rcases kind with ⟨-, rfl⟩ | ⟨-, rfl⟩
    · exact stops.halts (.inr (.inl ⟨rfl, by decide⟩))
    · exact stops.halts (.inr (.inr (.inl ⟨rfl, rfl⟩)))
  have inner := h.parse_eq (n := n + 3 * ws.length + 1) (Nat.le_refl own) stops halts (by omega)
  have step : parseOperation (parse (n + 3 * ws.length + 1)) limit (.mark op :: (ws ++ k)) =
    some r := by
    rw [parseOperation]
    rcases kind with ⟨sign, rfl⟩ | ⟨rfl, rfl⟩
    · have paren : op ≠ "(" := by
        rintro rfl
        cases sign
      rw [if_neg paren, if_pos (by simp [sign, le]), inner]
      exact parse_mono (by omega) run
    · rw [if_neg (by decide), if_neg (by simp [isSign]), if_pos (by simp [le]), inner]
      exact parse_mono (by omega) run
  exact parse_mono (m := n + 3 * ws.length + 2) (by simp; omega) step

/-- A binary operator. Nothing but a primary is raised to a power, and the left side
of a comparison is none. -/
lemma binary
    (found : operator? op = some (own, right)) (h : Accepts left ws e) (h' : Accepts right ws' e')
    (le : left ≤ own) (power : 4 ≤ left → 6 ≤ own) (plain : own = comparisonLevel → left < own) :
    Accepts own (ws ++ .mark op :: ws') (.binary op e e') := by
  obtain ⟨compared, low, h⟩ := h
  refine ⟨own = comparisonLevel, fun c => Nat.le_of_eq (of_decide_eq_true c).symm,
    fun n limit k r le' stops run => ?_⟩
  obtain ⟨stops', halts'⟩ := stops.right found
  have inner := h'.parse_eq (n := n + 3 * ws'.length + 1) (Nat.le_refl right) stops' halts'
    (by omega)
  have different : op ≠ "if" ∧ op ≠ "." ∧ op ≠ "[" ∧ op ≠ "(" := by
    refine ⟨?_, ?_, ?_, ?_⟩ <;> rintro rfl <;> simp [operator?] at found
  have joined : (compared && decide (own = comparisonLevel)) = false := by
    cases compared with
    | false => rfl
    | true =>
      rw [Bool.true_and, decide_eq_false_iff_not]
      intro same
      exact absurd (low rfl) (Nat.not_le.mpr (same ▸ plain same))
  have step : parse (n + 3 * ws'.length + 2) (.rest e compared limit) (.mark op :: (ws' ++ k)) =
      some r := by
    change parseRest (parse (n + 3 * ws'.length + 1)) e compared limit (.mark op :: (ws' ++ k)) =
      some r
    simp only [parseRest, different.1, decide_false, Bool.false_and, Bool.false_eq_true, if_false,
      found, if_pos le', inner, joined, Option.bind_eq_bind, Option.bind_some]
    exact parse_mono (by omega) run
  have rest : Stops left (.mark op :: (ws' ++ k)) := by
    refine ⟨different.2.1, different.2.2.1, different.2.2.2, fun same => absurd same different.1,
      ?_⟩
    intro own' right' found'
    rw [found] at found'
    cases found'
    exact ⟨le, power⟩
  have whole := h (n + 3 * ws'.length + 2) limit _ r (Nat.le_trans le le') rest step
  rw [List.append_assoc]
  exact parse_mono (by simp; omega) whole

lemma choose (h : Accepts 18 ws e) (ht : Accepts 18 ws' test) (hn : Accepts chooseLevel ws'' no) :
    Accepts chooseLevel (ws ++ .mark "if" :: ws' ++ .mark "else" :: ws'') (.choose e test no) := by
  obtain ⟨compared, -, h⟩ := h
  refine ⟨false, nofun, fun n limit k r le stops run => ?_⟩
  have first := ht.parse_eq (n := n + 3 * ws'.length + 3 * ws''.length + 1)
    (k := .mark "else" :: (ws'' ++ k)) (Nat.le_refl 18) (by simp [Stops, operator?])
    (by simp [Halts, operator?]) (by omega)
  have second := hn.parse_eq (n := n + 3 * ws'.length + 3 * ws''.length + 1) (Nat.le_refl _) stops
    (stops.halts (.inr (.inr (.inr rfl)))) (by omega)
  have step : parse (n + 3 * ws'.length + 3 * ws''.length + 2) (.rest e compared limit)
      (.mark "if" :: (ws' ++ .mark "else" :: (ws'' ++ k))) = some r := by
    change parseRest (parse (n + 3 * ws'.length + 3 * ws''.length + 1)) e compared limit
      (.mark "if" :: (ws' ++ .mark "else" :: (ws'' ++ k))) = some r
    rw [parseRest, if_pos (by simp [le])]
    change (parse _ (.operation 18) _ >>= _) = _
    rw [first]
    change (parse _ (.operation chooseLevel) (ws'' ++ k) >>= _) = _
    rw [second]
    exact parse_mono (by omega) run
  have whole := h (n + 3 * ws'.length + 3 * ws''.length + 2) limit _ r
    (Nat.le_trans (by decide) le)
    (show Stops 18 (.mark "if" :: _) by simp [Stops, operator?, chooseLevel]) step
  have words : ws ++ .mark "if" :: ws' ++ .mark "else" :: ws'' ++ k =
      ws ++ .mark "if" :: (ws' ++ .mark "else" :: (ws'' ++ k)) := by simp
  rw [words]
  exact parse_mono (by simp; omega) whole

end Accepts

end AwkToPython.Python
