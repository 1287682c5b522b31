import AwkToPython.Expression.Update
import AwkToPython.Literal.Replacement
import Mathlib.Data.List.Basic
import Mathlib.Data.Bool.AllAny

/-!
# Helpers named in a Python text

A step of a variable or of an element is written as a call of a helper. How often
a text calls one is read off where the names of helpers start in it. Between two
texts no name starts that is in neither of them, as long as one of the two
characters that meet cannot stand in such a name.
-/
namespace AwkToPython.Python

open List

variable {a cs : List Char} {c : Char} {b text : String}

/-- The runtime's helpers that step a variable or an element. -/
def helpers : List String :=
  ["_pre_inc_var", "_pre_dec_var", "_post_inc_var", "_post_dec_var",
   "_pre_inc_arr", "_pre_dec_arr", "_post_inc_arr", "_post_dec_arr"]

/-- A character that can stand in the name of a helper. -/
def inHelper (c : Char) : Bool := "_acdeinoprstv".toList.contains c

/-- The name of a helper stands in front. -/
def startsHelper (cs : List Char) : Bool := helpers.any fun name => name.toList.isPrefixOf cs

/-- The number of places where the name of a helper starts. -/
def mentions : List Char → Nat
  | [] => 0
  | c :: cs => (if startsHelper (c :: cs) then 1 else 0) + mentions cs

/-- How often a text calls a helper. -/
def helps (text : String) : Nat := mentions text.toList

/-! ### Texts put together -/

lemma isPrefixOf_takeWhile {p : Char → Bool} {n : List Char} (all : n.all p) :
    n.isPrefixOf (cs.takeWhile p) = n.isPrefixOf cs := by
  induction n generalizing cs with
  | nil => simp
  | cons c n ih =>
    simp only [all_cons, Bool.and_eq_true] at all
    cases cs with
    | nil => rfl
    | cons d cs =>
      by_cases inside : p d
      · rw [takeWhile_cons_of_pos inside, isPrefixOf, isPrefixOf, ih all.2]
      · have differ : c ≠ d := fun same => inside (same ▸ all.1)
        simp [inside, isPrefixOf, differ]

/-- Only the characters up to the first that stands in no name decide. -/
lemma startsHelper_takeWhile (cs : List Char) :
    startsHelper (cs.takeWhile inHelper) = startsHelper cs := by
  have all : ∀ name ∈ helpers, name.toList.all inHelper := by decide
  rw [startsHelper, startsHelper, Bool.eq_iff_iff, any_eq_true, any_eq_true]
  refine exists_congr fun name => and_congr_right fun mem => ?_
  rw [isPrefixOf_takeWhile (all name mem)]

lemma startsHelper_congr
    (same : cs.takeWhile inHelper = ds.takeWhile inHelper) : startsHelper cs = startsHelper ds := by
  rw [← startsHelper_takeWhile cs, same, startsHelper_takeWhile]

lemma startsHelper_cons (cs : List Char) (other : c ≠ '_') : startsHelper (c :: cs) = false := by
  have first : ∀ name ∈ helpers, name.toList.head? = some '_' := by decide
  rw [startsHelper, any_eq_false]
  intro name mem
  obtain ⟨rest, chars⟩ := head?_eq_some_iff.mp (first name mem)
  simp [chars, isPrefixOf, other.symm]

lemma mentions_cons (cs : List Char) (other : c ≠ '_') : mentions (c :: cs) = mentions cs := by
  rw [mentions, startsHelper_cons cs other]
  simp

lemma mentions_append_plain (b : List Char) (plain : '_' ∉ a) : mentions (a ++ b) = mentions b := by
  induction a with
  | nil => rfl
  | cons c a ih =>
    rw [mem_cons, not_or] at plain
    rw [cons_append, mentions_cons _ (Ne.symm plain.1), ih plain.2]

/-- The second text starts with a character that stands in no name. -/
lemma mentions_append {b : List Char} (cut : ∀ c ∈ b.head?, inHelper c = false) :
    mentions (a ++ b) = mentions a + mentions b := by
  induction a with
  | nil => simp [mentions]
  | cons c a ih =>
    have same : startsHelper (c :: a ++ b) = startsHelper (c :: a) := by
      refine startsHelper_congr ?_
      have none : b.takeWhile inHelper = [] := by
        cases b with
        | nil => rfl
        | cons d b => rw [takeWhile_cons_of_neg (by simp [cut d rfl])]
      rw [List.takeWhile_append]
      split
      case isTrue whole =>
        have all : (c :: a).takeWhile inHelper = c :: a :=
          (takeWhile_sublist _).eq_of_length whole
        rw [none, all, append_nil]
      case isFalse => rfl
    rw [cons_append, mentions, ← cons_append, same, ih, mentions, Nat.add_assoc]

/-- The first text ends with a character that stands in no name. -/
lemma mentions_append_last {b : List Char} (cut : ∀ c ∈ a.getLast?, inHelper c = false) :
    mentions (a ++ b) = mentions a + mentions b := by
  rcases eq_nil_or_concat' a with rfl | ⟨front, last, rfl⟩
  · simp [mentions]
  · have other : inHelper last = false := cut last (by simp)
    have plain : last ≠ '_' := by
      rintro rfl
      cases other
    have right := mentions_append (a := front) (b := last :: b) (by simpa using other)
    have alone := mentions_append (a := front) (b := [last]) (by simpa using other)
    rw [append_assoc, singleton_append, right, alone, mentions_cons _ plain,
      mentions_cons _ plain]
    rfl

/-- What follows the text never becomes part of a name in it. -/
def endsCut (text : String) : Bool := text.toList.getLast?.all fun c => !inHelper c

/-- What precedes the text never becomes part of a name in it. -/
def startsCut (text : String) : Bool := text.toList.head?.all fun c => !inHelper c

lemma helps_append_startsCut {a : String} (cut : startsCut b) :
    helps (a ++ b) = helps a + helps b := by
  rw [helps, String.toList_append]
  refine mentions_append fun c mem => ?_
  rw [Option.mem_def] at mem
  simpa [startsCut, mem] using cut

lemma helps_append_endsCut {a : String} (cut : endsCut a) : helps (a ++ b) = helps a + helps b := by
  rw [helps, String.toList_append]
  refine mentions_append_last fun c mem => ?_
  rw [Option.mem_def] at mem
  simpa [endsCut, mem] using cut

lemma endsCut_append {a : String} (some : b.toList ≠ []) : endsCut (a ++ b) = endsCut b := by
  rw [endsCut, endsCut, String.toList_append, getLast?_append_of_ne_nil _ some]

/-! ### Texts with gaps -/

/-- A text followed by fixed texts and by the contents of gaps. -/
def weave (text : String) : List (Option String) → List String → String
  | [], _ => text
  | some fixed :: pattern, gaps => weave (text ++ fixed) pattern gaps
  | none :: pattern, gap :: gaps => weave (text ++ gap) pattern gaps
  | none :: _, [] => text

/-- The fixed texts name no helper and keep the contents of gaps apart. `cut` says
whether what stands before ends with a cut. -/
def keepsApart (cut : Bool) : List (Option String) → Bool
  | [] => true
  | some fixed :: pattern =>
    !fixed.toList.isEmpty && helps fixed == 0 && (cut || startsCut fixed) &&
      keepsApart (endsCut fixed) pattern
  | none :: pattern => cut && keepsApart false pattern

def helpsAll : List String → Nat
  | [] => 0
  | [text] => helps text
  | text :: texts => helps text + helpsAll texts

lemma helpsAll_cons (text : String) (texts : List String) :
    helpsAll (text :: texts) = helps text + helpsAll texts := by
  cases texts <;> rfl

lemma helps_weave {cut : Bool} {pattern : List (Option String)}
    {gaps : List String} (ends : cut → endsCut text)
    (apart : keepsApart cut pattern) (full : gaps.length = pattern.count none) :
    helps (weave text pattern gaps) = helps text + helpsAll gaps := by
  induction pattern generalizing text cut gaps with
  | nil =>
    cases length_eq_zero_iff.mp full
    rfl
  | cons part pattern ih =>
    cases part with
    | some fixed =>
      simp only [keepsApart, Bool.and_eq_true, Bool.not_eq_true', Bool.or_eq_true,
        beq_iff_eq, isEmpty_eq_false_iff] at apart
      obtain ⟨⟨⟨some, silent⟩, joint⟩, rest⟩ := apart
      have here : helps (text ++ fixed) = helps text + helps fixed := by
        rcases joint with before | start
        · exact helps_append_endsCut (ends before)
        · exact helps_append_startsCut start
      rw [weave, ih (fun h => (endsCut_append some).trans h) rest (by simpa using full), here,
        silent, Nat.add_zero]
    | none =>
      rw [keepsApart, Bool.and_eq_true] at apart
      cases gaps with
      | nil => simp at full
      | cons gap gaps =>
        have rest := @ih (text ++ gap) false gaps nofun apart.2 (by simpa using full)
        rw [weave, rest, helps_append_endsCut (ends apart.1), helpsAll_cons, Nat.add_assoc]

lemma helps_fixed (text : String) (pattern : List (Option String)) (gaps : List String)
    (apart : (helps text == 0 && keepsApart (endsCut text) pattern))
    (full : gaps.length = pattern.count none) :
    helps (weave text pattern gaps) = helpsAll gaps := by
  rw [Bool.and_eq_true, beq_iff_eq] at apart
  rw [helps_weave id apart.2 full, apart.1, Nat.zero_add]

lemma helps_gap (text : String) (pattern : List (Option String)) (gaps : List String)
    (apart : keepsApart false pattern) (full : gaps.length = pattern.count none) :
    helps (weave text pattern gaps) = helpsAll (text :: gaps) := by
  rw [@helps_weave text false pattern gaps nofun apart full, helpsAll_cons]

example (l r : String) : helps s!"({l}+{r})" = helps l + helps r :=
  helps_fixed "(" [none, some "+", none, some ")"] [l, r] (by decide) rfl

/-! ### Numbers and joined texts -/

lemma helps_of_plain (plain : '_' ∉ text.toList) : helps text = 0 := by
  have alone := mentions_append_plain [] plain
  rwa [append_nil] at alone

lemma isDigit_of_mem_repr {n : Nat} (mem : c ∈ (toString n).toList) : c.isDigit := by
  rw [Nat.toString_eq_ofList_toDigits, String.toList_ofList] at mem
  exact Nat.isDigit_of_mem_toDigits (by decide) (by decide) mem

lemma inHelper_of_isDigit (digit : c.isDigit) : inHelper c = false := by
  have all : ∀ d ∈ "_acdeinoprstv".toList, d.isDigit = false := all_iff_forall_prop.mp (by decide)
  rw [inHelper, Bool.eq_false_iff]
  intro mem
  rw [all c (contains_iff_mem.mp mem)] at digit
  cases digit

lemma helps_toString (n : Nat) : helps (toString n) = 0 := by
  refine helps_of_plain fun mem => ?_
  have digit := isDigit_of_mem_repr mem
  revert digit
  decide

/-- A number behind a text ends no name. -/
lemma helps_numbered (text : String) (n : Nat) : helps (text ++ toString n) = helps text := by
  rw [helps_append_startsCut, helps_toString, Nat.add_zero]
  rw [startsCut, Option.all_eq_true]
  intro c first
  rw [inHelper_of_isDigit (isDigit_of_mem_repr (mem_of_mem_head? first))]
  rfl

end AwkToPython.Python
