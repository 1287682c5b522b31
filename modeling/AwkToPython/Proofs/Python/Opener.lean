import Mathlib.Tactic.Common

/-!
# Lines that open a block

A line opens a block if its first word does. Two characters are enough to tell
that it does not, so a text with such a start keeps it whatever is put behind.
-/
namespace AwkToPython.Python

/-- The words that open a block. -/
def openers : List String := ["def", "class", "if", "else", "while", "for", "try", "except"]

/-- A start of neither a blank line nor a comment, nor of an opener. -/
def plainStart : List Char → Bool
  | [] => false
  | [c] => c ≠ ' ' && c ≠ '#' && openers.all fun w => w.toList.head? ≠ some c
  | c :: d :: _ => c ≠ ' ' && c ≠ '#' && openers.all fun w => w.toList.take 2 ≠ [c, d]

/-- A line with this text in front is a statement of its own. -/
def IsPlain (text : String) : Prop := plainStart text.toList = true

instance (text : String) : Decidable (IsPlain text) := inferInstanceAs (Decidable (_ = _))

lemma plainStart_cons (h : plainStart [c] = true) : plainStart (c :: cs) = true := by
  cases cs with
  | nil => exact h
  | cons d rest =>
    simp only [plainStart, Bool.and_eq_true, List.all_eq_true, decide_eq_true_eq] at h ⊢
    refine ⟨h.1, fun w mem same => h.2 w mem ?_⟩
    have first : (w.toList.take 2).head? = some c := by rw [same, List.head?_cons]
    rwa [List.head?_take, if_neg (by decide)] at first

lemma plainStart_append (b : List Char) (h : plainStart a = true) : plainStart (a ++ b) = true := by
  match a with
  | [] => cases h
  | [c] => exact plainStart_cons h
  | c :: d :: rest => exact h

lemma IsPlain.append (h : IsPlain text) (more : String) : IsPlain (text ++ more) := by
  rw [IsPlain, String.toList_append]
  exact plainStart_append _ h

end AwkToPython.Python
