import AwkToPython.Preset
import AwkToPython.Proofs.Python.Literal

/-!
# Preset values as Python literals

A value that reads as an integer or as a finite number is written as a literal of
Python that stands for a number, any other value as a literal of the string that it
decodes to. A number that is too large for a float is the exception: it is written
as a name.
-/
namespace AwkToPython

open List

namespace Python

/-- The digits of an integer, without a zero in front. -/
def IsInteger (text : String) (n : Int) : Prop :=
  ∃ digits, text.toList = (if n < 0 then ['-'] else []) ++ digits ∧ Decimal digits [] [] ∧
    (digits = ['0'] ∨ digits.head? ≠ some '0') ∧ Nat.ofDigitChars 10 digits 0 = n.natAbs

/-- A decimal number with a point or an exponent. -/
def IsFloat (text : String) (negative : Bool) : Prop :=
  ∃ w f x, text.toList = (if negative then ['-'] else []) ++ (w ++ (f ++ x)) ∧
    Decimal w f x ∧ (f ≠ [] ∨ x ≠ [])

/-- How a number may begin. -/
lemma Decimal.signed_head (h : Decimal w f x) (negative : Prop)
    [Decidable negative] : ∃ c ∈ ((if negative then ['-'] else []) ++ (w ++ (f ++ x))).head?,
      c = '-' ∨ c.isDigit ∨ c = '.' := by
  split
  · exact ⟨'-', rfl, .inl rfl⟩
  · cases same : w ++ (f ++ x) with
    | nil =>
      rw [← append_assoc, append_eq_nil_iff] at same
      exact absurd same.1 h.something
    | cons c cs => exact ⟨c, rfl, .inr (h.first same)⟩

lemma IsInteger.head (h : IsInteger text n) :
    ∃ c ∈ text.toList.head?, c = '-' ∨ c.isDigit ∨ c = '.' := by
  obtain ⟨digits, same, decimal, -⟩ := h
  rw [same]
  simpa using decimal.signed_head (n < 0)

lemma IsFloat.head (h : IsFloat text negative) :
    ∃ c ∈ text.toList.head?, c = '-' ∨ c.isDigit ∨ c = '.' := by
  obtain ⟨w, f, x, same, decimal, -⟩ := h
  rw [same]
  exact decimal.signed_head _

lemma isInteger_toString (n : Int) : IsInteger (toString n) n := by
  have digits : ∀ k : Nat, Nat.toDigits 10 k = ['0'] ∨ (Nat.toDigits 10 k).head? ≠ some '0' := by
    intro k
    cases k with
    | zero => exact .inl rfl
    | succ k => exact .inr (toDigits_head (Nat.succ_pos k))
  refine ⟨Nat.toDigits 10 n.natAbs, ?_, decimal_toDigits _, digits _, Nat.ofDigitChars_ten_toDigits⟩
  cases n with
  | ofNat k =>
    rw [if_neg (by simp)]
    exact Nat.toList_repr
  | negSucc k =>
    rw [if_pos (Int.negSucc_lt_zero k)]
    change ("-" ++ (k + 1).repr).toList = _
    rw [String.toList_append, Nat.toList_repr]
    rfl

lemma all_digits_replicate (n : Nat) : (replicate n '0').all Char.isDigit := by
  rw [all_replicate]
  split <;> rfl

section Notation

variable {cs : List Char} (some : cs ≠ []) (all : cs.all Char.isDigit = true)
include some all

lemma isFloat_positional (point : Int) : IsFloat (Decimal.positional cs point) false := by
  have parts : ∀ {w ds : List Char}, w ≠ [] → w.all Char.isDigit →
      ds.all Char.isDigit → Decimal w ('.' :: ds) [] := fun some all digits =>
    ⟨all, .inr ⟨_, rfl, digits, fun none => absurd none some⟩, by simp, .inl rfl⟩
  have zeros := all_digits_replicate
  rw [AwkToPython.Decimal.positional]
  split
  · refine ⟨['0'], '.' :: (replicate (-point).toNat '0' ++ cs), [], by simp,
      parts (by simp) rfl ?_, .inl (by simp)⟩
    rw [all_append, zeros, all, Bool.true_and]
  split
  · refine ⟨cs ++ replicate (point.toNat - cs.length) '0', ['.', '0'], [], by simp,
      parts (by simp [some]) ?_ rfl, .inl (by simp)⟩
    rw [all_append, all, zeros, Bool.true_and]
  case isFalse positive inside =>
    refine ⟨cs.take point.toNat, '.' :: cs.drop point.toNat, [], by simp, parts ?_ ?_ ?_,
      .inl (by simp)⟩
    · rw [Ne, take_eq_nil_iff, not_or]
      exact ⟨by omega, some⟩
    · exact all_eq_true.mpr fun c mem => all_eq_true.mp all c (mem_of_mem_take mem)
    · exact all_eq_true.mpr fun c mem => all_eq_true.mp all c (mem_of_mem_drop mem)

lemma isFloat_scientific (point : Int) : IsFloat (Decimal.scientific cs point) false := by
  obtain ⟨c, more, rfl⟩ := exists_cons_of_ne_nil some
  obtain ⟨digits, written, decimal, -⟩ := (isInteger_toString (point - 1))
  have exponent : ∃ e sign ds, 'e' :: (toString (point - 1)).toList = e :: (sign ++ ds) ∧
      (e = 'e' ∨ e = 'E') ∧ (sign = [] ∨ sign = ['-'] ∨ sign = ['+']) ∧ ds ≠ [] ∧
      ds.all Char.isDigit := by
    refine ⟨'e', _, digits, by rw [written], .inl rfl, ?_, by simpa using decimal.something,
      decimal.whole⟩
    split
    · exact .inr (.inl rfl)
    · exact .inl rfl
  rw [all_cons, Bool.and_eq_true] at all
  have first : [c].all Char.isDigit := by simp [all.1]
  rw [AwkToPython.Decimal.scientific]
  split
  · refine ⟨[c], [], 'e' :: (toString (point - 1)).toList, by simp,
      ⟨first, .inl rfl, by simp, .inr exponent⟩, .inr (by simp)⟩
  · refine ⟨[c], '.' :: more, 'e' :: (toString (point - 1)).toList, by simp,
      ⟨first, .inr ⟨more, rfl, all.2, by simp⟩, by simp, .inr exponent⟩, .inl (by simp)⟩

end Notation

lemma isFloat_finite (m : Nat) (q : Int) :
    IsFloat (AwkToPython.Decimal.Magnitude.finite m q).text false := by
  rw [AwkToPython.Decimal.Magnitude.text]
  split
  · exact ⟨['0'], ['.', '0'], [], rfl, ⟨rfl, .inr ⟨['0'], rfl, rfl, by simp⟩, by simp, .inl rfl⟩,
      .inl (by simp)⟩
  · have digits (n : Nat) : (Nat.toDigits 10 n).all Char.isDigit :=
      all_eq_true.mpr fun c mem => Nat.isDigit_of_mem_toDigits (by decide) (by decide) mem
    dsimp only
    split
    · exact isFloat_positional Nat.toDigits_ne_nil (digits _) _
    · exact isFloat_scientific Nat.toDigits_ne_nil (digits _) _

lemma numeral_cases (n : AwkToPython.Decimal.Numeral) :
    (∃ m q, n.magnitude = .finite m q) ∧ IsFloat n.text n.negative ∨
    n.magnitude = .infinite ∧ n.text = if n.negative then "-inf" else "inf" := by
  rw [AwkToPython.Decimal.Numeral.text]
  cases size : n.magnitude with
  | infinite =>
    refine .inr ⟨rfl, ?_⟩
    cases n.negative <;> rfl
  | finite m q =>
    obtain ⟨w, f, x, text, decimal, float⟩ := (isFloat_finite m q)
    refine .inl ⟨⟨m, q, rfl⟩, w, f, x, ?_, decimal, float⟩
    rw [String.toList_append, text]
    cases n.negative <;> rfl

end Python

/-- What a preset value is written as. -/
theorem preset_values_are_literals (value : String) :
    (∃ n, Text.signed64? value = some n ∧ Python.IsInteger (Preset.literal value) n) ∨
    (∃ n, Text.signed64? value = none ∧ Preset.looksNumeric value.toList ∧
      Decimal.numeral? value.toList = some n ∧
      ((∃ m q, n.magnitude = .finite m q) ∧ Python.IsFloat (Preset.literal value) n.negative ∨
        n.magnitude = .infinite ∧ Preset.literal value = if n.negative then "-inf" else "inf")) ∨
    Text.signed64? value = none ∧
      (Preset.looksNumeric value.toList = false ∨ Decimal.numeral? value.toList = none) ∧
      Preset.literal value = Literal.python (String.ofList (Literal.unescape value.toList)) := by
  rw [Preset.literal]
  cases integer : Text.signed64? value with
  | some n => exact .inl ⟨n, rfl, Python.isInteger_toString n⟩
  | none =>
    have text : Literal.value ("\"" ++ value ++ "\"") =
        String.ofList (Literal.unescape value.toList) := by
      simp [Literal.value, Literal.unquote, Literal.isQuote]
    refine .inr ?_
    dsimp only
    rw [Preset.decimal?, text]
    cases numeric : Preset.looksNumeric value.toList with
    | false => exact .inr ⟨rfl, .inl rfl, rfl⟩
    | true =>
      cases found : Decimal.numeral? value.toList with
      | none => exact .inr ⟨rfl, .inr rfl, rfl⟩
      | some n => exact .inl ⟨n, rfl, rfl, rfl, Python.numeral_cases n⟩

/-- A number that is too large for a float is written as a name. -/
theorem overflow_is_written_as_name : Preset.literal "1e999" = "inf" ∧
    ¬ ((∃ n, Python.IsInteger (Preset.literal "1e999") n) ∨
      (∃ negative, Python.IsFloat (Preset.literal "1e999") negative) ∨
      ∃ text, Preset.literal "1e999" = Literal.python text) := by
  have name : Preset.literal "1e999" = "inf" := by decide +kernel
  refine ⟨name, ?_⟩
  rw [name]
  rintro (⟨n, integer⟩ | ⟨negative, float⟩ | ⟨text, string⟩)
  · obtain ⟨c, head, first⟩ := integer.head
    cases head
    exact absurd first (by decide)
  · obtain ⟨c, head, first⟩ := float.head
    cases head
    exact absurd first (by decide)
  · have head := congrArg (fun s => s.toList.head?) string
    simp [Literal.python] at head

end AwkToPython
