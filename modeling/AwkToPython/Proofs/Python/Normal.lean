import Mathlib
import AwkToPython.Decimal.Binary
import AwkToPython.Proofs.Python.Literal

/-!
# The value of a number literal

The text that Python gets for a literal differs from it by zeros in front of the
integer part. Read exactly, both stand for one rational number, and the text needs
no second pass.
-/
namespace AwkToPython

open List Literal Text Python

variable {e : Int} {sign : List Char} {text : String}

/-- The exact value of a numeral. -/
def Decimal.Numeral.value (n : Decimal.Numeral) : ℚ :=
  (if n.negative then -1 else 1) * n.digits * 10 ^ n.scale

namespace Literal

/-- A scan for unsigned numbers takes all of a text that follows a minus sign or none. -/
def Matches (length : List Char → Nat) (text : String) : Prop :=
  ∃ digits, digits ≠ [] ∧ length digits = digits.length ∧
    (text.toList = digits ∨ text.toList = '-' :: digits)

def IsDecimal (text : String) : Prop := Matches Span.decimalLength text

def IsHexadecimal (text : String) : Prop := Matches Span.hexLength text

def integerPart (text : String) : List Char :=
  (text.toList.dropWhile (· = '-')).takeWhile Char.isDigit

lemma digitsValue_dropZeros (w ds : List Char) :
    digitsValue (w.dropWhile (· = '0') ++ ds) = digitsValue (w ++ ds) := by
  induction w with
  | nil => rfl
  | cons c w ih =>
    by_cases zero : c = '0'
    · subst zero
      rw [dropWhile_cons_of_pos (by simp), ih]
      rfl
    · rw [dropWhile_cons_of_neg (by simpa using zero)]

lemma digitsValue_trimZeros (w ds : List Char) :
    digitsValue (trimZeros w ++ ds) = digitsValue (w ++ ds) := by
  have dropped := digitsValue_dropZeros w ds
  unfold trimZeros
  split
  case h_1 none =>
    rw [none, nil_append] at dropped
    cases w with
    | nil => rfl
    | cons c w => exact dropped
  case h_2 => exact dropped

lemma trimZeros_trimZeros (w : List Char) : trimZeros (trimZeros w) = trimZeros w := by
  rcases (trimZeros_cases w).1 with zero | first
  · rw [zero]
    rfl
  · cases same : trimZeros w with
    | nil => rfl
    | cons c v =>
      have other : c ≠ '0' := by simpa [same] using first
      simp [trimZeros, other]

end Literal

namespace Python.Decimal

variable {w f x : List Char} (h : Decimal w f x)
include h

lemma exponent? : ∃ e, AwkToPython.Decimal.exponent? x = some e := by
  rcases h.exponent with rfl | ⟨e, sign, digits, rfl, letter, signs, some, all⟩
  · exact ⟨0, rfl⟩
  · have read : decimal? digits = .some (digitsValue digits) := by
      simp [decimal?, some, all]
    apply Option.isSome_iff_exists.mp
    unfold AwkToPython.Decimal.exponent?
    dsimp only
    rw [if_pos (by simpa using letter)]
    rcases signs with rfl | rfl | rfl
    · rw [nil_append]
      split
      · cases all
      · cases all
      · rw [read]
        rfl
    all_goals simp [read]

/-- The exact reader takes the digits around the point for one number. -/
lemma unsignedNumeral? (negative : Bool) (he : AwkToPython.Decimal.exponent? x = some e) :
    AwkToPython.Decimal.unsignedNumeral? negative (w ++ (f ++ x)) =
      some ⟨negative, digitsValue (w ++ f.drop 1), e - (f.length - 1 : Nat)⟩ := by
  obtain ⟨behind, stop⟩ := h.stop closes_nil
  simp only [append_nil] at behind stop
  have digits := fun c hc => (behind c hc).1
  rw [AwkToPython.Decimal.unsignedNumeral?,
    takeWhile_append h.whole fun c hc => (stop c hc).1,
    dropWhile_append h.whole fun c hc => (stop c hc).1]
  rcases h.fraction with rfl | ⟨ds, rfl, all, some⟩
  · have whole : w ≠ [] := by simpa using h.something
    split
    rename_i parts
    split at parts
    · rename_i same
      rw [nil_append] at same
      exact absurd rfl (behind '.' (by rw [same]; rfl)).2
    · cases parts
      simp [whole, he]
  · simp only [cons_append, takeWhile_append all digits, dropWhile_append all digits]
    have nonempty : ¬ (w.isEmpty && ds.isEmpty) := by
      rw [Bool.and_eq_true, List.isEmpty_iff, List.isEmpty_iff]
      exact fun none => some none.1 none.2
    rw [if_neg nonempty, he]
    rfl

/-- A literal as its sign and its digits. -/
lemma numeral? (signs : sign = [] ∨ sign = ['-']) (he : AwkToPython.Decimal.exponent? x = some e) :
    AwkToPython.Decimal.numeral? (sign ++ (w ++ (f ++ x))) =
      some ⟨sign ≠ [], digitsValue (w ++ f.drop 1), e - (f.length - 1 : Nat)⟩ := by
  rcases signs with rfl | rfl
  · rw [nil_append, ← h.unsignedNumeral? _ he]
    unfold AwkToPython.Decimal.numeral?
    split
    · rename_i same
      rcases h.first same with digit | point
      · cases digit
      · cases point
    · rename_i same
      exact absurd (congrArg head? same) h.head_ne_minus
    · rfl
  · exact h.unsignedNumeral? _ he

lemma number (signs : sign = [] ∨ sign = ['-']) :
    Literal.number (String.ofList (sign ++ (w ++ (f ++ x)))) =
      String.ofList (sign ++ (Literal.trimZeros w ++ (f ++ x))) := by
  rw [← h.unsignedNumber, Literal.number, String.toList_ofList]
  rcases signs with rfl | rfl
  · rw [nil_append]
    split
    · rename_i same
      exact absurd (congrArg head? same) h.head_ne_minus
    · rfl
  · rfl

lemma integerPart (signs : sign = [] ∨ sign = ['-']) :
    Literal.integerPart (String.ofList (sign ++ (w ++ (f ++ x)))) = w := by
  obtain ⟨-, stop⟩ := h.stop closes_nil
  rw [append_nil] at stop
  have plain : ∀ c ∈ (w ++ (f ++ x)).head?, decide (c = '-') = false := by
    intro c hc
    rw [decide_eq_false_iff_not]
    rintro rfl
    exact h.head_ne_minus hc
  rw [Literal.integerPart, String.toList_ofList, dropWhile_append ?_ plain,
    takeWhile_append h.whole fun c hc => (stop c hc).1]
  rcases signs with rfl | rfl <;> rfl

lemma isDecimal (signs : sign = [] ∨ sign = ['-']) :
    Literal.IsDecimal (String.ofList (sign ++ (w ++ (f ++ x)))) := by
  refine ⟨w ++ (f ++ x), ?_, ?_, ?_⟩
  · have := h.something
    simp_all
  · have := decimalLength_append h closes_nil
    simpa [Nat.add_assoc] using this
  · rw [String.toList_ofList]
    rcases signs with rfl | rfl
    · exact .inl rfl
    · exact .inr rfl

end Python.Decimal

namespace Literal

lemma IsDecimal.parts (h : IsDecimal text) : ∃ sign w f x,
    text = String.ofList (sign ++ (w ++ (f ++ x))) ∧ (sign = [] ∨ sign = ['-']) ∧
      Decimal w f x := by
  obtain ⟨digits, some, length, signs⟩ := h
  obtain ⟨w, f, x, rfl, decimal⟩ := decimal_of_length some length
  rcases signs with same | same
  · exact ⟨[], w, f, x, String.toList_injective (by simpa using same), .inl rfl, decimal⟩
  · exact ⟨['-'], w, f, x, String.toList_injective (by simpa using same), .inr rfl, decimal⟩

lemma IsHexadecimal.number (h : IsHexadecimal text) : Literal.number text = text := by
  obtain ⟨digits, some, length, signs⟩ := h
  have positive : Span.hexLength digits ≠ 0 := by
    rw [length]
    exact fun none => some (eq_nil_of_length_eq_zero none)
  obtain ⟨mark, hs, rfl, marks, -⟩ := hex_of_length positive length
  have kept : unsignedNumber ('0' :: mark :: hs) = '0' :: mark :: hs := by
    rcases marks with rfl | rfl <;> rfl
  apply String.toList_injective
  rcases signs with same | same <;> simp [Literal.number, same, kept]

lemma IsDecimal.number_number (h : IsDecimal text) :
    Literal.number (Literal.number text) = Literal.number text := by
  obtain ⟨sign, w, f, x, rfl, signs, parts⟩ := h.parts
  rw [parts.number signs, parts.trimZeros.number signs, trimZeros_trimZeros]

/-- A literal and its normal form stand for one number, and no zero stands in front of
another digit of the integer part. -/
theorem number_keeps_value (text : String) :
    (IsDecimal text →
      IsDecimal (number text) ∧
      (∃ m n, Decimal.numeral? text.toList = some m ∧
        Decimal.numeral? (number text).toList = some n ∧ n.value = m.value) ∧
      (integerPart (number text) = [] ∨ integerPart (number text) = ['0'] ∨
        ∃ c ∈ (integerPart (number text)).head?, c.isDigit ∧ c ≠ '0')) ∧
    (IsHexadecimal text → number text = text) ∧
    (IsDecimal text ∨ IsHexadecimal text → number (number text) = number text) := by
  refine ⟨fun decimal => ?_, IsHexadecimal.number, ?_⟩
  · obtain ⟨sign, w, f, x, rfl, signs, parts⟩ := decimal.parts
    obtain ⟨e, exponent⟩ := parts.exponent?
    have trimmed := parts.trimZeros
    rw [parts.number signs, trimmed.integerPart signs, String.toList_ofList,
      String.toList_ofList]
    refine ⟨trimmed.isDecimal signs,
      ⟨_, _, parts.numeral? signs exponent, trimmed.numeral? signs exponent, ?_⟩, ?_⟩
    · rw [digitsValue_trimZeros]
    · obtain ⟨zeros, -⟩ := trimZeros_cases w
      have digits := all_eq_true.mp trimmed.whole
      cases same : trimZeros w with
      | nil => exact .inl rfl
      | cons c v =>
        rw [same] at zeros digits
        rcases zeros with zero | first
        · exact .inr (.inl zero)
        · exact .inr (.inr ⟨c, rfl, digits c mem_cons_self, by simpa using first⟩)
  · rintro (decimal | hexadecimal)
    · exact decimal.number_number
    · rw [hexadecimal.number, hexadecimal.number]

/-- Zeros go, the sign and the fraction stay. -/
theorem number_keeps_value_signed : IsDecimal "-010.5" ∧ IsHexadecimal "0x1F" ∧
    number "-010.5" = "-10.5" ∧ IsDecimal "-10.5" ∧ number "0x1F" = "0x1F" := by
  have decimal : IsDecimal "-010.5" := ⟨"010.5".toList, by decide, by decide, .inr rfl⟩
  have hexadecimal : IsHexadecimal "0x1F" := ⟨"0x1F".toList, by decide, by decide, .inl rfl⟩
  have normal : number "-010.5" = "-10.5" := by decide
  refine ⟨decimal, hexadecimal, normal, ?_, (number_keeps_value "0x1F").2.1 hexadecimal⟩
  have := ((number_keeps_value "-010.5").1 decimal).1
  rwa [normal] at this

end Literal

end AwkToPython
