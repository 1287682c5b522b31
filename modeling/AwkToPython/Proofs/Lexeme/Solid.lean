import AwkToPython.Proofs.Namespace
import AwkToPython.Proofs.Token.Spelling

/-!
# Words without blanks

What is counted of a line is there. A word that is no literal is made of visible ASCII
characters, so no blank is in it. One that starts with a slash is an operator.
-/
namespace AwkToPython

open List Text Name

namespace Span

lemma quotedLength_le (quote : Char) (cs : List Char) : quotedLength quote cs ≤ cs.length := by
  fun_induction quotedLength quote cs <;> simp only [length_cons, length_nil] at * <;> omega

lemma regexLength_le (inBrackets : Bool) (cs : List Char) :
    regexLength inBrackets cs ≤ cs.length := by
  fun_induction regexLength inBrackets cs <;> simp only [length_cons, length_nil] at * <;>
    omega

lemma ledRegexLength_cases (led : 0 < ledRegexLength cs) :
    ∃ lead body, '/' ∉ lead ∧ cs = lead ++ '/' :: body ∧
      ledRegexLength cs = lead.length + 1 + regexLength false body := by
  have leads : ∀ lead ∈ regexLeads, '/' ∉ lead.toList := by decide
  obtain ⟨lead, mem, blanks, body, blank, same, length⟩ := ledRegexLength_parts led
  refine ⟨lead.toList ++ blanks, body, ?_, by rw [append_assoc, same],
    by rw [length, length_append]⟩
  rw [mem_append, not_or]
  exact ⟨leads lead mem, fun inside => absurd (all_eq_true.mp blank _ inside) (by decide)⟩

lemma front?_cases {span : Span} (found : front? first c cs = some span) :
    span.shape = .comment ∧ c = '#' ∧ span.more = cs.length ∨
    span.shape = .quoted ∧ (c = '"' ∨ c = '\'') ∧ span.more = quotedLength c cs ∨
    span.shape = .regex ∧ (∃ lead body, '/' ∉ lead ∧ c :: cs = lead ++ '/' :: body ∧
      span.more = lead.length + regexLength false body) ∨
    span.shape = .plain ∧ 0 < plainLength (c :: cs) ∧ span.more = plainLength (c :: cs) - 1 := by
  rw [front?] at found
  split at found
  case isTrue slash =>
    cases found
    simp only [Bool.and_eq_true, decide_eq_true_eq] at slash
    exact .inr (.inr (.inl ⟨rfl, [], cs, not_mem_nil, by rw [slash.2]; rfl, (Nat.zero_add _).symm⟩))
  case isFalse =>
    rw [at?] at found
    split at found
    case isTrue mark =>
      cases found
      exact .inl ⟨rfl, mark, rfl⟩
    case isFalse =>
      split at found
      case isTrue quote =>
        cases found
        exact .inr (.inl ⟨rfl, by simpa using quote, rfl⟩)
      case isFalse =>
        split at found
        case isTrue led =>
          cases found
          obtain ⟨lead, body, free, whole, length⟩ := ledRegexLength_cases led
          exact .inr (.inr (.inl ⟨rfl, lead, body, free, whole, by
            change ledRegexLength (c :: cs) - 1 = _
            omega⟩))
        case isFalse =>
          split at found
          case isTrue plain =>
            cases found
            exact .inr (.inr (.inr ⟨rfl, plain, rfl⟩))
          case isFalse => cases found

lemma skipped?_prefix (found : skipped? cs = some skipped) : skipped <+: cs := by
  induction cs generalizing skipped with
  | nil => cases found
  | cons c cs ih =>
    rw [skipped?] at found
    split at found
    · cases found
      exact nil_prefix
    · obtain ⟨more, here, rfl⟩ := Option.map_eq_some_iff.mp found
      exact (prefix_cons_inj c).mpr (ih here)

end Span

lemma Text.isBlank_of_ascii (low : 0x21 ≤ c.toNat) (high : c.toNat ≤ 0x7e) : isBlank c = false := by
  simp only [isBlank, blankRanges, any_cons, any_nil, Bool.or_false,
    Bool.or_eq_false_iff, Bool.and_eq_false_iff, decide_eq_false_iff_not]
  refine ⟨?_, ?_, ?_, ?_, ?_, ?_, ?_, ?_, ?_, ?_⟩ <;> omega

lemma Name.isBlank_of_isInner (inner : isInner c) : isBlank c = false := by
  delta isInner Char.isAlphanum Char.isAlpha Char.isUpper Char.isLower Char.isDigit at inner
  simp only [Bool.or_eq_true, Bool.and_eq_true, decide_eq_true_eq, ge_iff_le,
    UInt32.le_iff_toNat_le] at inner
  rcases inner with ((⟨low, high⟩ | ⟨low, high⟩) | ⟨low, high⟩) | rfl
  · exact isBlank_of_ascii (Nat.le_trans (by decide) low) (Nat.le_trans high (by decide))
  · exact isBlank_of_ascii (Nat.le_trans (by decide) low) (Nat.le_trans high (by decide))
  · exact isBlank_of_ascii (Nat.le_trans (by decide) low) (Nat.le_trans high (by decide))
  · decide

namespace Span

/-- No blank is among the first characters. -/
def Solid (cs : List Char) (n : Nat) : Prop := ∀ c ∈ cs.take n, isBlank c = false

variable {c : Char} {cs : List Char} {m n : Nat}

/-- The first characters are there, and no blank is among them. -/
structure Fits (cs : List Char) (n : Nat) : Prop where
  within : n ≤ cs.length
  solid : Solid cs n

lemma fits_zero (cs : List Char) : Fits cs 0 := ⟨Nat.zero_le _, by simp [Solid]⟩

lemma Fits.cons (visible : isBlank c = false) (h : Fits cs n) : Fits (c :: cs) (1 + n) := by
  have within := h.within
  refine ⟨by rw [length_cons]; omega, ?_⟩
  rw [Solid, Nat.add_comm, take_succ_cons]
  exact forall_mem_cons.mpr ⟨visible, h.solid⟩

lemma Fits.add (h : Fits cs m) (h' : Fits (cs.drop m) n) : Fits cs (m + n) := by
  have within := h.within
  have within' := h'.within
  rw [length_drop] at within'
  refine ⟨by omega, fun c mem => ?_⟩
  rw [take_add] at mem
  rcases mem_append.mp mem with mem | mem
  · exact h.solid c mem
  · exact h'.solid c mem

/-- What is counted only in some cases. -/
lemma Fits.unless {q : Prop} [Decidable q] (h : Fits cs n) : Fits cs (if q then 0 else n) := by
  split
  · exact fits_zero cs
  · exact h

lemma fits_takeWhile {p : Char → Bool} (visible : ∀ c, p c → isBlank c = false)
    (cs : List Char) : Fits cs (cs.takeWhile p).length := by
  refine ⟨(takeWhile_sublist p).length_le, fun c mem => ?_⟩
  rw [← prefix_iff_eq_take.mp <| takeWhile_prefix p] at mem
  exact visible c (all_eq_true.mp all_takeWhile c mem)

lemma isBlank_of_isDigit (digit : c.isDigit) : isBlank c = false :=
  isBlank_of_isInner (by simp [isInner, Char.isAlphanum, digit])

lemma fits_digits (cs : List Char) : Fits cs (digitsLength cs) :=
  fits_takeWhile (fun _ => isBlank_of_isDigit) cs

lemma fits_name (cs : List Char) : Fits cs (nameLength cs) := by
  cases cs with
  | nil => exact fits_zero _
  | cons c cs =>
    rw [nameLength]
    split
    case isTrue start =>
      exact .cons (isBlank_of_isInner (isInner_of_isStart start))
        (fits_takeWhile (fun _ => isBlank_of_isInner) cs)
    case isFalse => exact fits_zero _

lemma fits_word (cs : List Char) : Fits cs (wordLength cs) := by
  have first : Fits cs (if cs.head? = some '@' then 1 else 0) := by
    split
    case isTrue head =>
      obtain ⟨rest, rfl⟩ := head?_eq_some_iff.mp head
      exact .cons (by decide) (fits_zero rest)
    case isFalse => exact fits_zero cs
  simp only [wordLength]
  generalize (if cs.head? = some '@' then 1 else 0) = lead at first ⊢
  refine Fits.unless ((first.add (fits_name _)).add ?_)
  split
  case h_1 rest same =>
    rw [same]
    refine Fits.unless ?_
    rw [show 2 + nameLength rest = 1 + (1 + nameLength rest) by omega]
    exact .cons (by decide) (.cons (by decide) (fits_name rest))
  case h_2 => exact fits_zero _

lemma fits_field (cs : List Char) : Fits cs (fieldLength cs) := by
  rw [fieldLength.eq_def]
  split
  case h_1 rest =>
    split
    · exact fits_zero _
    · exact .cons (by decide) (fits_digits rest)
  case h_2 => exact fits_zero cs

lemma fits_exponent (cs : List Char) : Fits cs (exponentLength cs) := by
  rw [exponentLength.eq_def]
  split
  case h_1 c rest =>
    split
    case isTrue mark =>
      have visible : isBlank c = false := by
        simp only [Bool.or_eq_true, decide_eq_true_eq] at mark
        rcases mark with rfl | rfl <;> decide
      refine Fits.unless ?_
      rw [Nat.add_assoc]
      refine .cons visible (Fits.add ?_ (fits_digits _))
      split
      case h_1 d rest =>
        split
        case isTrue sign =>
          simp only [Bool.or_eq_true, decide_eq_true_eq] at sign
          rcases sign with rfl | rfl <;> exact .cons (by decide) (fits_zero rest)
        case isFalse => exact fits_zero _
      case h_2 => exact fits_zero _
    case isFalse => exact fits_zero _
  case h_2 => exact fits_zero _

lemma fits_hex (cs : List Char) : Fits cs (hexLength cs) := by
  have hex : ∀ c, isHexDigit c → isBlank c = false := by
    intro c digit
    simp only [isHexDigit, Bool.or_eq_true, Bool.and_eq_true, decide_eq_true_eq] at digit
    rcases digit with (digit | ⟨low, high⟩) | ⟨low, high⟩
    · exact isBlank_of_isDigit digit
    all_goals exact isBlank_of_ascii (Nat.le_trans (by decide) low) (Nat.le_trans high (by decide))
  rw [hexLength.eq_def]
  split
  case h_1 mark rest =>
    dsimp only
    split
    case isTrue here =>
      simp only [Bool.and_eq_true, Bool.or_eq_true, decide_eq_true_eq] at here
      rw [show ∀ n, 2 + n = 1 + (1 + n) by intro n; omega]
      refine .cons (by decide) (.cons ?_ (fits_takeWhile hex rest))
      rcases here.1 with rfl | rfl <;> decide
    case isFalse => exact fits_zero _
  case h_2 => exact fits_zero cs

lemma fits_decimal (cs : List Char) : Fits cs (decimalLength cs) := by
  refine Fits.unless (Fits.add ((fits_digits cs).add ?_) (fits_exponent _))
  split
  case h_1 rest same =>
    rw [same]
    exact Fits.unless (.cons (by decide) (fits_digits rest))
  case h_2 => exact fits_zero _

lemma fits_unsigned (cs : List Char) : Fits cs (unsignedLength cs) := by
  rw [unsignedLength]
  split
  · exact fits_decimal cs
  · exact fits_hex cs

lemma fits_number (cs : List Char) : Fits cs (numberLength cs) := by
  rw [numberLength.eq_def]
  split
  case h_1 rest =>
    split
    · exact fits_zero _
    · exact .cons (by decide) (fits_unsigned rest)
  case h_2 => exact fits_unsigned cs

lemma fits_operator (cs : List Char) : Fits cs (operatorLength cs) := by
  have long : longOperators.all (fun operator => operator.toList.all (! isBlank ·)) := by
    decide +kernel
  have short : shortOperators.all (! isBlank ·) := by decide +kernel
  cases found : longOperators.find? (fun operator => operator.toList.isPrefixOf cs) with
  | some operator =>
    have here := find?_some found
    have front := isPrefixOf_iff_prefix.mp here
    simp only [operatorLength, found]
    rw [← String.length_toList]
    refine ⟨front.length_le, fun c mem => ?_⟩
    rw [← prefix_iff_eq_take.mp front] at mem
    have whole := all_eq_true.mp long operator (mem_of_find?_eq_some found)
    simpa using all_eq_true.mp whole c mem
  | none =>
    cases cs with
    | nil =>
      rw [operatorLength, found]
      exact fits_zero _
    | cons c rest =>
      simp only [operatorLength, found]
      split
      case isTrue mem =>
        have solid := all_eq_true.mp short c (contains_iff_mem.mp mem)
        exact .cons (by simpa using solid) (fits_zero rest)
      case isFalse => exact fits_zero _

lemma fits_plain (cs : List Char) : Fits cs (plainLength cs) := by
  rw [plainLength]
  cases found : find? _ _ with
  | none => exact fits_zero cs
  | some n =>
    have mem := mem_of_find?_eq_some found
    simp only [map_cons, map_nil, mem_cons, not_mem_nil, or_false] at mem
    rw [Option.getD_some]
    rcases mem with rfl | rfl | rfl | rfl
    · exact fits_word cs
    · exact fits_field cs
    · exact fits_number cs
    · exact fits_operator cs

lemma more_le {span : Span} (found : front? first c cs = some span) : span.more ≤ cs.length := by
  rcases front?_cases found with ⟨-, -, more⟩ | ⟨-, -, more⟩ | ⟨-, lead, body, -, whole, more⟩ |
    ⟨-, -, more⟩
  · exact Nat.le_of_eq more
  · exact more ▸ quotedLength_le c cs
  · have inside := regexLength_le false body
    have length := congrArg length whole
    simp only [length_cons, length_append] at length
    omega
  · have inside := (fits_plain (c :: cs)).within
    rw [length_cons] at inside
    omega

/-- A word that is no literal and starts with a slash is an operator. -/
lemma plain_slash (cs : List Char) :
    ('/' :: cs).take (plainLength ('/' :: cs)) ∈ [['/'], ['/', '=']] := by
  have word : wordLength ('/' :: cs) = 0 := by
    simp [wordLength, nameLength, isStart]
  have number : numberLength ('/' :: cs) = 0 := by
    simp [numberLength, unsignedLength, hexLength, decimalLength, digitsLength]
  have length : plainLength ('/' :: cs) = operatorLength ('/' :: cs) := by
    simp only [plainLength, map_cons, map_nil, word, number, fieldLength]
    by_cases operator : 0 < operatorLength ('/' :: cs) <;> simp [find?, operator]
    omega
  have long : ∀ operator ∈ longOperators, operator.toList.head? = some '/' → operator = "/=" := by
    decide
  have some_ : ∀ operator ∈ longOperators, operator.toList ≠ [] := by decide
  rw [length]
  cases found : longOperators.find? (fun operator => operator.toList.isPrefixOf ('/' :: cs)) with
  | some operator =>
    have here := find?_some found
    have front := isPrefixOf_iff_prefix.mp here
    have mem := mem_of_find?_eq_some found
    have slash : operator.toList.head? = some '/' := by
      cases text : operator.toList with
      | nil => exact absurd text (some_ operator mem)
      | cons c rest =>
        rw [text] at front
        rw [(cons_prefix_cons.mp front).1]
        rfl
    simp only [operatorLength, found]
    rw [← String.length_toList, ← prefix_iff_eq_take.mp front, long operator mem slash]
    decide
  | none =>
    simp only [operatorLength, found, if_pos (show shortOperators.contains '/' by decide)]
    simp

end Span

end AwkToPython
