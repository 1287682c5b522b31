import AwkToPython.Literal.Number
import AwkToPython.Literal.PythonString
import AwkToPython.Proofs.Python.Lex

/-!
# Literals as Python words

A number, the literal of a string and the index of a field are single words of
Python. A number of the source is written so that Python takes it: a decimal one
has no zeros in front.
-/
namespace AwkToPython.Python

variable {cs digits f rest w x : List Char} {c : Char}

open List Literal AwkToPython.Span

/-! ### Numbers -/

lemma digitsLength_append (all : cs.all Char.isDigit)
    (stop : ∀ c ∈ rest.head?, c.isDigit = false) : digitsLength (cs ++ rest) = cs.length := by
  rw [digitsLength, takeWhile_append all stop]

/-- The parts of a decimal number: its digits, a point with digits, an exponent. -/
structure Decimal (w f x : List Char) : Prop where
  whole : w.all Char.isDigit = true
  fraction : f = [] ∨ ∃ digits, f = '.' :: digits ∧ digits.all Char.isDigit = true ∧
    (w = [] → digits ≠ [])
  something : w ++ f ≠ []
  exponent : x = [] ∨ ∃ e sign digits, x = e :: (sign ++ digits) ∧ (e = 'e' ∨ e = 'E') ∧
    (sign = [] ∨ sign = ['-'] ∨ sign = ['+']) ∧ digits ≠ [] ∧ digits.all Char.isDigit = true

lemma isInner_of_isDigit (h : c.isDigit) : Name.isInner c := by
  simp [Name.isInner, Char.isAlphanum, h]

lemma Closes.isDigit (h : Closes rest) : ∀ c ∈ rest.head?, c.isDigit = false := by
  intro c hc
  have inner := (h c hc).1
  cases digit : c.isDigit with
  | false => rfl
  | true =>
    rw [isInner_of_isDigit digit] at inner
    cases inner

section Append

variable {w f x rest : List Char}

lemma exponentLength_append (h : Decimal w f x) (closes : Closes rest) :
    exponentLength (x ++ rest) = x.length := by
  rcases h.exponent with rfl | ⟨e, sign, digits, rfl, letter, signs, some, all⟩
  · cases rest with
    | nil => rfl
    | cons c rest =>
      have inner := (closes c rfl).1
      have lower : c ≠ 'e' := by
        rintro rfl
        cases inner
      have upper : c ≠ 'E' := by
        rintro rfl
        cases inner
      simp [exponentLength, lower, upper]
  · have letters : (decide (e = 'e') || decide (e = 'E')) := by simpa using letter
    have length := digitsLength_append all closes.isDigit
    obtain ⟨d, ds, rfl⟩ := exists_cons_of_ne_nil some
    have digit : d.isDigit := by
      simp only [all_cons, Bool.and_eq_true] at all
      exact all.1
    have minus : d ≠ '-' ∧ d ≠ '+' := by
      constructor <;> rintro rfl <;> cases digit
    simp only [cons_append] at length
    rcases signs with rfl | rfl | rfl
    · simp [exponentLength, letters, minus, length]
      omega
    all_goals
      simp [exponentLength, letters, length]
      omega

lemma Decimal.stop (h : Decimal w f x) (closes : Closes rest) :
    (∀ c ∈ (x ++ rest).head?, c.isDigit = false ∧ c ≠ '.') ∧
      ∀ c ∈ (f ++ (x ++ rest)).head?, c.isDigit = false ∧ c ≠ 'x' ∧ c ≠ 'X' := by
  have behind : ∀ c ∈ (x ++ rest).head?, c.isDigit = false ∧ c ≠ '.' ∧ c ≠ 'x' ∧ c ≠ 'X' := by
    intro c hc
    rcases h.exponent with rfl | ⟨e, sign, digits, rfl, letter, -⟩
    · have inner := (closes c hc).1
      refine ⟨closes.isDigit c hc, (closes c hc).2, ?_, ?_⟩ <;> rintro rfl <;> cases inner
    · cases hc
      rcases letter with rfl | rfl <;> decide
  refine ⟨fun c hc => ⟨(behind c hc).1, (behind c hc).2.1⟩, fun c hc => ?_⟩
  rcases h.fraction with rfl | ⟨digits, rfl, -⟩
  · exact ⟨(behind c hc).1, (behind c hc).2.2⟩
  · cases hc
    decide

lemma decimalLength_append (h : Decimal w f x) (closes : Closes rest) :
    decimalLength (w ++ (f ++ (x ++ rest))) = w.length + f.length + x.length := by
  obtain ⟨behind, stop⟩ := h.stop closes
  have whole := digitsLength_append h.whole fun c hc => (stop c hc).1
  have positive : w.length + f.length ≠ 0 := by
    have := h.something
    simpa using this
  have dropped : (w ++ (f ++ (x ++ rest))).drop (w.length + f.length) = x ++ rest := by
    rw [← length_append, ← append_assoc, drop_left]
  unfold decimalLength
  simp only [whole, drop_left]
  rcases h.fraction with rfl | ⟨digits, rfl, all, first⟩
  · split
    · rename_i same
      exact absurd rfl (behind '.' (by rw [nil_append] at same; rw [same]; rfl)).2
    · simp only [length_nil] at positive dropped
      simp only [if_neg positive, dropped, exponentLength_append h closes, length_nil]
  · have length := digitsLength_append all fun c hc => (behind c hc).1
    have some : (decide (w.length = 0) && decide (digits.length = 0)) = false := by
      cases w with
      | nil => simpa using first rfl
      | cons c w => simp
    have whole' : w.length + (1 + digits.length) = w.length + ('.' :: digits).length := by
      rw [length_cons, Nat.add_comm 1]
    simp only [cons_append, length, some, Bool.false_eq_true, if_false, whole', if_neg positive]
    rw [← cons_append, dropped, exponentLength_append h closes]

end Append

/-! The parts of a number, from the length that scanning gives it. -/

lemma all_of_digitsLength (h : digitsLength cs = cs.length) : cs.all Char.isDigit := by
  have whole : cs.takeWhile Char.isDigit = cs :=
    (takeWhile_sublist _).eq_of_length h
  rw [← whole]
  exact all_takeWhile

lemma exponent_of_length (h : exponentLength x = x.length) :
    x = [] ∨ ∃ e sign digits, x = e :: (sign ++ digits) ∧ (e = 'e' ∨ e = 'E') ∧
      (sign = [] ∨ sign = ['-'] ∨ sign = ['+']) ∧ digits ≠ [] ∧ digits.all Char.isDigit := by
  cases x with
  | nil => exact .inl rfl
  | cons e rest =>
    unfold exponentLength at h
    dsimp only at h
    split at h
    case isFalse => simp at h
    case isTrue letter =>
      -- the sign is taken off, and the digits are all that remains
      have shape : ∃ sign digits, rest = sign ++ digits ∧
          (sign = [] ∨ sign = ['-'] ∨ sign = ['+']) ∧
          (if digitsLength digits = 0 then 0 else 1 + sign.length + digitsLength digits) =
            (e :: rest).length := by
        cases rest with
        | nil => exact ⟨[], [], rfl, .inl rfl, h⟩
        | cons d more =>
          dsimp only at h
          split at h
          case isTrue found =>
            refine ⟨[d], more, rfl, .inr ?_, h⟩
            rcases (by simpa using found : d = '-' ∨ d = '+') with rfl | rfl
            · exact .inl rfl
            · exact .inr rfl
          case isFalse => exact ⟨[], d :: more, rfl, .inl rfl, h⟩
      obtain ⟨sign, digits, rfl, signs, length⟩ := shape
      split at length
      · simp at length
      · have all : digitsLength digits = digits.length := by
          simp only [length_cons, length_append] at length
          omega
        refine .inr ⟨e, sign, digits, rfl, by simpa using letter, signs, ?_,
          all_of_digitsLength all⟩
        rintro rfl
        simp_all

lemma exists_digits (cs : List Char) : ∃ w r, cs = w ++ r ∧ w.all Char.isDigit ∧
    digitsLength cs = w.length :=
  ⟨cs.takeWhile Char.isDigit, cs.dropWhile Char.isDigit, (takeWhile_append_dropWhile ..).symm,
    all_takeWhile, rfl⟩

lemma decimal_of_length (some : cs ≠ [])
    (h : decimalLength cs = cs.length) : ∃ w f x, cs = w ++ (f ++ x) ∧ Decimal w f x := by
  obtain ⟨w, r, rfl, digits, length⟩ := exists_digits cs
  unfold decimalLength at h
  simp only [length, drop_left] at h
  split at h
  case h_1 tail =>
    obtain ⟨f, x, rfl, digits', length'⟩ := exists_digits tail
    simp only [length'] at h
    split at h
    case isTrue none =>
      -- a lone point is no number
      have empty : w.length = 0 := by simp_all
      simp [empty] at h
    case isFalse some' =>
      have total : w.length + (1 + f.length) = (w ++ '.' :: f).length := by simp; omega
      have same : w ++ '.' :: (f ++ x) = (w ++ '.' :: f) ++ x := by simp
      have whole : ((w ++ '.' :: f) ++ x).length = (w ++ '.' :: f).length + x.length :=
        length_append
      rw [total, same, drop_left, if_neg (by simp), whole] at h
      refine ⟨w, '.' :: f, x, by simp, digits, .inr ⟨f, rfl, digits', ?_⟩, by simp,
        exponent_of_length (Nat.add_left_cancel h)⟩
      rintro rfl rfl
      exact some' rfl
  case h_2 =>
    rw [Nat.add_zero, drop_left, length_append] at h
    split at h
    case isTrue none =>
      rw [none, Nat.zero_add] at h
      rw [eq_nil_of_length_eq_zero none, eq_nil_of_length_eq_zero h.symm] at some
      exact absurd rfl some
    case isFalse some' =>
      refine ⟨w, [], r, rfl, digits, .inl rfl, ?_, exponent_of_length (by omega)⟩
      rintro empty
      rw [append_nil] at empty
      exact some' (by rw [empty]; rfl)

lemma spells_number (first : c.isDigit ∨ c = '.')
    (h : ∀ rest, Closes rest → Word.numberLength (c :: cs ++ rest) = cs.length + 1) :
    Spells (c :: cs) [.number (String.ofList (c :: cs))] := by
  have plain : Name.isStart c = false ∧ c ≠ '"' ∧ c ≠ ' ' ∧ Opens c := by
    rcases first with digit | rfl
    · refine ⟨?_, ?_, ?_, ?_⟩
      · cases start : Name.isStart c with
        | false => rfl
        | true =>
          rw [isDigit_of_isStart start] at digit
          cases digit
      · rintro rfl
        cases digit
      · rintro rfl
        cases digit
      · have none : ∀ c ∈ ['*', '/', '<', '>', '='], c.isDigit = false :=
          all_iff_forall_prop.mp (by decide)
        intro mem
        rw [none c mem] at digit
        cases digit
    · decide
  obtain ⟨start, quote, blank, opens⟩ := plain
  refine ⟨⟨c, cs, rfl, opens⟩, fun rest closes => ?_⟩
  have length := h rest closes
  have found : Word.front c (cs ++ rest) = (.number (String.ofList (c :: cs)), cs.length) := by
    rw [Word.front, start, if_neg Bool.false_ne_true, if_neg quote]
    simp only [cons_append] at length
    rw [length, if_pos (Nat.succ_pos _), Nat.add_sub_cancel]
    dsimp only
    rw [take_left]
  rw [cons_append, lex_front blank found, drop_left]
  rfl

lemma numberLength_decimal (h : Decimal w f x) (closes : Closes rest)
    (zeros : w = ['0'] ∨ w.head? ≠ some '0') :
    Word.numberLength (w ++ (f ++ (x ++ rest))) = w.length + f.length + x.length := by
  rw [← decimalLength_append h closes]
  obtain ⟨-, stop⟩ := h.stop closes
  rcases zeros with rfl | first
  · -- a zero on its own: no digit and no hexadecimal mark follows
    cases same : f ++ (x ++ rest) with
    | nil => rfl
    | cons c more =>
      obtain ⟨digit, lower, upper⟩ := stop c (by rw [same]; rfl)
      simp [Word.numberLength, hexLength, digit, lower, upper]
  · cases same : w ++ (f ++ (x ++ rest)) with
    | nil => rfl
    | cons c more =>
      have other : c ≠ '0' := by
        rintro rfl
        cases w with
        | cons d w =>
          cases same
          exact first rfl
        | nil =>
          rcases h.fraction with rfl | ⟨digits, rfl, -⟩
          · exact h.something rfl
          · cases same
      simp [Word.numberLength, hexLength, other]

lemma Decimal.first (h : Decimal w f x) (same : w ++ (f ++ x) = c :: cs) : c.isDigit ∨ c = '.' := by
  cases w with
  | cons d w =>
    cases same
    have := h.whole
    simp only [all_cons, Bool.and_eq_true] at this
    exact .inl this.1
  | nil =>
    rcases h.fraction with rfl | ⟨digits, rfl, -⟩
    · exact absurd rfl h.something
    · cases same
      exact .inr rfl

lemma Decimal.spells (h : Decimal w f x) (zeros : w = ['0'] ∨ w.head? ≠ some '0') :
    Spells (w ++ (f ++ x)) [.number (String.ofList (w ++ (f ++ x)))] := by
  have length : ∀ rest, Closes rest → Word.numberLength (w ++ (f ++ x) ++ rest) =
      (w ++ (f ++ x)).length := by
    intro rest closes
    simpa [Nat.add_assoc] using numberLength_decimal h closes zeros
  cases same : w ++ (f ++ x) with
  | nil => exact absurd (append_eq_nil_iff.mp same) (by have := h.something; simp_all)
  | cons c cs =>
    rw [same] at length
    exact spells_number (h.first same) length

/-- A number literal without its sign: scanning takes all of it. -/
def IsNumber (digits : List Char) : Prop :=
  digits ≠ [] ∧ unsignedLength digits = digits.length

lemma isFractionMark_of_isDigit (h : c.isDigit) : isFractionMark c = false := by
  have point : c ≠ '.' := by
    rintro rfl
    cases h
  have lower : c ≠ 'e' := by
    rintro rfl
    cases h
  have upper : c ≠ 'E' := by
    rintro rfl
    cases h
  simp [isFractionMark, point, lower, upper]

lemma Decimal.mark (h : Decimal w f x) : ∀ c ∈ (f ++ x).head?, isFractionMark c := by
  intro c hc
  rcases h.fraction with rfl | ⟨digits, rfl, -⟩
  · rcases h.exponent with rfl | ⟨e, sign, digits, rfl, letter, -⟩
    · cases hc
    · cases hc
      rcases letter with rfl | rfl <;> rfl
  · cases hc
    rfl

lemma Decimal.second {more : List Char} (h : Decimal w f x)
    (same : w ++ (f ++ x) = '0' :: m :: more) : m ≠ 'x' ∧ m ≠ 'X' := by
  obtain ⟨-, stop⟩ := h.stop closes_nil
  simp only [append_nil] at stop
  rcases w with _ | ⟨c, _ | ⟨d, w⟩⟩
  · obtain ⟨digit, -⟩ := stop '0' (by rw [nil_append] at same; rw [same]; rfl)
    cases digit
  · injection same with _ tail
    have front : f ++ x = m :: more := tail
    exact (stop m (by rw [front]; rfl)).2
  · injection same with _ tail
    injection tail with first _
    have digit : d.isDigit := all_eq_true.mp h.whole d (by simp)
    rw [first] at digit
    constructor <;> rintro rfl <;> cases digit

/-- Digits before a mark lose their zeros, unless they begin a hexadecimal number. -/
lemma unsignedNumber_append (digits : w.all Char.isDigit)
    (marks : ∀ c ∈ rest.head?, isFractionMark c) :
    (∃ m more, w ++ rest = '0' :: m :: more ∧ (m = 'x' ∨ m = 'X')) ∧
      unsignedNumber (w ++ rest) = w ++ rest ∨
    unsignedNumber (w ++ rest) = trimZeros w ++ rest := by
  have whole : w.all fun c => !isFractionMark c := all_eq_true.mpr fun c mem => by
    rw [isFractionMark_of_isDigit (all_eq_true.mp digits c mem)]
    rfl
  have stop : ∀ c ∈ rest.head?, (!isFractionMark c) = false := fun c mem => by
    rw [marks c mem]
    rfl
  unfold unsignedNumber
  split
  · exact .inl ⟨⟨_, _, ‹_›, .inl rfl⟩, rfl⟩
  · exact .inl ⟨⟨_, _, ‹_›, .inr rfl⟩, rfl⟩
  · rw [takeWhile_append whole stop, dropWhile_append whole stop]
    exact .inr rfl

lemma Decimal.unsignedNumber (h : Decimal w f x) :
    Literal.unsignedNumber (w ++ (f ++ x)) = Literal.trimZeros w ++ (f ++ x) := by
  refine (unsignedNumber_append h.whole h.mark).resolve_left ?_
  rintro ⟨⟨m, more, same, hex⟩, -⟩
  exact not_or.mpr (h.second same) hex

lemma trimZeros_cases (w : List Char) : (trimZeros w = ['0'] ∨
    (trimZeros w).head? ≠ some '0') ∧ (trimZeros w = [] ↔ w = []) ∧ ∀ c ∈ trimZeros w, c ∈ w := by
  unfold trimZeros
  split
  case h_1 none =>
    cases w with
    | nil => simp
    | cons c w =>
      have zero : c = '0' := by
        by_cases same : c = '0'
        · exact same
        · simp [same] at none
      simp [zero]
  case h_2 rest some =>
    have suffix := dropWhile_suffix (l := w) (· = '0')
    refine ⟨.inr fun first => ?_, ?_, fun c hc => suffix.mem hc⟩
    · have := head?_dropWhile_not (p := (· = '0')) (l := w)
      rw [first] at this
      simp at this
    · refine ⟨fun none => absurd none some, ?_⟩
      rintro rfl
      rfl

lemma Decimal.trimZeros (h : Decimal w f x) : Decimal (trimZeros w) f x := by
  obtain ⟨-, empty, sub⟩ := trimZeros_cases w
  refine ⟨all_eq_true.mpr fun c hc => all_eq_true.mp h.whole c (sub c hc), ?_, ?_, h.exponent⟩
  · rcases h.fraction with rfl | ⟨digits, rfl, all, first⟩
    · exact .inl rfl
    · exact .inr ⟨digits, rfl, all, fun none => first (empty.mp none)⟩
  · intro none
    rw [append_eq_nil_iff, empty] at none
    exact h.something (append_eq_nil_iff.mpr none)

lemma isInner_of_isHexDigit (h : isHexDigit c) : Name.isInner c := by
  simp only [isHexDigit, Bool.or_eq_true, Bool.and_eq_true, decide_eq_true_eq, Char.le_def,
    UInt32.le_iff_toNat_le] at h
  rcases h with (digit | lower) | upper
  · exact isInner_of_isDigit digit
  all_goals delta Name.isInner Char.isAlphanum Char.isAlpha Char.isUpper Char.isLower
  · simp [UInt32.le_iff_toNat_le] at lower ⊢
    omega
  · simp [UInt32.le_iff_toNat_le] at upper ⊢
    omega

lemma hex_of_length (hex : hexLength cs ≠ 0)
    (h : hexLength cs = cs.length) : ∃ mark hs, cs = '0' :: mark :: hs ∧
      (mark = 'x' ∨ mark = 'X') ∧ hs ≠ [] ∧ hs.all isHexDigit := by
  unfold hexLength at h
  split at h
  case h_2 =>
    rw [eq_nil_of_length_eq_zero h.symm] at hex
    exact absurd rfl hex
  case h_1 mark hs =>
    dsimp only at h
    split at h
    case isFalse => simp at h
    case isTrue found =>
      have whole : hs.takeWhile isHexDigit = hs :=
        (takeWhile_sublist _).eq_of_length (by simp only [length_cons] at h; omega)
      rw [Bool.and_eq_true, Bool.or_eq_true, decide_eq_true_eq, decide_eq_true_eq,
        decide_eq_true_eq, whole] at found
      exact ⟨mark, hs, rfl, found.1, ne_nil_of_length_pos found.2, whole ▸ all_takeWhile⟩

lemma numberLength_hex (marks : mark = 'x' ∨ mark = 'X')
    (some : hs ≠ []) (all : hs.all isHexDigit) (closes : Closes rest) :
    Word.numberLength ('0' :: mark :: hs ++ rest) = (mark :: hs).length + 1 := by
  have stop : ∀ c ∈ rest.head?, isHexDigit c = false := by
    intro c hc
    have inner := (closes c hc).1
    cases digit : isHexDigit c with
    | false => rfl
    | true =>
      rw [isInner_of_isHexDigit digit] at inner
      cases inner
  have length : hexLength ('0' :: mark :: (hs ++ rest)) = 2 + hs.length := by
    have positive : 0 < hs.length := length_pos_iff.mpr some
    simp [hexLength, takeWhile_append all stop, marks, positive]
  simp only [cons_append, Word.numberLength, length]
  rw [if_pos (by omega), length_cons]
  omega

lemma IsNumber.spells (h : IsNumber digits) : Spells (unsignedNumber digits)
      [.number (String.ofList (unsignedNumber digits))] := by
  obtain ⟨some, length⟩ := h
  rw [unsignedLength] at length
  split at length
  case isTrue =>
    obtain ⟨w, f, x, rfl, decimal⟩ := decimal_of_length some length
    rw [decimal.unsignedNumber]
    exact decimal.trimZeros.spells (trimZeros_cases w).1
  case isFalse hex =>
    obtain ⟨mark, hs, rfl, marks, positive, all⟩ := hex_of_length hex length
    have kept : unsignedNumber ('0' :: mark :: hs) = '0' :: mark :: hs := by
      rcases marks with rfl | rfl <;> rfl
    rw [kept]
    exact spells_number (.inl rfl) fun rest closes => numberLength_hex marks positive all closes

lemma Decimal.head_ne_minus (h : Decimal w f x) : (w ++ (f ++ x)).head? ≠ some '-' := by
  cases same : w ++ (f ++ x) with
  | nil => nofun
  | cons c cs =>
    rintro ⟨⟩
    rcases h.first same with digit | point
    · cases digit
    · cases point

lemma IsNumber.head_ne_minus (h : IsNumber digits) :
    digits.head? ≠ some '-' ∧ (unsignedNumber digits).head? ≠ some '-' := by
  obtain ⟨some, length⟩ := h
  rw [unsignedLength] at length
  split at length
  case isTrue =>
    obtain ⟨w, f, x, rfl, decimal⟩ := decimal_of_length some length
    rw [decimal.unsignedNumber]
    exact ⟨decimal.head_ne_minus, decimal.trimZeros.head_ne_minus⟩
  case isFalse hex =>
    obtain ⟨mark, hs, rfl, marks, -⟩ := hex_of_length hex length
    have kept : unsignedNumber ('0' :: mark :: hs) = '0' :: mark :: hs := by
      rcases marks with rfl | rfl <;> rfl
    rw [kept]
    exact ⟨by simp, by simp⟩

lemma IsNumber.python (h : IsNumber digits) :
    number (String.ofList digits) = String.ofList (unsignedNumber digits) := by
  have unsigned := h.head_ne_minus.1
  cases digits with
  | nil => exact absurd rfl h.1
  | cons c cs =>
    rw [number, String.toList_ofList]
    split
    · simp_all
    · rfl

/-- Without the sign the text of a folded literal is that of its digits. -/
lemma IsNumber.unfolded (h : IsNumber digits) :
    ((number (String.ofList ('-' :: digits))).toList.dropWhile (· = '-')) =
      unsignedNumber digits := by
  have unsigned := h.head_ne_minus.2
  rw [number, String.toList_ofList]
  simp only [String.toList_ofList]
  cases same : unsignedNumber digits with
  | nil => simp
  | cons c cs =>
    rw [same] at unsigned
    have plain : c ≠ '-' := by simpa using unsigned
    simp [plain]

/-! ### Strings -/

lemma stringLength?_plain (rest : List Char) (quote : c ≠ '"') (line : c ≠ '\n')
    (slash : c ≠ '\\') :
    Word.stringLength? (c :: rest) = (Word.stringLength? rest).map (· + 1) := by
  rw [Word.stringLength?.eq_def]
  split
  · rename_i same
    cases same
  · rename_i same
    cases same
    exact absurd rfl quote
  · rename_i same
    cases same
    exact absurd rfl line
  · rename_i same
    cases same
    exact absurd rfl slash
  · rename_i same
    cases same
    rfl

lemma stringLength?_escape (c : Char) (rest : List Char) :
    Word.stringLength? ('\\' :: c :: rest) = (Word.stringLength? rest).map (· + 2) := by
  simp [Word.stringLength?]

lemma stringLength?_quotedChar (c : Char) (rest : List Char) :
    Word.stringLength? (quotedChar c ++ rest) =
      (Word.stringLength? rest).map (· + (quotedChar c).length) := by
  have hex : ∀ n < 16, Nat.digitChar n ≠ '"' ∧ Nat.digitChar n ≠ '\n' ∧ Nat.digitChar n ≠ '\\' := by
    decide
  unfold quotedChar
  split
  · exact stringLength?_escape _ _
  · exact stringLength?_escape _ _
  · exact stringLength?_escape _ _
  · exact stringLength?_escape _ _
  · exact stringLength?_escape _ _
  case h_6 slash quote line tab feed =>
    split
    case isTrue control =>
      have small : c.toNat < 128 := by
        rw [Bool.or_eq_true, decide_eq_true_eq, decide_eq_true_eq] at control
        omega
      obtain ⟨q1, n1, s1⟩ := hex (c.toNat / 16) (by omega)
      obtain ⟨q2, n2, s2⟩ := hex (c.toNat % 16) (by omega)
      simp only [cons_append, hexPair, nil_append]
      rw [stringLength?_escape, stringLength?_plain _ q1 n1 s1, stringLength?_plain _ q2 n2 s2,
        Option.map_map, Option.map_map]
      rfl
    case isFalse => exact stringLength?_plain rest quote line slash

lemma stringLength?_quoted (cs rest : List Char) :
    Word.stringLength? (cs.flatMap quotedChar ++ '"' :: rest) =
      some ((cs.flatMap quotedChar).length + 1) := by
  induction cs with
  | nil => simp [Word.stringLength?]
  | cons c cs ih =>
    rw [flatMap_cons, append_assoc, stringLength?_quotedChar, ih]
    simp
    omega

lemma spells_string (value : String) : Spells (python value).toList [.string (python value)] := by
  have chars : (python value).toList =
      '"' :: (value.toList.flatMap quotedChar ++ ['"']) := by
    simp [python]
  rw [chars]
  refine ⟨⟨'"', _, rfl, by decide⟩, fun rest closes => ?_⟩
  let body := value.toList.flatMap quotedChar ++ ['"']
  have length : Word.stringLength? (body ++ rest) = some body.length := by
    have := stringLength?_quoted value.toList rest
    simpa [body] using this
  have found : Word.front '"' (body ++ rest) = (.string (python value), body.length) := by
    rw [Word.front, if_neg (by decide), if_pos rfl, length]
    dsimp only
    rw [take_left, ← chars, String.ofList_toList]
  rw [cons_append, lex_front (by decide) found, drop_left]
  rfl

/-! ### Fields -/

lemma toDigits_head (positive : 0 < n) : (Nat.toDigits 10 n).head? ≠ some '0' := by
  induction n using Nat.strongRecOn with
  | ind n ih =>
    by_cases small : n < 10
    · have all : ∀ m < 10, 0 < m → m.digitChar ≠ '0' := by decide
      rw [Nat.toDigits_of_lt_base small]
      simpa using all n small positive
    · have front := ih (n / 10) (by omega) (by omega)
      rw [Nat.toDigits_of_base_le (by decide) (by omega)]
      cases same : Nat.toDigits 10 (n / 10) with
      | nil => exact absurd same Nat.toDigits_ne_nil
      | cons c more =>
        rw [same] at front
        exact front

lemma decimal_toDigits (n : Nat) : Decimal (Nat.toDigits 10 n) [] [] := by
  refine ⟨all_eq_true.mpr fun c hc => Nat.isDigit_of_mem_toDigits (by decide) (by decide) hc,
    .inl rfl, ?_, .inl rfl⟩
  rw [append_nil]
  exact Nat.toDigits_ne_nil

lemma spells_field (n : Nat) : Spells s!"self._FLDS[{n}]".toList
    [.name "self", .mark ".", .name "_FLDS", .mark "[", .number (toString n), .mark "]"] := by
  have zeros : Nat.toDigits 10 n = ['0'] ∨ (Nat.toDigits 10 n).head? ≠ some '0' := by
    cases n with
    | zero => exact .inl rfl
    | succ n => exact .inr (toDigits_head (Nat.succ_pos n))
  have index := (decimal_toDigits n).spells zeros
  have owner : Spells ("self".toList ++ '.' :: "_FLDS".toList) _ :=
    Spells.member (by decide) (by decide)
  have whole := owner.subscript index
  have chars : s!"self._FLDS[{n}]".toList = "self".toList ++ '.' :: "_FLDS".toList ++
      '[' :: (Nat.toDigits 10 n ++ ([] ++ [])) ++ [']'] := by
    simp [toString]
  have text : String.ofList (Nat.toDigits 10 n ++ ([] ++ [])) = toString n := by
    simpa using Nat.repr_eq_ofList_toDigits.symm
  rw [chars]
  rw [text] at whole
  exact whole

/-! ### Numbered names -/

/-- No keyword has an underscore, so a number after one makes a name. -/
lemma isName_numbered (stem : String) (word : Name.isIdentifierChars stem.toList)
    (line : '_' ∈ stem.toList) (n : Nat) : IsName (stem ++ toString n) := by
  have digits : (toString n).toList = Nat.toDigits 10 n := by
    simp [toString]
  have chars : (stem ++ toString n).toList = stem.toList ++ Nat.toDigits 10 n := by
    rw [String.toList_append, digits]
  have keywords : ∀ k ∈ Word.keywordMarks ++ Word.otherKeywords, '_' ∉ k.toList := by decide
  have free : stem ++ toString n ∉ Word.keywordMarks ++ Word.otherKeywords := fun mem =>
    keywords _ mem (by rw [chars]; exact mem_append_left _ line)
  rw [mem_append, not_or] at free
  constructor
  · rw [chars]
    cases same : stem.toList with
    | nil => simp [same] at line
    | cons c cs =>
      rw [same, Name.isIdentifierChars, Bool.and_eq_true] at word
      rw [cons_append, Name.isIdentifierChars, word.1, all_append, word.2,
        all_eq_true.mpr fun d mem => isInner_of_isDigit
          (Nat.isDigit_of_mem_toDigits (by decide) (by decide) mem)]
      rfl
  · rw [Word.ofName, if_neg (by simpa using free.1), if_neg (by simpa using free.2)]

lemma numbered_inj (stem : String) {m n : Nat} (h : stem ++ toString m = stem ++ toString n) :
    m = n := by
  have digits : m.repr = n.repr := (String.append_right_inj stem).mp h
  rw [Nat.repr_eq_ofList_toDigits, Nat.repr_eq_ofList_toDigits, String.ofList_inj] at digits
  rw [← Nat.ofDigitChars_ten_toDigits (n := m), digits, Nat.ofDigitChars_ten_toDigits]

end AwkToPython.Python
