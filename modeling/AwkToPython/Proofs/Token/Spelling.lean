import AwkToPython.Proofs.Python.Block
import AwkToPython.Proofs.Python.Literal
import AwkToPython.Proofs.Python.Opener
import AwkToPython.Token.Reading
import Mathlib.Data.List.Basic
import Mathlib.Data.Bool.AllAny

/-!
# How scanned words are spelled

Scanning gives comments that begin like comments, and a word that reads as a
number is the whole of a number literal. So its Python text begins with a digit,
a point or a minus sign.
-/
namespace AwkToPython

open List Text Literal Reading

open Python (IsComment IsPlain plainStart)

variable {cs : List Char} {c : Char}

/-- A start of a number in Python. -/
def Literal.startsNumeral : List Char → Bool
  | c :: _ => c.isDigit || c = '.' || c = '-'
  | [] => false

/-- A comment begins like one, and a number is one in Python. -/
def Lexeme.IsSpelled : Lexeme → Prop
  | .comment text .. => IsComment text
  | .word text .. => startsNumber text.toList = true →
    startsNumeral (number text).toList = true
  | _ => True

namespace Literal

lemma startsNumeral_cases (h : startsNumeral cs) :
    ∃ c rest, cs = c :: rest ∧ (c.isDigit ∨ c = '.' ∨ c = '-') := by
  cases cs with
  | nil => cases h
  | cons c rest => exact ⟨c, rest, rfl, by simpa [startsNumeral, or_assoc] using h⟩

lemma isPlain_of_startsNumeral (h : startsNumeral text.toList) : IsPlain text := by
  obtain ⟨c, rest, same, first⟩ := startsNumeral_cases h
  rw [IsPlain, same]
  refine Python.plainStart_cons ?_
  rcases first with digit | rfl | rfl
  · have other : ∀ d, d.isDigit = false → c ≠ d := by
      rintro d not_digit rfl
      rw [digit] at not_digit
      cases not_digit
    simp [plainStart, Python.openers, other ' ' (by decide), other '#' (by decide),
      (other 'd' (by decide)).symm, (other 'c' (by decide)).symm, (other 'i' (by decide)).symm,
      (other 'e' (by decide)).symm, (other 'w' (by decide)).symm, (other 'f' (by decide)).symm,
      (other 't' (by decide)).symm]
  · decide
  · decide

lemma head_ne_of_startsNumeral {text : String} (h : startsNumeral text.toList) :
    ∃ c, text.toList.head? = some c ∧ c ≠ '_' ∧ c ≠ '"' := by
  obtain ⟨c, rest, same, first⟩ := startsNumeral_cases h
  refine ⟨c, by rw [same, head?_cons], ?_, ?_⟩
  all_goals
    rintro rfl
    revert first
    decide

end Literal

namespace Span

open Literal (startsNumeral)

/-! ### Numbers -/

/-- What follows the digits of a number is a point, an exponent or nothing. -/
lemma decimalLength_tail (cs : List Char) :
    ∃ tail, cs.take (decimalLength cs) = cs.takeWhile Char.isDigit ++ tail ∧
      ∀ c ∈ tail.head?, isFractionMark c := by
  obtain ⟨w, r, rfl, -, length⟩ := Python.exists_digits cs
  have whole : (w ++ r).takeWhile Char.isDigit = w := by
    rw [prefix_iff_eq_take.mp <| takeWhile_prefix Char.isDigit]
    change (w ++ r).take (digitsLength (w ++ r)) = w
    rw [length, take_left]
  rw [whole]
  have exponent : ∀ c ∈ (r.take (exponentLength r)).head?, isFractionMark c := by
    intro c mem
    cases r with
    | nil => simp at mem
    | cons d rest =>
      by_cases letter : d = 'e' ∨ d = 'E'
      · have : c = d := by
          simp only [head?_take] at mem
          split at mem
          · cases mem
          · simpa using mem.symm
        rcases letter with rfl | rfl <;> rw [this] <;> rfl
      · simp [exponentLength, letter] at mem
  unfold decimalLength
  simp only [length, drop_left]
  split
  case h_1 rest =>
    split
    case isTrue none =>
      have empty : w = [] := by simp_all
      exact ⟨[], by simp [empty], by simp⟩
    case isFalse =>
      rw [if_neg (show ¬w.length + (1 + digitsLength _) = 0 by omega)]
      generalize exponentLength _ = x
      refine ⟨('.' :: rest).take (digitsLength rest + x + 1), ?_, fun c mem => ?_⟩
      · rw [show w.length + (1 + digitsLength rest) + x = w.length + (digitsLength rest + x + 1) by
          omega, take_length_add_append]
      · rw [take_succ_cons, head?_cons] at mem
        cases mem
        rfl
  case h_2 =>
    split
    case isTrue none => exact ⟨[], by simp_all, by simp⟩
    case isFalse =>
      refine ⟨r.take (exponentLength r), ?_, exponent⟩
      rw [Nat.add_zero, drop_left, take_length_add_append]

lemma startsNumeral_number {tail : List Char} (digits : w.all Char.isDigit)
    (marks : ∀ c ∈ tail.head?, isFractionMark c) (kept : startsNumeral (w ++ tail)) :
    startsNumeral (unsignedNumber (w ++ tail)) := by
  obtain ⟨-, empty, sub⟩ := Python.trimZeros_cases w
  rcases Python.unsignedNumber_append digits marks with ⟨-, same⟩ | same <;> rw [same]
  · exact kept
  · cases trimmed : trimZeros w with
    | nil => rwa [empty.mp trimmed] at kept
    | cons d rest =>
      have digit := all_eq_true.mp digits d (sub d (by rw [trimmed]; exact mem_cons_self))
      simp [startsNumeral, digit]

lemma startsNumeral_hex (hex : hexLength cs ≠ 0) (kept : startsNumeral (cs.take (hexLength cs))) :
    startsNumeral (unsignedNumber (cs.take (hexLength cs))) := by
  have same : unsignedNumber (cs.take (hexLength cs)) = cs.take (hexLength cs) := by
    unfold hexLength at hex ⊢
    split at hex
    case h_2 => exact absurd rfl hex
    case h_1 mark rest =>
      dsimp only at hex ⊢
      split at hex
      case isFalse => exact absurd rfl hex
      case isTrue marks =>
        rw [if_pos marks, Nat.add_comm, take_succ_cons, take_succ_cons]
        simp only [Bool.and_eq_true, Bool.or_eq_true, decide_eq_true_eq] at marks
        rcases marks.1 with rfl | rfl <;> rfl
  rwa [same]

/-- A number without a sign begins with a digit or a point, in Python too. -/
lemma startsNumeral_unsigned (first : c.isDigit ∨ c = '.') (some : 0 < unsignedLength (c :: cs)) :
    startsNumeral (unsignedNumber ((c :: cs).take (unsignedLength (c :: cs)))) := by
  -- a text that is kept begins as it did
  have kept : startsNumeral ((c :: cs).take (unsignedLength (c :: cs))) := by
    obtain ⟨n, same⟩ := Nat.exists_eq_succ_of_ne_zero (Nat.ne_of_gt some)
    rw [same, take_succ_cons]
    rcases first with digit | rfl
    · simp [startsNumeral, digit]
    · rfl
  by_cases hex : hexLength (c :: cs) = 0
  · rw [unsignedLength, if_pos hex] at kept ⊢
    obtain ⟨tail, same, marks⟩ := decimalLength_tail (c :: cs)
    rw [same] at kept ⊢
    have digits := all_takeWhile (p := Char.isDigit) (l := c :: cs)
    generalize (c :: cs).takeWhile Char.isDigit = w at same kept digits ⊢
    exact startsNumeral_number digits marks kept
  · rw [unsignedLength, if_neg hex] at kept ⊢
    exact startsNumeral_hex hex kept

/-! ### Words -/

lemma startsNumber_cases (h : startsNumber (c :: cs)) : c.isDigit ∨ c = '.' ∨
      c = '-' ∧ ((cs.head?.getD ' ').isDigit ∨ cs.head?.getD ' ' = '.') := by
  simp only [startsNumber, Bool.or_eq_true, Bool.and_eq_true, decide_eq_true_eq] at h
  tauto

lemma ledRegexLength_parts (led : 0 < ledRegexLength cs) :
    ∃ lead ∈ regexLeads, ∃ blanks body, blanks.all isBlank ∧
      lead.toList ++ (blanks ++ '/' :: body) = cs ∧
      ledRegexLength cs = lead.toList.length + blanks.length + 1 + regexLength false body := by
  rw [ledRegexLength] at led ⊢
  cases found : regexLeads.findSome? _ with
  | none =>
    rw [found] at led
    cases led
  | some n =>
    obtain ⟨lead, mem, here⟩ := exists_of_findSome?_eq_some found
    cases front : lead.toList.isPrefixOf? cs with
    | none => simp [front] at here
    | some rest =>
      simp only [front] at here
      split at here
      case h_1 body slash =>
        cases here
        have whole : lead.toList ++ rest = cs := isPrefixOf?_eq_some_iff_append_eq.mp front
        have blanks : rest.takeWhile isBlank ++ '/' :: body = rest := by
          rw [← slash]
          exact takeWhile_append_dropWhile
        refine ⟨lead, mem, rest.takeWhile isBlank, body, all_takeWhile, by rw [blanks, whole], ?_⟩
        have length := congrArg length blanks
        simp only [length_append, length_cons] at length
        rw [Option.getD_some, ← whole, length_append]
        omega
      case h_2 => cases here

/-- No operator before a regex, nor a part of it, reads as a number. -/
lemma startsNumber_lead {word : List Char} (led : 0 < ledRegexLength cs)
    (within : word <+: cs) : startsNumber word = false := by
  have leads : ∀ lead ∈ regexLeads, lead.toList.head?.any (fun d => d.isDigit = false ∧ d ≠ '.' ∧
      (d = '-' → lead.toList[1]? = some '=')) := by decide
  obtain ⟨lead, mem, blanks, body, -, same, -⟩ := ledRegexLength_parts led
  obtain ⟨d, first, kind⟩ := (Option.any_eq_true _ _).mp (leads lead mem)
  obtain ⟨digit, point, minus⟩ := of_decide_eq_true kind
  obtain ⟨more, spelled⟩ := head?_eq_some_iff.mp first
  rw [spelled] at same minus
  rw [← same] at within
  cases word with
  | nil => rfl
  | cons a word =>
    obtain ⟨rfl, behind⟩ := cons_prefix_cons.mp within
    by_contra number
    rcases startsNumber_cases (by simpa using number) with h | h | ⟨h, next⟩
    · rw [h] at digit
      cases digit
    · exact point h
    · -- the only such operator has an equals sign behind the minus sign
      obtain ⟨more, rfl⟩ : ∃ rest, more = '=' :: rest :=
        head?_eq_some_iff.mp (by rw [head?_eq_getElem?]; simpa using minus h)
      cases word with
      | nil => rcases next with next | next <;> cases next
      | cons b word =>
        obtain ⟨rfl, -⟩ := cons_prefix_cons.mp behind
        rcases next with next | next <;> cases next

/-- A text that starts with a digit or a point is read as a number or not at all. -/
lemma plainLength_number (cs : List Char) (first : c.isDigit ∨ c = '.') :
    plainLength (c :: cs) = unsignedLength (c :: cs) := by
  have other : ∀ d, d.isDigit = false → d ≠ '.' → c ≠ d := by
    rintro d digit point rfl
    rcases first with first | first
    · rw [first] at digit
      cases digit
    · exact point first
  have start : Name.isStart c = false := by
    rcases first with digit | rfl
    · simp only [Char.isDigit, Bool.and_eq_true, decide_eq_true_eq, ge_iff_le,
        UInt32.le_iff_toNat_le] at digit
      rw [Name.isStart]
      delta Char.isAlpha Char.isUpper Char.isLower
      simp only [other '_' (by decide) (by decide), decide_false, Bool.or_false,
        Bool.or_eq_false_iff, Bool.and_eq_false_iff, decide_eq_false_iff_not, ge_iff_le,
        UInt32.le_iff_toNat_le]
      exact ⟨fun upper => absurd (Nat.le_trans upper.1 digit.2) (by decide),
        .inl fun lower => absurd (Nat.le_trans lower digit.2) (by decide)⟩
    · rfl
  have word : wordLength (c :: cs) = 0 := by
    simp [wordLength, nameLength, start, other '@' (by decide) (by decide)]
  have field : fieldLength (c :: cs) = 0 := by
    unfold fieldLength
    split
    case h_1 same =>
      injection same with same
      exact absurd same (other '$' (by decide) (by decide))
    case h_2 => rfl
  have number : numberLength (c :: cs) = unsignedLength (c :: cs) := by
    unfold numberLength
    split
    case h_1 same =>
      injection same with same
      exact absurd same (other '-' (by decide) (by decide))
    case h_2 => rfl
  have operator : operatorLength (c :: cs) = 0 := by
    have longs : ∀ op ∈ longOperators,
        op.toList.head?.any (fun d => d.isDigit = false ∧ d ≠ '.') := by decide
    have shorts : ∀ d ∈ shortOperators, d.isDigit = false ∧ d ≠ '.' :=
      all_iff_forall_prop.mp (by decide)
    have long : longOperators.find? (fun op => op.toList.isPrefixOf (c :: cs)) = none := by
      refine find?_eq_none.mpr fun op mem front => ?_
      obtain ⟨d, head, kind⟩ := (Option.any_eq_true _ _).mp (longs op mem)
      obtain ⟨digit, point⟩ := of_decide_eq_true kind
      obtain ⟨more, spelled⟩ := head?_eq_some_iff.mp head
      rw [spelled, isPrefixOf_iff_prefix, cons_prefix_cons] at front
      exact other d digit point front.1.symm
    have short : c ∉ shortOperators := fun mem => other c (shorts c mem).1 (shorts c mem).2 rfl
    simp [operatorLength, long, short]
  simp only [plainLength, map_cons, word, field, number, operator]
  cases unsignedLength (c :: cs) <;> rfl

/-- A word that is neither a literal nor a comment and starts like a number is one. -/
lemma startsNumeral_literal (some : 0 < plainLength (c :: cs))
    (number : Reading.startsNumber ((c :: cs).take (plainLength (c :: cs)))) :
    startsNumeral (Literal.number
      (String.ofList ((c :: cs).take (plainLength (c :: cs))))).toList := by
  obtain ⟨n, same⟩ := Nat.exists_eq_succ_of_ne_zero (Nat.ne_of_gt some)
  have unsigned : c.isDigit ∨ c = '.' →
      startsNumeral (Literal.number
        (String.ofList ((c :: cs).take (plainLength (c :: cs))))).toList := by
    intro first
    have plain := startsNumeral_unsigned first (plainLength_number cs first ▸ some)
    rw [← plainLength_number cs first] at plain
    rw [Literal.number, String.toList_ofList]
    split
    case h_1 digits front =>
      rw [same, List.take_succ_cons] at front
      injection front with front
      rcases first with first | first
      all_goals
        rw [front] at first
        cases first
    case h_2 => rwa [String.toList_ofList]
  rw [same, List.take_succ_cons] at number
  rcases startsNumber_cases number with digit | point | ⟨rfl, -⟩
  · exact unsigned (.inl digit)
  · exact unsigned (.inr point)
  · rw [same, List.take_succ_cons, Literal.number, String.toList_ofList]
    change startsNumeral (String.ofList ('-' :: _)).toList
    rw [String.toList_ofList]
    rfl

end Span

namespace Lexeme

open AwkToPython.Span

lemma trim_begins (blank : isBlank c = false) : trim (c :: cs) <+: c :: cs := by
  have start : trimStart (c :: cs) = c :: cs := by
    rw [trimStart, dropWhile_cons, if_neg (by simp [blank])]
  rw [trim, start, trimEnd, ← reverse_suffix, reverse_reverse]
  exact dropWhile_suffix _

lemma mem_words {number pos : Nat} {spaced : Bool} {lead literal : List Char}
    (mem : l ∈ words number pos spaced lead literal) : ∃ text place spaced',
      l = .word (String.ofList text) place spaced' ∧ (text = literal ∨ text = trim lead) := by
  simp only [words] at mem
  split at mem
  · rw [mem_singleton.mp mem]
    exact ⟨_, _, _, rfl, .inl rfl⟩
  · rcases mem_cons.mp mem with rfl | mem
    · exact ⟨_, _, _, rfl, .inr rfl⟩
    · rw [mem_singleton.mp mem]
      exact ⟨_, _, _, rfl, .inl rfl⟩

lemma startsNumber_literal (rest : List Char) (h : c = '"' ∨ c = '\'' ∨ c = '/') :
    startsNumber (c :: rest) = false := by
  rcases h with rfl | rfl | rfl <;> simp [startsNumber]

lemma startsNumber_regex {text : List Char} {more : Nat} (blank : isBlank c = false)
    (leads : (∀ p, p <+: c :: cs → startsNumber p = false) ∨ c = '/')
    (one : text = (splitLead .regex (c :: cs.take more)).2 ∨
      text = trim (splitLead .regex (c :: cs.take more)).1) : startsNumber text = false := by
  rw [splitLead, if_pos rfl] at one
  rcases one with rfl | rfl
  · -- the literal begins with a slash
    cases rest : (c :: cs.take more).dropWhile (· ≠ '/') with
    | nil => rfl
    | cons d more' =>
      have slash := head?_dropWhile_not (p := (· ≠ '/')) (l := c :: cs.take more)
      rw [rest] at slash
      exact startsNumber_literal more' (.inr (.inr (by simpa using slash)))
  · by_cases slash : c = '/'
    · simp [slash, trim, trimStart, trimEnd, startsNumber]
    · refine leads.resolve_right slash _ ?_
      rw [takeWhile_cons, if_pos (by simpa using slash)]
      refine (trim_begins blank).trans ((prefix_cons_inj c).mpr ?_)
      refine IsPrefix.trans ?_ <| take_prefix more _
      exact takeWhile_prefix _

lemma cons_take_of_pos (positive : 0 < n) : c :: cs.take (n - 1) = (c :: cs).take n := by
  cases n with
  | zero => cases positive
  | succ n => rfl

lemma words_spelled {number pos : Nat} {first spaced : Bool}
    {span : Span} (found : front? first c cs = some span) (blank : Text.isBlank c = false)
    (word : span.shape ≠ .comment)
    (mem : l ∈ words number pos spaced (splitLead span.shape (c :: cs.take span.more)).1
      (splitLead span.shape (c :: cs.take span.more)).2) : l.IsSpelled := by
  obtain ⟨text, place, spaced', rfl, one⟩ := mem_words mem
  rw [IsSpelled, String.toList_ofList]
  intro reads
  -- the text does not read as a number but where a plain word is one
  have never : Reading.startsNumber text = false →
      Literal.startsNumeral (Literal.number (String.ofList text)).toList := fun other => by
    rw [reads] at other
    cases other
  rw [front?] at found
  split at found
  case isTrue slash =>
    cases found
    exact never (startsNumber_regex blank
      (.inr (of_decide_eq_true (Bool.and_eq_true_iff.mp slash).2)) one)
  case isFalse =>
    rw [at?] at found
    split at found
    case isTrue =>
      cases found
      exact absurd rfl word
    case isFalse =>
      split at found
      case isTrue quote =>
        cases found
        rcases one with rfl | rfl
        · exact never (startsNumber_literal _ (by simp at quote; tauto))
        · cases reads
      case isFalse =>
        split at found
        case isTrue led =>
          cases found
          exact never (startsNumber_regex blank
            (.inl fun p within => startsNumber_lead led within) one)
        case isFalse =>
          split at found
          case isTrue positive =>
            cases found
            rcases one with rfl | rfl
            · change Reading.startsNumber (c :: cs.take (plainLength (c :: cs) - 1)) at reads
              change Literal.startsNumeral (Literal.number
                (String.ofList (c :: cs.take (plainLength (c :: cs) - 1)))).toList
              rw [cons_take_of_pos positive] at reads ⊢
              exact startsNumeral_literal positive reads
            · cases reads
          case isFalse => cases found

lemma front?_comment {span : Span}
    (found : Span.front? first c cs = some span) (comment : span.shape = .comment) : c = '#' := by
  by_contra other
  rw [Span.front?, Span.at?, if_neg other] at found
  split at found
  · cases found
    cases comment
  · split at found
    · cases found
      cases comment
    · split at found
      · cases found
        cases comment
      · split at found
        · cases found
          cases comment
        · cases found

lemma scanLine_spelled (number pos : Nat) (first spaced : Bool) (rest : List Char)
    (later : List (List Char)) :
    ∀ l ∈ scanLine number pos first spaced rest later, l.IsSpelled := by
  intro l mem
  fun_induction scanLine number pos first spaced rest later with
  | case1 | case6 | case8 =>
    rw [mem_singleton.mp mem]
    trivial
  | case2 number pos first spaced line later ih =>
    rcases mem_cons.mp mem with rfl | mem
    · trivial
    · exact ih mem
  | case3 number pos first spaced c cs later blank ih
  | case4 number pos first spaced c cs blank joined ih
  | case5 number pos first spaced c cs blank joined line later ih
  | case9 number pos first spaced c cs blank joined span found all word parts isOpen line
      later ih =>
    exact ih mem
  | case7 number pos first spaced c cs later here blank joined span found all comment ih =>
    rcases mem_cons.mp mem with rfl | mem
    · simp [IsSpelled, IsComment, all, front?_comment found comment]
    · exact ih mem
  | case10 number pos first spaced c cs later blank joined span found all word parts closed ih =>
    rcases mem_append.mp mem with mem | mem
    · exact words_spelled found (by simpa using blank) word mem
    · exact ih mem

lemma scan_spelled (text : String) : ∀ l ∈ scan text, l.IsSpelled := by
  rw [scan]
  split
  · exact forall_mem_nil _
  · exact scanLine_spelled _ _ _ _ _ _

end Lexeme

end AwkToPython
