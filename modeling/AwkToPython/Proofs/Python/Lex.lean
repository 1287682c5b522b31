import AwkToPython.Proofs.Python.Expr
import Mathlib.Data.Bool.AllAny

/-!
# The words of what is written

`Spells cs ws` says that a text is cut into these words wherever it stands
between operators and brackets. Names, numbers and strings spell one word each,
and texts put together spell the words put together.
-/
namespace AwkToPython.Python

open List Word Name

variable {c : Char} {cs : List Char} {d : Char} {rest : List Char} {op text : String}

/-- What may stand behind an operand: nothing that would go on with its last word. -/
def Closes (rest : List Char) : Prop :=
  ∀ c ∈ rest.head?, Name.isInner c = false ∧ c ≠ '.'

/-- The first character of an operand: none that would go on with an operator. -/
abbrev Opens (c : Char) : Prop := c ∉ ['*', '/', '<', '>', '=']

structure Spells (cs : List Char) (ws : List Word) : Prop where
  opens : ∃ c rest, cs = c :: rest ∧ Opens c
  lex : ∀ rest, Closes rest → lex (cs ++ rest) = ws ++ Python.lex rest

lemma closes_nil : Closes [] := nofun

lemma closes_cons (rest : List Char) (h : isInner c = false ∧ c ≠ '.') : Closes (c :: rest) := by
  intro d hd
  cases hd
  exact h

lemma lex_blank (rest : List Char) : lex (' ' :: rest) = lex rest := by
  rw [lex, if_pos rfl]

lemma lex_front (blank : c ≠ ' ')
    (h : front c cs = (w, more)) : lex (c :: cs) = w :: lex (cs.drop more) := by
  rw [lex, if_neg blank, h]

/-! ### Marks -/

lemma digitsLength_cons (cs : List Char) (h : c.isDigit = false) :
    Span.digitsLength (c :: cs) = 0 := by
  simp [Span.digitsLength, h]

lemma numberLength_cons (digit : c.isDigit = false)
    (point : c = '.' → Span.digitsLength cs = 0) : numberLength (c :: cs) = 0 := by
  have zero : c ≠ '0' := by
    rintro rfl
    cases digit
  have hex : Span.hexLength (c :: cs) = 0 := by
    unfold Span.hexLength
    split
    · rename_i same
      cases same
      exact absurd rfl zero
    · rfl
  have decimal : Span.decimalLength (c :: cs) = 0 := by
    unfold Span.decimalLength
    rw [digitsLength_cons cs digit]
    by_cases dot : c = '.'
    · subst dot
      simp [point rfl]
    · simp [dot]
  unfold numberLength
  rw [hex, if_neg (Nat.lt_irrefl _)]
  split
  · rename_i same
    cases same
    exact absurd rfl zero
  · exact decimal

def markChars : List Char := ['+', '-', '*', '/', '%', '<', '>', '=', '!', '(', ')', '[', ']', '.']

lemma front_mark (h : c ∈ markChars)
    (point : c = '.' → Span.digitsLength cs = 0) : front c cs = markAt c cs := by
  have plain : ∀ c ∈ markChars, isStart c = false ∧ c ≠ '"' ∧ c.isDigit = false :=
    all_iff_forall_prop.mp (by decide)
  obtain ⟨start, quote, digit⟩ := plain c h
  have number := numberLength_cons digit point
  rw [front, start, if_neg Bool.false_ne_true, if_neg quote, if_neg (by omega)]

lemma lex_short (h : c ∈ shortMarks) (point : c = '.' → Span.digitsLength cs = 0)
    (alone : String.ofList (c :: cs.take 1) ∉ longMarks) :
    lex (c :: cs) = .mark (String.ofList [c]) :: lex cs := by
  have all : ∀ c ∈ shortMarks, c ≠ ' ' ∧ c ∈ markChars :=
    all_iff_forall_prop.mp (by decide)
  have found : front c cs = (.mark (String.ofList [c]), 0) := by
    rw [front_mark (all c h).2 point, markAt, if_neg (by rwa [contains_iff_mem]),
      if_pos (by rwa [contains_iff_mem])]
  exact lex_front (all c h).1 found

lemma lex_long (h : c ∈ markChars ∧ c ≠ '.' ∧ String.ofList [c, d] ∈ longMarks) :
    lex (c :: d :: cs) = .mark (String.ofList [c, d]) :: lex cs := by
  have all : ∀ c ∈ markChars, c ≠ ' ' := all_iff_forall_prop.mp (by decide)
  have found : front c (d :: cs) = (.mark (String.ofList [c, d]), 1) := by
    rw [front_mark h.1 fun same => absurd same h.2.1, markAt,
      if_pos (by rw [contains_iff_mem]; exact h.2.2)]
    rfl
  exact lex_front (all c h.1) found

/-! ### Names -/

lemma takeWhile_append {p : Char → Bool} (all : cs.all p)
    (stop : ∀ c ∈ rest.head?, p c = false) : (cs ++ rest).takeWhile p = cs := by
  rw [takeWhile_append_of_pos (by simpa using all)]
  cases rest with
  | nil => simp
  | cons c rest => simp [stop c rfl]

lemma dropWhile_append {p : Char → Bool} (all : cs.all p)
    (stop : ∀ c ∈ rest.head?, p c = false) : (cs ++ rest).dropWhile p = rest := by
  rw [dropWhile_append_of_pos (by simpa using all)]
  cases rest with
  | nil => rfl
  | cons c rest => simp [stop c rfl]

lemma lex_word (word : isIdentifierChars cs) (stop : ∀ c ∈ rest.head?, isInner c = false) :
    lex (cs ++ rest) = ofName (String.ofList cs) :: lex rest := by
  cases cs with
  | nil => cases word
  | cons c cs =>
    simp only [isIdentifierChars, Bool.and_eq_true] at word
    have blank : c ≠ ' ' := by
      rintro rfl
      cases word.1
    have found : front c (cs ++ rest) = (ofName (String.ofList (c :: cs)), cs.length) := by
      rw [front, if_pos word.1, takeWhile_append word.2 stop]
    rw [cons_append, lex_front blank found, drop_left]

/-- What stands between two operands. -/
def joints : List (String × String) :=
  [("**", "**"), ("*", "*"), ("/", "/"), ("%", "%"), ("+", "+"), ("-", "-"), ("<", "<"),
   ("<=", "<="), ("==", "=="), ("!=", "!="), (">", ">"), (">=", ">="), (" and ", "and"),
   (" or ", "or")]

lemma lex_single (hd : d ∈ ['*', '/', '%', '+', '-', '<', '>']) (rest : List Char)
    (opens : Opens c) : lex (d :: c :: rest) = .mark (String.ofList [d]) :: lex (c :: rest) := by
  have all : ∀ d ∈ ['*', '/', '%', '+', '-', '<', '>'], d ∈ shortMarks ∧ d ≠ '.' :=
    all_iff_forall_prop.mp (by decide)
  refine lex_short (all d hd).1 (fun same => absurd same (all d hd).2) fun long => opens ?_
  have second : ∀ m ∈ longMarks,
      m.toList.getLast?.all (fun c => c ∈ ['*', '/', '<', '>', '=']) := by decide
  exact of_decide_eq_true (Option.all_eq_true _ _ |>.mp (second _ long) c (by simp))

lemma lex_keyword (cs : List Char) (word : isIdentifierChars cs) (rest : List Char) :
    lex (' ' :: (cs ++ ' ' :: rest)) = ofName (String.ofList cs) :: lex rest := by
  have stop : ∀ c ∈ (' ' :: rest).head?, isInner c = false := by
    intro c hc
    cases hc
    rfl
  rw [lex_blank, lex_word word stop, lex_blank]

lemma lex_joint (h : (text, op) ∈ joints) (rest : List Char)
    (opens : Opens c) : lex (text.toList ++ c :: rest) = .mark op :: lex (c :: rest) := by
  simp only [joints, mem_cons, Prod.mk.injEq, not_mem_nil, or_false] at h
  rcases h with ⟨rfl, rfl⟩ | ⟨rfl, rfl⟩ | ⟨rfl, rfl⟩ | ⟨rfl, rfl⟩ | ⟨rfl, rfl⟩ | ⟨rfl, rfl⟩ |
    ⟨rfl, rfl⟩ |
    ⟨rfl, rfl⟩ | ⟨rfl, rfl⟩ | ⟨rfl, rfl⟩ | ⟨rfl, rfl⟩ | ⟨rfl, rfl⟩ | ⟨rfl, rfl⟩ | ⟨rfl, rfl⟩
  · exact lex_long (by decide)
  · exact lex_single (by decide) rest opens
  · exact lex_single (by decide) rest opens
  · exact lex_single (by decide) rest opens
  · exact lex_single (by decide) rest opens
  · exact lex_single (by decide) rest opens
  · exact lex_single (by decide) rest opens
  · exact lex_long (by decide)
  · exact lex_long (by decide)
  · exact lex_long (by decide)
  · exact lex_single (by decide) rest opens
  · exact lex_long (by decide)
  · exact lex_keyword ['a', 'n', 'd'] (by decide) (c :: rest)
  · exact lex_keyword ['o', 'r'] (by decide) (c :: rest)

lemma lex_bracket (hd : d ∈ ['(', ')', '[', ']']) (rest : List Char) :
    lex (d :: rest) = .mark (String.ofList [d]) :: lex rest := by
  have all : ∀ d ∈ ['(', ')', '[', ']'], d ∈ shortMarks ∧ d ≠ '.' ∧
      ∀ m ∈ longMarks, m.toList.head? ≠ some d := all_iff_forall_prop.mp (by decide)
  obtain ⟨short, dot, first⟩ := all d hd
  exact lex_short short (fun same => absurd same dot) fun long => first _ long (by simp)

lemma isDigit_of_isStart (start : isStart c) : c.isDigit = false := by
  rw [isStart, Bool.or_eq_true, decide_eq_true_eq] at start
  rcases start with letter | rfl
  · delta Char.isAlpha Char.isUpper Char.isLower at letter
    simp [Char.isDigit, UInt32.le_iff_toNat_le] at letter ⊢
    omega
  · rfl

lemma lex_point (rest : List Char) (start : isStart c) :
    lex ('.' :: c :: rest) = .mark "." :: lex (c :: rest) := by
  have digit := isDigit_of_isStart start
  have first : ∀ m ∈ longMarks, m.toList.head? ≠ some '.' := by decide
  exact lex_short (by decide) (fun _ => digitsLength_cons rest digit) fun long =>
    first _ long (by simp)

/-! ### Operands -/

/-- A name that Python does not reserve. -/
def IsName (text : String) : Prop :=
  Name.isIdentifierChars text.toList = true ∧ Word.ofName text = .name text

instance (text : String) : Decidable (IsName text) := inferInstanceAs (Decidable (_ ∧ _))

lemma opens_of_isStart (start : isStart c) : Opens c := by
  have none : ∀ c ∈ ['*', '/', '<', '>', '='], isStart c = false :=
    all_iff_forall_prop.mp (by decide)
  intro mem
  rw [none c mem] at start
  cases start

lemma IsName.start (h : IsName text) : ∃ c rest, text.toList = c :: rest ∧ isStart c := by
  obtain ⟨chars, -⟩ := h
  cases same : text.toList with
  | nil =>
    rw [same] at chars
    cases chars
  | cons c rest =>
    rw [same, isIdentifierChars, Bool.and_eq_true] at chars
    exact ⟨c, rest, rfl, chars.1⟩

lemma IsName.lex (h : IsName text) (stop : ∀ c ∈ rest.head?, isInner c = false) :
    lex (text.toList ++ rest) = .name text :: lex rest := by
  rw [lex_word h.1 stop, String.ofList_toList, h.2]

namespace Spells

variable {cs cs' : List Char} {ws ws' : List Word}

lemma name (h : IsName text) : Spells text.toList [.name text] := by
  obtain ⟨c, rest, same, start⟩ := h.start
  refine ⟨⟨c, rest, same, opens_of_isStart start⟩, fun rest closes => ?_⟩
  exact h.lex fun c hc => (closes c hc).1

lemma member (h : IsName owner) (h' : IsName text) :
    Spells (owner.toList ++ '.' :: text.toList) [.name owner, .mark ".", .name text] := by
  obtain ⟨c, more, same, start⟩ := h.start
  obtain ⟨c', more', same', start'⟩ := h'.start
  refine ⟨⟨c, _, by rw [same, cons_append], opens_of_isStart start⟩, fun rest closes => ?_⟩
  have point : Python.lex ('.' :: (text.toList ++ rest)) =
    .mark "." :: Python.lex (text.toList ++ rest) := by
    rw [same']
    exact lex_point _ start'
  have stop : ∀ c ∈ ('.' :: (text.toList ++ rest)).head?, isInner c = false := by
    intro c hc
    cases hc
    rfl
  rw [append_assoc, cons_append, h.lex stop, point, h'.lex fun c hc => (closes c hc).1]
  rfl

lemma joint (h : Spells cs ws) (h' : Spells cs' ws')
    (between : (text, op) ∈ joints) :
    Spells (cs ++ text.toList ++ cs') (ws ++ .mark op :: ws') := by
  obtain ⟨c, more, rfl, opens⟩ := h.opens
  obtain ⟨c', more', rfl, opens'⟩ := h'.opens
  refine ⟨⟨c, _, rfl, opens⟩, fun rest closes => ?_⟩
  have first : ∀ p ∈ joints,
      p.1.toList.head?.all (fun c => isInner c = false ∧ c ≠ '.') := by decide
  have nonempty : ∀ p ∈ joints, p.1.toList ≠ [] := by decide
  have front : Closes (text.toList ++ (c' :: more' ++ rest)) := by
    intro d hd
    obtain ⟨e, more, same⟩ := exists_cons_of_ne_nil (nonempty _ between)
    rw [same] at hd
    exact of_decide_eq_true (Option.all_eq_true _ _ |>.mp (first _ between) d
      (by rw [same]; exact hd))
  rw [append_assoc, append_assoc, h.lex _ front, cons_append, lex_joint between _ opens',
    ← cons_append, h'.lex rest closes, append_assoc]
  rfl

lemma sign (h : Spells cs ws) (hd : d ∈ ['+', '-']) :
    Spells (d :: cs) (.mark (String.ofList [d]) :: ws) := by
  have all : ∀ d ∈ ['+', '-'], d ∈ ['*', '/', '%', '+', '-', '<', '>'] ∧
      d ∉ ['*', '/', '<', '>', '='] := all_iff_forall_prop.mp (by decide)
  obtain ⟨c, more, rfl, opens⟩ := h.opens
  refine ⟨⟨d, _, rfl, (all d hd).2⟩, fun rest closes => ?_⟩
  rw [cons_append, cons_append, lex_single (all d hd).1 _ opens, ← cons_append,
    h.lex rest closes]
  rfl

lemma parens (h : Spells cs ws) : Spells ('(' :: cs ++ [')']) (.mark "(" :: ws ++ [.mark ")"]) := by
  refine ⟨⟨'(', _, rfl, by decide⟩, fun rest closes => ?_⟩
  have behind : Closes (')' :: rest) := closes_cons rest (by decide)
  rw [append_assoc, cons_append, lex_bracket (by decide), singleton_append,
    h.lex _ behind, lex_bracket (by decide)]
  simp

lemma call (h : Spells cs ws) (h' : IsName function) :
    Spells (function.toList ++ '(' :: cs ++ [')'])
      (.name function :: .mark "(" :: ws ++ [.mark ")"]) := by
  obtain ⟨c, more, same, start⟩ := h'.start
  refine ⟨⟨c, more ++ '(' :: cs ++ [')'], by simp [same], opens_of_isStart start⟩,
    fun rest closes => ?_⟩
  have stop : ∀ c ∈ ('(' :: (cs ++ ')' :: rest)).head?, isInner c = false := by
    intro c hc
    cases hc
    rfl
  have behind : Closes (')' :: rest) := closes_cons rest (by decide)
  have words : function.toList ++ '(' :: cs ++ [')'] ++ rest =
      function.toList ++ '(' :: (cs ++ ')' :: rest) := by simp
  rw [words, h'.lex stop, lex_bracket (by decide), h.lex _ behind, lex_bracket (by decide)]
  simp

lemma subscript (h : Spells cs ws) (h' : Spells cs' ws') :
    Spells (cs ++ '[' :: cs' ++ [']']) (ws ++ .mark "[" :: ws' ++ [.mark "]"]) := by
  obtain ⟨c, more, rfl, opens⟩ := h.opens
  refine ⟨⟨c, _, rfl, opens⟩, fun rest closes => ?_⟩
  have words : c :: more ++ '[' :: cs' ++ [']'] ++ rest =
      c :: more ++ '[' :: (cs' ++ ']' :: rest) := by simp
  rw [words, h.lex _ (closes_cons _ (by decide)), lex_bracket (by decide),
    h'.lex _ (closes_cons _ (by decide)), lex_bracket (by decide)]
  simp

lemma negation (h : Spells cs ws) : Spells ("not ".toList ++ cs) (.mark "not" :: ws) := by
  refine ⟨⟨'n', _, rfl, by decide⟩, fun rest closes => ?_⟩
  have stop : ∀ c ∈ (' ' :: (cs ++ rest)).head?, isInner c = false := by
    intro c hc
    cases hc
    rfl
  have word : Python.lex ("not".toList ++ ' ' :: (cs ++ rest)) =
    .mark "not" :: Python.lex (' ' :: (cs ++ rest)) :=
    lex_word (by decide) stop
  exact word.trans (by rw [lex_blank, h.lex rest closes]; rfl)

lemma choose (h : Spells cs ws) (h' : Spells cs' ws') (h'' : Spells cs'' ws'') :
    Spells (cs ++ " if ".toList ++ cs' ++ " else ".toList ++ cs'')
      (ws ++ .mark "if" :: ws' ++ .mark "else" :: ws'') := by
  obtain ⟨c, more, rfl, opens⟩ := h.opens
  refine ⟨⟨c, _, rfl, opens⟩, fun rest closes => ?_⟩
  have closesIf : ∀ cs, Closes (" if ".toList ++ cs) := fun cs => closes_cons _ (by decide)
  have closesElse : ∀ cs, Closes (" else ".toList ++ cs) := fun cs => closes_cons _ (by decide)
  have first : ∀ cs, Python.lex (" if ".toList ++ cs) = .mark "if" :: Python.lex cs := fun cs =>
    lex_keyword ['i', 'f'] (by decide) cs
  have second : ∀ cs, Python.lex (" else ".toList ++ cs) = .mark "else" :: Python.lex cs :=
    fun cs =>
    lex_keyword ['e', 'l', 's', 'e'] (by decide) cs
  simp only [append_assoc]
  rw [h.lex _ (closesIf _), first, h'.lex _ (closesElse _), second, h''.lex rest closes]
  simp

end Spells

end AwkToPython.Python
