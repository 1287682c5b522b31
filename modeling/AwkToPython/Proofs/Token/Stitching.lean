import AwkToPython.Proofs.Token.StringLiteral

/-!
# Literals over two lines

A literal that its line leaves open goes on in the next line. The two are stitched
and scanned again from the quote, so what the first line escapes is found out twice.
A backslash at the end of the first line is dropped whether it continues the line or
is the second half of an escape. In the latter case the first half stays and escapes
the next line's first character.
-/
namespace AwkToPython

open List Text Literal Lexeme

variable {a cs : List Char}

lemma Text.lines_append (b : List Char) (oneLine : '\n' ∉ a)
    (visible : a.getLast? ≠ some '\r') : lines (a ++ '\n' :: b) = a :: lines b := by
  induction a with
  | nil => rfl
  | cons c rest ih =>
    rw [mem_cons, not_or] at oneLine
    rw [cons_append, lines.eq_def]
    split
    case h_1 same => cases same
    case h_2 same =>
      cases same
      exact absurd rfl oneLine.1
    case h_3 same =>
      rw [cons_eq_cons] at same
      obtain ⟨rfl, same⟩ := same
      cases rest with
      | nil => exact absurd rfl visible
      | cons d rest =>
        cases same
        simp at oneLine
    case h_4 same =>
      cases same
      rw [ih oneLine.2 fun last => visible (by rw [getLast?_cons, last]; rfl)]

namespace Literal

/-- The number of backslashes at the end of a text. -/
def slashes (cs : List Char) : Nat := (cs.reverse.takeWhile (· = '\\')).length

/-- Whether the first character of the next line is escaped once the last backslash of
the first is dropped. -/
def carries (cs : List Char) : Bool := slashes cs ≠ 0 && slashes cs % 2 = 0

lemma isOpen_of_bare (bare : hasBareQuote false cs = false) : isOpen ('"' :: cs) = true := by
  cases cs using reverseRecOn with
  | nil => rfl
  | append_singleton front c =>
    by_cases quote : c = '"'
    · rw [quote, hasBareQuote_append, Bool.or_eq_false_iff] at bare
      rw [quote, isOpen_delimited (.inl rfl)]
      simpa [hasBareQuote] using bare.2
    · simp [isOpen, quote]

lemma continued_quote (cs : List Char) : continued ('"' :: cs) = '"' :: continued cs := by
  cases cs with
  | nil => rfl
  | cons c cs =>
    rw [continued, continued, getLast?_cons_cons]
    split <;> rfl

/-- What the first line leaves behind its open quote. -/
lemma continued_state (bare : hasBareQuote false cs = false) :
    hasBareQuote false (continued cs) = false ∧ endsEscaped false (continued cs) = carries cs := by
  cases cs using reverseRecOn with
  | nil => exact ⟨rfl, rfl⟩
  | append_singleton front c =>
    by_cases slash : c = '\\'
    · rw [hasBareQuote_append, Bool.or_eq_false_iff] at bare
      have kept : continued (front ++ [c]) = front := by simp [continued, slash]
      rw [kept, endsEscaped_eq]
      refine ⟨bare.1, Bool.eq_iff_iff.mpr ?_⟩
      simp [carries, slashes, slash]
      omega
    · have kept : continued (front ++ [c]) = front ++ [c] := by
        simp [continued, slash]
      rw [kept, endsEscaped_eq]
      exact ⟨bare, by simp [carries, slashes, slash]⟩

lemma continued_eq (cs : List Char) :
    continued cs = if slashes cs = 0 then cs else cs.dropLast := by
  cases cs using reverseRecOn with
  | nil => rfl
  | append_singleton front c => by_cases slash : c = '\\' <;> simp [continued, slashes, slash]

end Literal

namespace Lexeme

/-- The lexemes of an assignment whose literal goes on in a second line. -/
lemma scan_stitched (aLine : '\n' ∉ a) (bLine : '\n' ∉ b)
    (visible : ∀ c ∈ a.getLast?, isBlank c = false)
    (bare : hasBareQuote false a = false)
    (quiet : hasBareQuote (carries a) b = false)
    (ends : endsEscaped (carries a) b = false) :
    let literal := '"' :: (continued a ++ b ++ ['"'])
    scan ("x = \"" ++ String.ofList a ++ "\n" ++ String.ofList b ++ "\"") =
      [.word "x" ⟨1, 1⟩ true, .word "=" ⟨1, 3⟩ true, .word (String.ofList literal) ⟨2, 5⟩ true,
        .lineEnd ⟨2, 5 + byteLength literal⟩] := by
  let line := 'x' :: ' ' :: '=' :: ' ' :: '"' :: a
  have source : ("x = \"" ++ String.ofList a ++ "\n" ++ String.ofList b ++ "\"").toList =
      line ++ '\n' :: (b ++ ['"']) := by simp [line]
  have last : ∀ c ∈ line.getLast?, isBlank c = false := by
    intro c mem
    cases a with
    | nil =>
      cases mem
      decide
    | cons d a => exact visible c (by simpa [line] using mem)
  have trimmed : trim line = line := by
    rw [trim, trimStart_of_head (by decide)]
    obtain ⟨front, c, split⟩ : ∃ front c, line = front ++ [c] :=
      ⟨_, _, (dropLast_append_getLast (cons_ne_nil _ _)).symm⟩
    change trimEnd line = line
    rw [split, trimEnd_of_last front (last c (by simp [split]))]
  have found : Span.front? false '"' a = some ⟨.quoted, a.length⟩ := by
    rw [Span.front?, if_neg (by decide), Span.at?, if_neg (by decide), if_pos (by decide),
      (quotedLength_of_bare bare).1]
  have stitched : scanLine 1 4 false true ('"' :: a) [b ++ ['"']] =
      scanLine 2 4 false true ('"' :: (continued a ++ b ++ ['"'])) [] := by
    rw [scanLine.eq_def]
    simp [show isBlank '"' = false by decide, found, splitLead, isOpen_of_bare bare,
      continued_quote]
  have state := continued_state bare
  have cr : line.getLast? ≠ some '\r' := fun ends => absurd (last _ ends) (by decide)
  rw [scan, source, lines_append _ (by simpa [line] using aLine) cr,
    lines_of_not_mem (by simp) (by simpa using bLine)]
  dsimp only
  rw [trimmed, scanLine_assignment, stitched, scanLine_literal 2
    (by rw [hasBareQuote_append, state.1, state.2, quiet]; rfl)
    (by rw [endsEscaped_append, state.2, ends])]

end Lexeme

/-- A literal over two lines is one string token with the text of both; a backslash at the
end of the first line is left out. -/
theorem two_lines_make_one_literal (library : Library) {a b : List Char}
    (aLine : '\n' ∉ a) (bLine : '\n' ∉ b)
    (visible : ∀ c ∈ a.getLast?, isBlank c = false)
    (bare : hasBareQuote false a = false)
    (quiet : hasBareQuote (carries a) b = false)
    (ends : endsEscaped (carries a) b = false) :
    ∃ (x assign string lineEnd : Token) (w : Vocabulary),
      ({} : Vocabulary).tokens library
          ("x = \"" ++ String.ofList a ++ "\n" ++ String.ofList b ++ "\"") =
        (.ok ([x, assign, string, lineEnd] ++
          replicate endPadding (Token.endOfInput 2)), w) ∧
      (w.table.symbol x.symbol).key = "x" ∧
      (w.table.symbol assign.symbol).key = "=" ∧
      (w.table.symbol string.symbol).kind = .string ∧
      (w.table.symbol string.symbol).key =
        String.ofList ('"' :: ((if slashes a = 0 then a else a.dropLast) ++ b ++ ['"'])) ∧
      lineEnd.isNewline = true ∧ (w.table.symbol lineEnd.symbol).key = "\n" := by
  obtain ⟨x, assign, string, lineEnd, w, read, name, equals, symbol, newline⟩ :=
    Vocabulary.tokens_assignment library
      (scan_stitched aLine bLine visible bare quiet ends)
  exact ⟨x, assign, string, lineEnd, w, read, name, equals, by rw [symbol],
    by rw [symbol, continued_eq], newline⟩

/-- An odd run at the end of the first line, and an escaped quote in the second. -/
theorem two_lines_make_one_literal_continued :
    ∃ (x assign string lineEnd : Token) (w : Vocabulary),
      ({} : Vocabulary).tokens {} "x = \"a\\\n\\\"b\"" =
        (.ok ([x, assign, string, lineEnd] ++
          replicate endPadding (Token.endOfInput 2)), w) ∧
      (w.table.symbol string.symbol).key = "\"a\\\"b\"" := by
  obtain ⟨x, assign, string, lineEnd, w, read, -, -, -, text, -⟩ :=
    two_lines_make_one_literal {} (a := ['a', '\\']) (b := ['\\', '"', 'b']) (by decide) (by decide)
      (by rintro c ⟨⟩; decide) (by decide) (by decide) (by decide)
  exact ⟨x, assign, string, lineEnd, w, read, text⟩

/-- An even run at the end of the first line loses a backslash as well. -/
theorem even_run_loses_backslash :
    ¬ ∀ a b : List Char, '\n' ∉ a → '\n' ∉ b → (∀ c ∈ a.getLast?, isBlank c = false) →
      hasBareQuote false a = false → slashes a % 2 = 0 →
      hasBareQuote false b = false → slashes b % 2 = 0 →
      ∃ (x assign string lineEnd : Token) (w : Vocabulary),
        ({} : Vocabulary).tokens {}
            ("x = \"" ++ String.ofList a ++ "\n" ++ String.ofList b ++ "\"") =
          (.ok ([x, assign, string, lineEnd] ++
            replicate endPadding (Token.endOfInput 2)), w) ∧
        (w.table.symbol string.symbol).key = String.ofList ('"' :: (a ++ b ++ ['"'])) := by
  intro kept
  obtain ⟨x, assign, string, lineEnd, w, claimed, text⟩ := kept ['a', '\\', '\\'] ['b'] (by decide)
    (by decide) (by rintro c ⟨⟩; decide) (by decide) (by decide) (by decide) (by decide)
  obtain ⟨_, _, _, _, _, read, -, -, symbol, -⟩ := Vocabulary.tokens_assignment {}
    (scan_stitched (a := ['a', '\\', '\\']) (b := ['b']) (by decide) (by decide)
      (by rintro c ⟨⟩; decide)
      (by decide) (by decide) (by decide))
  have same := claimed.symm.trans read
  simp only [Prod.mk.injEq, Except.ok.injEq, append_cancel_right_eq, cons.injEq] at same
  obtain ⟨⟨-, -, rfl, -⟩, rfl⟩ := same
  rw [symbol] at text
  exact absurd text (by decide)

end AwkToPython
