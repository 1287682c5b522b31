import AwkToPython.Proofs.Lexeme.Tiling
import AwkToPython.Proofs.Python.StringValue

/-!
# String literals

A value is written in AWK with a backslash before each backslash and each quote.
Scanning takes the literal as one word, reading makes one symbol of it, and the
Python text of the symbol evaluates to the value again. Three conventions meet here:
where a literal ends, what it means, and how Python writes it.
-/
namespace AwkToPython

variable {cs : List Char} {c : Char} {spaced : Bool} {r : Reading} {place : Place}

open List Literal Reading AwkToPython.Span Text Table

namespace Text

lemma lines_of_not_mem (some_ : cs ≠ []) (oneLine : '\n' ∉ cs) : lines cs = [cs] := by
  induction cs with
  | nil => exact absurd rfl some_
  | cons c rest ih =>
    rw [mem_cons, not_or] at oneLine
    rw [lines.eq_def]
    split
    case h_1 same => cases same
    case h_2 same =>
      cases same
      exact absurd rfl oneLine.1
    case h_3 same =>
      cases same
      simp at oneLine
    case h_4 same =>
      cases same
      cases rest with
      | nil => rfl
      | cons d rest => rw [ih (by simp) oneLine.2]

lemma trimEnd_of_last (cs : List Char) (visible : isBlank c = false) :
    trimEnd (cs ++ [c]) = cs ++ [c] := by
  simp [trimEnd, visible]

end Text

namespace Literal

/-- A character of an AWK string. -/
def guardedChar (c : Char) : List Char := if c = '\\' || c = '"' then ['\\', c] else [c]

/-- The AWK literal of a value. -/
def awk (value : String) : String :=
  String.ofList ('"' :: (value.toList.flatMap guardedChar ++ ['"']))

lemma guardedChar_cases (c : Char) : (c = '\\' ∨ c = '"') ∧ guardedChar c = ['\\', c] ∨
      c ≠ '\\' ∧ c ≠ '"' ∧ guardedChar c = [c] := by
  by_cases special : c = '\\' ∨ c = '"'
  · exact .inl ⟨special, by simp [guardedChar, special]⟩
  · rw [not_or] at special
    exact .inr ⟨special.1, special.2, by simp [guardedChar, special]⟩

/-! ### Its value -/

lemma unescape_escape (rest : List Char) (digit : isOctal c = false) :
    unescape ('\\' :: c :: rest) = escapedChar c :: unescape rest := by
  rw [unescape.eq_def]
  split <;> grind

lemma unescape_plain (rest : List Char) (slash : c ≠ '\\') :
    unescape (c :: rest) = c :: unescape rest := by
  rw [unescape.eq_def]
  split <;> grind

lemma unescape_guarded (cs : List Char) : unescape (cs.flatMap guardedChar) = cs := by
  induction cs with
  | nil => rfl
  | cons c cs ih =>
    rw [flatMap_cons]
    rcases guardedChar_cases c with ⟨special, guarded⟩ | ⟨slash, -, guarded⟩
    · rw [guarded, cons_append, singleton_append]
      rcases special with rfl | rfl <;> rw [unescape_escape _ (by decide), ih] <;> rfl
    · rw [guarded, singleton_append, unescape_plain _ slash, ih]

lemma not_mem_guarded (outside : c ∉ cs) (slash : c ≠ '\\') : c ∉ cs.flatMap guardedChar := by
  intro mem
  obtain ⟨d, inside, found⟩ := mem_flatMap.mp mem
  rcases guardedChar_cases d with ⟨-, guarded⟩ | ⟨-, -, guarded⟩
  · rw [guarded, mem_cons, mem_singleton] at found
    rcases found with rfl | rfl
    · exact slash rfl
    · exact outside inside
  · rw [guarded, mem_singleton] at found
    exact outside (found ▸ inside)

lemma value_awk (text : String) : value (awk text) = text := by
  have inside : unquote (awk text).toList = text.toList.flatMap guardedChar := by
    simp [unquote, awk, isQuote]
  rw [value, inside, unescape_guarded, String.ofList_toList]

/-! ### Its end -/

/-- Whether a quote stands in a text that no backslash escapes; `escaped` says whether
one escapes the first character. -/
def hasBareQuote (escaped : Bool) : List Char → Bool
  | [] => false
  | c :: rest => c = '"' && !escaped || hasBareQuote (c = '\\' && !escaped) rest

/-- Whether the character behind a text is escaped. -/
def endsEscaped (escaped : Bool) : List Char → Bool
  | [] => escaped
  | c :: rest => endsEscaped (c = '\\' && !escaped) rest

lemma endsEscaped_append (escaped : Bool) (as bs : List Char) :
    endsEscaped escaped (as ++ bs) = endsEscaped (endsEscaped escaped as) bs := by
  induction as generalizing escaped with
  | nil => rfl
  | cons a as ih => exact ih _

lemma hasBareQuote_append (escaped : Bool) (as bs : List Char) : hasBareQuote escaped (as ++ bs) =
      (hasBareQuote escaped as || hasBareQuote (endsEscaped escaped as) bs) := by
  induction as generalizing escaped with
  | nil => rfl
  | cons a as ih => rw [cons_append, hasBareQuote, ih, hasBareQuote, endsEscaped, Bool.or_assoc]

/-- The last character is escaped just if an odd run of backslashes stands before it. -/
lemma endsEscaped_eq (cs : List Char) :
    endsEscaped false cs = decide ((cs.reverse.takeWhile (· = '\\')).length % 2 = 1) := by
  induction cs using reverseRecOn with
  | nil => rfl
  | append_singleton cs c ih =>
    rw [endsEscaped_append, endsEscaped, endsEscaped, ih, reverse_concat]
    by_cases slash : c = '\\'
    · rw [Bool.eq_iff_iff]
      simp [slash]
      omega
    · simp [slash]

lemma guarded_closed (cs : List Char) : hasBareQuote false (cs.flatMap guardedChar) = false ∧
    endsEscaped false (cs.flatMap guardedChar) = false := by
  induction cs with
  | nil => exact ⟨rfl, rfl⟩
  | cons c cs ih =>
    rw [flatMap_cons, hasBareQuote_append, endsEscaped_append]
    rcases guardedChar_cases c with ⟨special, guarded⟩ | ⟨slash, quote, guarded⟩ <;> rw [guarded]
    · simp [hasBareQuote, endsEscaped, ih]
    · simp [hasBareQuote, endsEscaped, ih, slash, quote]

/-- Without a quote of its own a text ends with the line, or at the quote behind it if that
is not escaped. -/
lemma quotedLength_of_bare (bare : hasBareQuote false cs = false) :
    quotedLength '"' cs = cs.length ∧ (endsEscaped false cs = false → ∀ rest,
      quotedLength '"' (cs ++ '"' :: rest) = cs.length + 1) := by
  induction cs using quotedLength.induct '"' with
  | case1 => simp [quotedLength]
  | case2 => simp [quotedLength, endsEscaped]
  | case3 c rest ih =>
    obtain ⟨alone, closed⟩ := ih (by simpa [hasBareQuote] using bare)
    refine ⟨by rw [quotedLength, alone]; simp; omega, fun ends more => ?_⟩
    rw [cons_append, cons_append, quotedLength,
      closed (by simpa [endsEscaped] using ends)]
    simp
    omega
  | case4 => simp [hasBareQuote] at bare
  | case5 c rest last escape quote ih =>
    have slash : c ≠ '\\' := by
      rintro rfl
      cases rest with
      | nil => exact last rfl rfl
      | cons d rest => exact escape d rest rfl rfl
    have step : ∀ rest, quotedLength '"' (c :: rest) = 1 + quotedLength '"' rest := by
      intro rest
      rw [quotedLength.eq_def]
      split <;> grind
    obtain ⟨alone, closed⟩ := ih (by simpa [hasBareQuote, slash, quote] using bare)
    refine ⟨by rw [step, alone]; simp; omega, fun ends more => ?_⟩
    rw [cons_append, step, closed (by simpa [endsEscaped, slash] using ends)]
    simp
    omega

lemma isOpen_delimited (delimiter : c = '"' ∨ c = '\'' ∨ c = '/') (cs : List Char) :
    Lexeme.isOpen (c :: (cs ++ [c])) = endsEscaped false cs := by
  rw [endsEscaped_eq, Lexeme.isOpen, if_pos (by simpa [or_assoc] using delimiter),
    if_pos (by simp), dropLast_concat]

end Literal

/-! ### Scanning -/

namespace Lexeme

/-- A word of one character before a blank. -/
lemma scanLine_single {number pos : Nat} {first : Bool} {rest : List Char}
    {later : List (List Char)} (visible : isBlank c = false) (slash : c ≠ '\\')
    (found : front? first c (' ' :: rest) = some ⟨.plain, 0⟩) :
    scanLine number pos first spaced (c :: ' ' :: rest) later =
      .word (String.singleton c) ⟨number, pos + 1⟩ spaced ::
        scanLine number (pos + c.utf8Size + 1) false true rest later := by
  rw [scanLine_word (by simp [visible]) (by simp [slash]) found (by decide) (by simp)]
  simp only [take_zero, drop_zero, scanLine_blank (show isBlank ' ' = true by decide)]
  rfl

lemma scanLine_assignment (rest : List Char) (later : List (List Char)) :
    scanLine 1 0 true true ('x' :: ' ' :: '=' :: ' ' :: '"' :: rest) later =
      .word "x" ⟨1, 1⟩ true :: .word "=" ⟨1, 3⟩ true ::
        scanLine 1 4 false true ('"' :: rest) later := by
  rw [scanLine_single (by decide) (by decide) rfl, scanLine_single (by decide) (by decide) rfl]
  rfl

lemma scanLine_literal (number : Nat) (bare : hasBareQuote false cs = false)
    (ends : endsEscaped false cs = false) : scanLine number 4 false true ('"' :: (cs ++ ['"'])) [] =
      [.word (String.ofList ('"' :: (cs ++ ['"']))) ⟨number, 5⟩ true,
        .lineEnd ⟨number, 5 + byteLength ('"' :: (cs ++ ['"']))⟩] := by
  have quoted : front? false '"' (cs ++ ['"']) = some ⟨.quoted, (cs ++ ['"']).length⟩ := by
    rw [front?, if_neg (by decide), at?, if_neg (by decide), if_pos (by decide),
      (quotedLength_of_bare bare).2 ends]
    simp
  have closed : isOpen ('"' :: (cs ++ ['"'])) = false :=
    (isOpen_delimited (.inl rfl) cs).trans ends
  generalize cs ++ ['"'] = body at *
  rw [scanLine_word (by decide) (by simp) quoted (by simp) (by simp [splitLead, closed]),
    splitLead, if_neg (by simp), take_length, drop_length, scanLine, Nat.add_right_comm]
  rfl

lemma scan_assignment {value : String} (oneLine : '\n' ∉ value.toList) :
    scan ("x = " ++ awk value) =
      [.word "x" ⟨1, 1⟩ true, .word "=" ⟨1, 3⟩ true, .word (awk value) ⟨1, 5⟩ true,
        .lineEnd ⟨1, 5 + byteLength (awk value).toList⟩] := by
  let body := value.toList.flatMap guardedChar ++ ['"']
  have literal : (awk value).toList = '"' :: body := String.toList_ofList
  have source : ("x = " ++ awk value).toList = 'x' :: ' ' :: '=' :: ' ' :: '"' :: body := by
    rw [String.toList_append, literal]
    rfl
  have plain : '\n' ∉ 'x' :: ' ' :: '=' :: ' ' :: '"' :: body := by
    simpa [body] using not_mem_guarded oneLine (by decide)
  have trimmed : trim ('x' :: ' ' :: '=' :: ' ' :: '"' :: body) =
      'x' :: ' ' :: '=' :: ' ' :: '"' :: body := by
    rw [trim, trimStart_of_head (by decide)]
    exact trimEnd_of_last ('x' :: ' ' :: '=' :: ' ' :: '"' :: _) (by decide)
  have closed := guarded_closed value.toList
  rw [scan, source, lines_of_not_mem (by simp) plain]
  dsimp only
  rw [trimmed, scanLine_assignment, scanLine_literal 1 closed.1 closed.2, literal]
  rfl

end Lexeme

/-! ### Reading -/

lemma Name.isName_quote : Name.isName (String.ofList ('"' :: cs)) = false := by
  have opens : ∀ {s : String} {rest : List Char}, Name.isIdentifier s = true →
      s.toList ++ rest ≠ '"' :: cs := by
    intro s rest named same
    rw [isIdentifier] at named
    cases text : s.toList with
    | nil =>
      rw [text] at named
      cases named
    | cons c more =>
      rw [text, cons_append, cons_eq_cons] at same
      rw [text, isIdentifierChars, same.1] at named
      cases named
  rw [isName, Bool.or_eq_false_iff, Bool.eq_false_iff, Option.isSome_eq_false_iff,
    Option.isNone_iff_eq_none]
  refine ⟨fun named => opens named (append_nil _ |>.trans String.toList_ofList), ?_⟩
  rw [Option.eq_none_iff_forall_ne_some]
  rintro ⟨scope, name⟩ split
  have whole := congrArg String.toList (qualified?_eq split)
  rw [String.append_assoc, String.toList_append, String.toList_ofList] at whole
  exact opens (qualified?_some split).1 whole.symm

namespace Reading

/-- A literal that no entry has gets an entry with the Python literal of its value. -/
lemma wordSymbol_quoted (cs : List Char) (place : Place)
    (unknown : ∀ e ∈ r.table.index, e.1.toList.head? ≠ some '"') :
    let literal := String.ofList ('"' :: cs)
    wordSymbol literal place r =
      .ok r.table.size { r with
        table := (r.table.string literal (python (value literal))).2 } := by
  intro literal
  have head : literal.toList.head? = some '"' := by simp [literal]
  have noName : Name.isName literal = false := Name.isName_quote
  have free : r.table.find? literal = none := by
    rw [Table.find?, lookup_eq_none_iff]
    intro e mem
    exact bne_iff_ne.mpr fun same => unknown e mem (same ▸ head)
  rw [wordSymbol, noName]
  rcases literalSymbol_cases literal place r with ⟨id, found, -⟩ | ⟨-, run⟩
  · cases free.symm.trans found
  · have start : startsNumber literal.toList = false := by simp [literal, startsNumber]
    rw [newLiteral, start, head] at run
    exact run

lemma lexemes_word {load : String → Read Unit} {id : SymbolId} (plain : directive? text = none)
    (read : wordSymbol text place r = .ok id r') :
    lexemes load none (.word text place spaced :: rest) r =
      lexemes load none rest
        { r' with tokens := r'.tokens.push { symbol := id, place, spaced } } := by
  simp only [lexemes, word, plain, Bind.bind, EStateM.bind, read]
  rfl

end Reading

namespace Vocabulary

/-- The table when `x` has been read. -/
def named : Table := (Table.initial.internVariable "x" "self." "x").2

lemma wordSymbol_x : wordSymbol "x" ⟨1, 1⟩ {} = .ok 112 { table := named } := by
  have new : initial.find? "x" = none := by decide +kernel
  rcases nameSymbol_cases "x" {} with ⟨id, found, -⟩ | ⟨-, run⟩
  · cases new.symm.trans found
  · exact run

lemma wordSymbol_assign (tokens : Array Token) : wordSymbol "=" ⟨1, 3⟩ { table := named, tokens } =
      .ok 41 { table := named, tokens } := by
  have known : named.find? "=" = some 41 := by decide +kernel
  rcases literalSymbol_cases "=" ⟨1, 3⟩ { table := named, tokens } with
    ⟨id, found, run⟩ | ⟨unknown, -⟩
  · cases known.symm.trans found
    exact run
  · cases known.symm.trans unknown

lemma tokens_assignment (library : Library) {source : String} {finish : Place}
    (scanned : Lexeme.scan source = [.word "x" ⟨1, 1⟩ true, .word "=" ⟨1, 3⟩ true,
      .word (String.ofList ('"' :: cs)) place true, .lineEnd finish]) :
    ∃ (x assign string lineEnd : Token) (w : Vocabulary), ({} : Vocabulary).tokens library source =
        (.ok ([x, assign, string, lineEnd] ++
          List.replicate endPadding (Token.endOfInput finish.line)), w) ∧
      (w.table.symbol x.symbol).key = "x" ∧ (w.table.symbol assign.symbol).key = "=" ∧
      w.table.symbol string.symbol =
        { key := String.ofList ('"' :: cs), kind := .string,
          python := Literal.python (Literal.value (String.ofList ('"' :: cs))) } ∧
      lineEnd.isNewline = true ∧ (w.table.symbol lineEnd.symbol).key = "\n" := by
  let literal := String.ofList ('"' :: cs)
  let table := (named.string literal (Literal.python (Literal.value literal))).2
  let tokens : List Token := [⟨112, ⟨1, 1⟩, true, .word⟩, ⟨41, ⟨1, 3⟩, true, .word⟩,
    ⟨named.size, place, true, .word⟩, ⟨newline, finish, true, .newline⟩]
  have unknown : ∀ e ∈ named.index, e.1.toList.head? ≠ some '"' := by decide +kernel
  have plain : Reading.directive? literal = none := by
    have head : literal.toList.head? = some '"' := by simp [literal]
    have other : ∀ d : Directive, literal ≠ d.word := by
      intro d same
      rw [same] at head
      cases d <;> exact absurd head (by decide)
    rw [Reading.directive?, if_neg (other _), if_neg (other _)]
  have read : Reading.source library (Reading.depthBound library) source {} =
      .ok () ⟨{ table }, tokens.toArray⟩ := by
    rw [Reading.depthBound, Reading.source, scanned,
      Reading.lexemes_word (by decide) wordSymbol_x,
      Reading.lexemes_word (by decide) (wordSymbol_assign _),
      Reading.lexemes_word plain (Reading.wordSymbol_quoted _ _ unknown)]
    rfl
  have run : ({} : Vocabulary).tokens library source =
      (.ok (tokens ++ List.replicate endPadding (Token.endOfInput finish.line)), { table }) := by
    rw [Compile.tokens_run]
    split
    case h_1 failed => cases failed.symm.trans read
    case h_2 done =>
      cases done.symm.trans read
      rfl
  have old : ∀ id, id ≠ named.size → table.symbol id = named.symbol id :=
    fun id other => (symbol_push _ _ id).trans (if_neg other)
  refine ⟨_, _, _, _, _, run, ?_, ?_, (symbol_push _ _ _).trans (if_pos rfl), rfl, ?_⟩
  · rw [old 112 (by decide +kernel)]
    decide +kernel
  · rw [old 41 (by decide +kernel)]
    decide +kernel
  · rw [old newline (by decide +kernel)]
    decide +kernel

end Vocabulary

/-- String literals survive translation. -/
theorem string_literals_survive :
    (∀ (library : Library) (value : String), '\n' ∉ value.toList →
      ∃ (x assign string lineEnd : Token) (w : Vocabulary),
        ({} : Vocabulary).tokens library ("x = " ++ Literal.awk value) =
          (.ok ([x, assign, string, lineEnd] ++
            List.replicate endPadding (Token.endOfInput 1)), w) ∧
        (w.table.symbol x.symbol).key = "x" ∧
        (w.table.symbol assign.symbol).key = "=" ∧
        (w.table.symbol string.symbol).key = Literal.awk value ∧
        (w.table.symbol string.symbol).kind = .string ∧
        lineEnd.isNewline = true ∧ (w.table.symbol lineEnd.symbol).key = "\n" ∧
        Python.evaluate (w.table.symbol string.symbol).python = some value) ∧
    ∀ value : String, Python.evaluate (Literal.python value) = some value := by
  refine ⟨fun library value oneLine => ?_, Python.evaluate_literal⟩
  obtain ⟨x, assign, string, lineEnd, w, read, name, equals, symbol, newline⟩ :=
    Vocabulary.tokens_assignment library (Lexeme.scan_assignment oneLine)
  refine ⟨x, assign, string, lineEnd, w, read, name, equals, ?_, ?_, newline.1, newline.2, ?_⟩
  all_goals rw [symbol]
  · rfl
  · change Python.evaluate (Literal.python (Literal.value (Literal.awk value))) = some value
    rw [Literal.value_awk, Python.evaluate_literal]

/-- A value that ends with a backslash, with a quote and a control character inside. -/
theorem string_literals_survive_slashes :
    '\n' ∉ "C:\\\"\x07\\".toList ∧ ∃ (tokens : List Token) (w : Vocabulary),
      ({} : Vocabulary).tokens {} "x = \"C:\\\\\\\"\x07\\\\\"" = (.ok tokens, w) ∧
      ∃ t ∈ tokens, (w.table.symbol t.symbol).kind = .string ∧
        Python.evaluate (w.table.symbol t.symbol).python = some "C:\\\"\x07\\" := by
  have oneLine : '\n' ∉ "C:\\\"\x07\\".toList := by decide
  obtain ⟨x, assign, string, lineEnd, w, read, -, -, -, kind, -, -, value⟩ :=
    string_literals_survive.1 {} "C:\\\"\x07\\" oneLine
  exact ⟨oneLine, _, w, read, string, by simp, kind, value⟩

end AwkToPython
