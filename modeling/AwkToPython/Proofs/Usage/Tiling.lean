import AwkToPython.Proofs.Lexeme.Tiling
import AwkToPython.Proofs.Usage.Interning

/-!
# Tokens tile their source

In a text without directives and scopes, every token is spelled as its lexeme is: the
key of its symbol is the text that stands at its place. So the tokens of complete lines
are those lines, cut at blanks and between words.
-/
namespace AwkToPython

open List Token Namespace

open Reading (Entry Made)

/-! ### Texts in a source -/

namespace Text

variable {cs : List Char} {known : Vocabulary} {t : Table} {token : Token}

lemma prefix_of_head_lines (head : first ∈ (lines cs).head?) : first <+: cs := by
  fun_induction lines cs generalizing first with
  | case1 => cases head
  | case2 rest ih | case3 rest ih =>
    cases head
    exact nil_prefix
  | case4 c rest other _ none ih =>
    cases head
    exact ⟨rest, rfl⟩
  | case5 c rest other _ first' others found ih =>
    cases head
    exact (prefix_cons_inj c).mpr (ih (by rw [found]; rfl))

lemma infix_of_mem_lines {line : List Char} (mem : line ∈ lines cs) : line <:+: cs := by
  fun_induction lines cs with
  | case1 => cases mem
  | case2 rest ih =>
    rcases mem_cons.mp mem with rfl | mem
    · exact nil_infix
    · exact (ih mem).trans (suffix_cons _ _).isInfix
  | case3 rest ih =>
    rcases mem_cons.mp mem with rfl | mem
    · exact nil_infix
    · exact (ih mem).trans ((suffix_cons _ _).trans (suffix_cons _ _)).isInfix
  | case4 c rest other _ none ih =>
    rw [mem_singleton.mp mem]
    exact ⟨[], rest, rfl⟩
  | case5 c rest other _ first others found ih =>
    rw [found] at ih
    rcases mem_cons.mp mem with rfl | mem
    · have front : first <+: rest := prefix_of_head_lines (by rw [found]; rfl)
      exact ((prefix_cons_inj c).mpr front).isInfix
    · exact (ih (mem_cons_of_mem _ mem)).trans (suffix_cons c rest).isInfix

lemma trim_infix (cs : List Char) : trim cs <:+: cs := by
  have front : trim cs <+: trimStart cs := by
    obtain ⟨blanks, whole, -⟩ := trimEnd_append (trimStart cs)
    exact ⟨blanks, whole.symm⟩
  exact front.isInfix.trans (dropWhile_suffix isBlank).isInfix

end Text

/-- A name without a separator has no scope. -/
lemma Name.qualified?_eq_none {text : String} (unscoped : ¬ separator.toList <:+: text.toList) :
    qualified? text = none := by
  rw [qualified?, Text.cut?]
  cases found : Text.cutChars separator.toList text.toList with
  | none => rfl
  | some parts =>
    refine absurd ?_ unscoped
    rw [Expression.cutChars_spec found]
    exact ⟨parts.1, parts.2, rfl⟩

/-- In the default namespace a name without a scope is its own key. -/
lemma Vocabulary.effectiveKey_eq {v : Vocabulary} {text : String}
    (current : v.registry.current = default) (unscoped : Name.qualified? text = none) :
    v.effectiveKey text = text := by
  have space : v.registry.resolve text = (default, text) := by
    simp [Registry.resolve, Registry.namespaceFor, unscoped, current]
  rw [effectiveKey, space]
  split
  · rfl
  · apply String.toList_inj.mp
    simp [key, keyLead, isDefault]

/-! ### Tokens and their lexemes -/

/-- A word that gives no token but waits for a string. -/
def Lexeme.isDirective : Lexeme → Bool
  | .word text _ _ => (Reading.directive? text).isSome
  | _ => false

/-- The spelling of a token in a table, with its place. -/
def Token.mark (table : Table) (t : Token) : Mark :=
  ⟨(table.symbol t.symbol).key.toList, t.place, t.spaced⟩

/-- The end of a line. -/
def Token.lineEnd (place : Place) : Token :=
  { symbol := Table.newline, place, spaced := true, role := .newline }

/-- A token is spelled as the text that it is made of. -/
lemma Reading.Made.mark_eq {l : Lexeme} (made : Made known t l token) (indexed : t.Indexed)
    (current : known.registry.current = default)
    (divides : ∀ word ∈ ["/", "/="], (known.table.find? word).isSome = true) (text : l.IsText)
    (unscoped : ¬ Name.separator.toList <:+: l.mark.text) :
    token.mark t = l.mark ∧ token.isNewline = false := by
  cases made with
  | @name text' place spaced id named found =>
    refine ⟨?_, rfl⟩
    have key := (indexed.keyed _ _ found).2
    rw [Vocabulary.effectiveKey_eq current (Name.qualified?_eq_none unscoped)] at key
    simp only [Token.mark, Lexeme.mark, key]
  | literal other found =>
    refine ⟨?_, rfl⟩
    simp only [Token.mark, Lexeme.mark, (indexed.keyed _ _ found).2]
  | @regex text' place spaced other slash unknown bound key =>
    refine ⟨?_, rfl⟩
    have no : ∀ word ∈ ["/", "/="], text' ≠ word := by
      rintro word mem rfl
      have some_ := divides text' mem
      rw [unknown] at some_
      cases some_
    rcases text slash with same | same | same
    · exact absurd same (no "/" (by simp))
    · exact absurd same (no "/=" (by simp))
    · simp only [Token.mark, Lexeme.mark, key]
      rw [← same]
  | comment bound key => exact ⟨by simp only [Token.mark, Lexeme.mark, key], rfl⟩
  | lineEnd => cases text

lemma Reading.Made.eq_lineEnd {place : Place}
    (made : Made known t (.lineEnd place) token) : token = Token.lineEnd place := by
  cases made
  rfl

lemma Reading.isFault_of_ok {load : String → Read Unit}
    (run : lexemes load pending ls r = .ok () r') :
    ∀ l ∈ ls, l.isFault = false := by
  induction ls generalizing pending r with
  | nil => nofun
  | cons first rest ih =>
    obtain ⟨pending', r1, step, run⟩ := lexemes_cons_ok run
    refine forall_mem_cons.mpr ⟨?_, ih run⟩
    cases first with
    | fault fault place => cases step
    | _ => rfl

/-! ### Whole sources -/

/-- The tokens of a source: the ones with the number of a line tile it and end with
the end of the line, and all of them stand in the order of their places. -/
structure TilesSource (table : Table) (lines : List (List Char)) (body : List Token) : Prop where
  line : ∀ i line, lines[i]? = some line → ∃ words,
    body.filter (fun t => t.line = i + 1) =
      words ++ [Token.lineEnd ⟨i + 1, Text.byteLength (Text.trim line) + 1⟩] ∧
    (∀ t ∈ words, t.isNewline = false) ∧
    Tiles (i + 1) [] (Text.trim line) (words.map (Token.mark table))
  inside : ∀ t ∈ body, 1 ≤ t.line ∧ t.line ≤ lines.length
  increasing : body.Pairwise fun t t' =>
    t.line < t'.line ∨ t.line = t'.line ∧ t.place.column < t'.place.column

/-- A token of a text or the end of a line, as its lexeme says. -/
def Reading.Entry.Agrees (table : Table) (e : Entry) : Prop :=
  e.lexeme.IsText ∧ e.token.mark table = e.lexeme.mark ∧ e.token.isNewline = false ∨
    ∃ place, e.lexeme = .lineEnd place ∧ e.token = Token.lineEnd place

lemma Reading.Entry.Agrees.text {table : Table} {e : Entry} (h : e.Agrees table)
    (text : e.lexeme.IsText) : e.token.mark table = e.lexeme.mark ∧ e.token.isNewline = false := by
  rcases h with ⟨-, agrees⟩ | ⟨place, lexeme, -⟩
  · exact agrees
  · rw [lexeme] at text
    cases text

lemma Reading.Entry.Agrees.place {table : Table} {e : Entry} (h : e.Agrees table) :
    e.token.place = e.lexeme.mark.place := by
  rcases h with ⟨-, same, -⟩ | ⟨place, lexeme, token⟩
  · exact congrArg Mark.place same
  · rw [lexeme, token]
    rfl

lemma tilesSource_of_agrees {table : Table} {lines : List (List Char)} {es : List Entry}
    (agrees : ∀ e ∈ es, e.Agrees table) (tiles : Lexeme.TileLines 1 lines (es.map (·.lexeme))) :
    TilesSource table lines (es.map (·.token)) := by
  have line : ∀ e ∈ es, e.token.line = e.lexeme.mark.place.line := fun e mem =>
    congrArg Place.line (agrees e mem).place
  refine ⟨fun i text here => ?_, fun t mem => ?_, ?_⟩
  · obtain ⟨ws, same, tiled, texts⟩ := tiles.filter i here
    rw [Nat.add_comm 1 i] at same tiled
    rw [filter_map] at same ⊢
    have rows : es.filter ((fun t : Token => decide (t.line = i + 1)) ∘ fun e => e.token) =
        es.filter ((fun l : Lexeme => decide (l.mark.place.line = i + 1)) ∘ fun e => e.lexeme) :=
      filter_congr fun e mem => by simp only [Function.comp, line e mem]
    obtain ⟨front, back, split, first, second⟩ := map_eq_append_iff.mp same
    obtain ⟨last, rfl, ends⟩ := map_eq_singleton_iff.mp second
    have mem_of : ∀ e ∈ front ++ [last], e ∈ es := fun e mem =>
      (mem_filter.mp (split ▸ mem)).1
    have text_of : ∀ e ∈ front, e.token.mark table = e.lexeme.mark ∧ e.token.isNewline = false :=
      fun e mem => (agrees e (mem_of e (mem_append_left _ mem))).text
        (texts _ (first ▸ mem_map_of_mem mem))
    refine ⟨front.map (·.token), ?_, fun t mem => ?_, ?_⟩
    · rw [rows, split, map_append, map_singleton]
      rcases agrees last (mem_of last (by simp)) with ⟨text, -⟩ | ⟨place, lexeme, token⟩
      · rw [ends] at text
        cases text
      · rw [ends] at lexeme
        cases lexeme
        rw [token]
    · obtain ⟨e, from_, rfl⟩ := mem_map.mp mem
      exact (text_of e from_).2
    · have spelled : front.map (mark table ∘ fun e => e.token) =
          front.map (Lexeme.mark ∘ fun e => e.lexeme) :=
        map_congr_left fun e mem => (text_of e mem).1
      rw [← first, map_map] at tiled
      rw [map_map, spelled]
      exact tiled
  · obtain ⟨e, from_, rfl⟩ := mem_map.mp mem
    have := tiles.line e.lexeme (mem_map_of_mem from_)
    rw [line e from_]
    omega
  · have ordered := tiles.increasing
    rw [map_map, pairwise_map] at ordered
    rw [pairwise_map]
    refine ordered.imp_of_mem fun mem mem' before => ?_
    rw [line _ mem, line _ mem', (agrees _ mem).place, (agrees _ mem').place]
    exact before

/-- The tokens of a text without directives and scopes, whose lines are complete, are
its lines: at each place stands the text of its token, and between tokens are blanks. -/
theorem tokens_tile_the_source (registry : Registry) (files : SourceFiles)
    (steps : List Vocabulary.Step) (library : Library) (source : String)
    (plain : ∀ l ∈ Lexeme.scan source, l.isDirective = false)
    (unscoped : ¬ Name.separator.toList <:+: source.toList)
    (complete : ∀ entry ∈ (Text.lines source.toList).zipIdx 1,
      Lexeme.IsComplete entry.2 entry.1)
    {ts : List Token}
    (read : ((Vocabulary.after { registry, files } steps).tokens library source).1 = .ok ts) :
    ∃ body line, ts = body ++ List.replicate endPadding (Token.endOfInput line) ∧
      TilesSource ((Vocabulary.after { registry, files } steps).tokens library source).2.table
        (Text.lines source.toList) body := by
  have retains := Vocabulary.retains_after { registry, files } steps
  generalize Vocabulary.after { registry, files } steps = v at *
  have logs := Reading.logged_source library (Reading.depthBound library) source v.opening
  rw [Compile.tokens_run] at read ⊢
  split at read
  · cases read
  · rename_i r run
    rw [run] at logs
    cases read
    have tiles := Lexeme.tileLines_scan complete (Reading.isFault_of_ok run)
    obtain ⟨lexemes, current⟩ := Reading.entries_plain
      (fun text place spaced mem => Option.not_isSome_iff_eq_none.mp (by
        simpa [Lexeme.isDirective] using plain _ mem)) run
    have tokens : r.tokens.toList = (v.entries library source).map (·.token) := logs.tokens
    have indexed : r.table.Indexed :=
      (retains.trans logs.keeps.toRetains).indexed Table.initial_indexed
    refine ⟨_, _, rfl, ?_⟩
    rw [tokens]
    refine tilesSource_of_agrees (fun e mem => ?_) (lexemes ▸ tiles)
    obtain ⟨before, made⟩ := logs.made e mem
    rcases tiles.text e.lexeme (lexemes ▸ List.mem_map_of_mem mem) with
      ⟨place, same⟩ | ⟨text, line, there, within⟩
    · exact .inr ⟨place, same, (same ▸ made).eq_lineEnd⟩
    · have divides : ∀ word ∈ ["/", "/="], (e.known.table.find? word).isSome = true := by
        intro word mem
        have first : ∀ word ∈ ["/", "/="], (Table.initial.find? word).isSome = true := by
          decide +kernel
        exact before.known word (retains.known word (first word mem))
      refine .inl ⟨text, made.mark_eq indexed (current e mem) divides text fun found => unscoped ?_⟩
      exact ((found.trans within).trans (Text.trim_infix line)).trans
        (Text.infix_of_mem_lines there)

/-- A comment, an empty line, and a regex behind an operator. -/
theorem tokens_tile_the_source_mixed :
    let source := "x = 1 # y\n\n  !/a b/ ~ -z"
    let v : Vocabulary := {}
    ∃ ts, (v.tokens {} source).1 = .ok ts ∧ ∃ body line,
      ts = body ++ List.replicate endPadding (Token.endOfInput line) ∧
      TilesSource (v.tokens {} source).2.table (Text.lines source.toList) body := by
  intro source v
  have ok : (v.tokens {} source).1.isOk = true := by decide +kernel
  cases read : (v.tokens {} source).1 with
  | error e =>
    rw [read] at ok
    cases ok
  | ok ts =>
    exact ⟨ts, rfl, tokens_tile_the_source Registry.initial {} [] {} source (by decide +kernel)
      (by decide +kernel) (by decide +kernel) read⟩

/-- A line is trimmed before it is scanned. So one that ends with blanks behind a
backslash is joined with the next all the same, and has no end of its own. -/
theorem backslash_before_blanks :
    let source := "a \\ \nb"
    let v : Vocabulary := {}
    (∀ line ∈ Text.lines source.toList, line.getLast? ≠ some '\\') ∧
    (∀ l ∈ Lexeme.scan source, l.isDirective = false) ∧
    ¬ Name.separator.toList <:+: source.toList ∧
    (∀ entry ∈ (Text.lines source.toList).zipIdx 1,
      ∀ l ∈ Lexeme.scanLine entry.2 0 true true (Text.trim entry.1) [], l.isOpenFault = false) ∧
    ∃ ts, (v.tokens {} source).1 = .ok ts ∧ ¬ ∃ body line,
      ts = body ++ List.replicate endPadding (Token.endOfInput line) ∧
      TilesSource (v.tokens {} source).2.table (Text.lines source.toList) body := by
  intro source v
  refine ⟨by decide +kernel, by decide +kernel, by decide +kernel, by decide +kernel, ?_⟩
  have unended : (v.tokens {} source).1.toOption.any
      (fun ts => ts.all fun t => !(t.isNewline && t.line = 1)) = true := by decide +kernel
  cases read : (v.tokens {} source).1 with
  | error e =>
    rw [read] at unended
    cases unended
  | ok ts =>
    rw [read] at unended
    refine ⟨ts, rfl, fun ⟨body, line, same, tiles⟩ => ?_⟩
    obtain ⟨words, ends, -⟩ := tiles.line 0 "a \\ ".toList (by decide +kernel)
    have mem := List.mem_filter.mp (ends ▸ List.mem_append_right words List.mem_cons_self)
    have other := List.all_eq_true.mp unended _ (same ▸ List.mem_append_left _ mem.1)
    simp [Token.lineEnd, Token.isNewline, Token.line] at other

end AwkToPython
