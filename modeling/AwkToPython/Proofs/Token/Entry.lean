import AwkToPython.Proofs.Namespace
import AwkToPython.Proofs.Table.Interning
import AwkToPython.Proofs.Token.Loading

/-!
# Where tokens come from

Every token is made of one lexeme, by what is known when the lexeme is read. The
entries of a text keep all three, in order and with those of the files that are
read in place.
-/
namespace AwkToPython

variable {es : List Entry} {r r' : Reading} {pending : Option Directive}

/-- The key of a name: a reserved word is its own, any other name has the one of
the namespace that it resolves to. -/
def Vocabulary.effectiveKey (v : Vocabulary) (word : String) : String :=
  if v.table.isReserved word then word
  else (v.registry.resolve word).1.key (v.registry.resolve word).2

namespace Reading

variable {l : Lexeme} {text : String}

variable {α : Type} {library : Library} {r r' r'' : Reading}

/-- A lexeme, what is known when it is read, and the token made of it. -/
structure Entry where
  lexeme : Lexeme
  known : Vocabulary
  token : Token
deriving DecidableEq, Repr

/-- The entries of lexemes; `log` has those of a file that is asked for. -/
def entries (load : String → Read Unit) (log : String → Reading → List Entry) :
    Option Directive → List Lexeme → Reading → List Entry
  | _, [], _ => []
  | pending, l :: rest, r =>
    (match asked pending l with
      | some name => log name r
      | none => ((left (lexeme load pending l r)).tokens.toList.drop r.tokens.size).map
          (Entry.mk l r.toVocabulary)) ++
      match lexeme load pending l r with
      | .ok pending' r' => entries load log pending' rest r'
      | .error _ _ => []

/-- The entries of a file, if it has to be read. -/
def entriesAt (library : Library) (log : String → Reading → List Entry) (name : String)
    (r : Reading) : List Entry :=
  match opened library name r with
  | some (text, r') => log text r'
  | none => []

/-- The entries of a text and of the files that are read in place. -/
def sourceEntries (library : Library) : Nat → String → Reading → List Entry
  | 0, _, _ => []
  | depth + 1, text, r =>
    entries (loadInclude library (source library depth))
      (entriesAt library (sourceEntries library depth)) none (Lexeme.scan text) r

/-- How a token is made of a lexeme, seen from a later table. -/
inductive Made (known : Vocabulary) (t : Table) : Lexeme → Token → Prop
  | name {text place spaced id} (named : Name.isName text = true)
    (found : t.find? (known.effectiveKey text) = some id) :
    Made known t (.word text place spaced) { symbol := id, place, spaced }
  | literal {text place spaced id} (other : Name.isName text = false)
    (found : t.find? text = some id) :
    Made known t (.word text place spaced) { symbol := id, place, spaced }
  | regex {text place spaced} (other : Name.isName text = false)
    (slash : text.toList.head? = some '/') (unknown : known.table.find? text = none)
    (bound : known.table.size < t.size)
    (key : (t.symbol known.table.size).key = "/" ++ regexBody text.toList ++ "/") :
    Made known t (.word text place spaced) { symbol := known.table.size, place, spaced }
  | comment {text place spaced ownLine} (bound : known.table.size < t.size)
    (key : (t.symbol known.table.size).key = text) :
    Made known t (.comment text place spaced ownLine)
      { symbol := known.table.size, place, spaced, role := .comment }
  | lineEnd {place} :
    Made known t (.lineEnd place)
      { symbol := Table.newline, place, spaced := true, role := .newline }

lemma Made.keeps (h : Made known t l token) (keeps : t.Keeps t') : Made known t' l token := by
  cases h with
  | name named found => exact .name named (keeps.find _ _ found)
  | literal other found => exact .literal other (keeps.find _ _ found)
  | regex other slash unknown bound key =>
    exact .regex other slash unknown (Nat.lt_of_lt_of_le bound keeps.size)
      ((keeps.key _ bound).trans key)
  | comment bound key =>
    exact .comment (Nat.lt_of_lt_of_le bound keeps.size) ((keeps.key _ bound).trans key)
  | lineEnd => exact .lineEnd

/-- What is read between two readings: these entries, and no other tokens. -/
structure Logs (r r' : Reading) (es : List Entry) : Prop where
  keeps : r.table.Keeps r'.table
  tokens : r'.tokens.toList = r.tokens.toList ++ es.map (·.token)
  made : ∀ e ∈ es, r.table.Keeps e.known.table ∧ Made e.known r'.table e.lexeme e.token

namespace Logs

lemma nil (table : r'.table = r.table) (tokens : r'.tokens = r.tokens) : Logs r r' [] :=
  ⟨table ▸ .refl _, by rw [tokens]; simp, nofun⟩

lemma append (h : Logs r r' es) (h' : Logs r' r'' es') : Logs r r'' (es ++ es') := by
  refine ⟨h.keeps.trans h'.keeps, by rw [h'.tokens, h.tokens]; simp, fun e mem => ?_⟩
  rcases List.mem_append.mp mem with mem | mem
  · exact ⟨(h.made e mem).1, (h.made e mem).2.keeps h'.keeps⟩
  · exact ⟨h.keeps.trans (h'.made e mem).1, (h'.made e mem).2⟩

/-- The records of namespaces and of files play no part. -/
lemma same (h : Logs r r' es) (table : r1.table = r.table)
    (tokens : r1.tokens = r.tokens) (table' : r1'.table = r'.table)
    (tokens' : r1'.tokens = r'.tokens) : Logs r1 r1' es := by
  refine ⟨?_, ?_, ?_⟩
  · rw [table, table']
    exact h.keeps
  · rw [tokens, tokens']
    exact h.tokens
  · rw [table, table']
    exact h.made

end Logs

/-! ### One lexeme -/

/-- The symbol of a word is found or added, or nothing changes. -/
def Finds (x : Read SymbolId) (text : String) (r : Reading) : Prop :=
  (∃ id r', x r = .ok id r' ∧ r'.tokens = r.tokens ∧
    r'.registry.current = r.registry.current ∧ r.table.Keeps r'.table ∧
    ∀ place spaced, Made r.toVocabulary r'.table (.word text place spaced)
      { symbol := id, place, spaced }) ∨
  ∃ e, x r = .error e r

lemma Finds.congr (same : x r = y r) (h : Finds y text r) : Finds x text r := by
  rwa [Finds, same]

lemma finds_nameSymbol (named : Name.isName text = true) (r : Reading) :
    Finds (nameSymbol text) text r := by
  rcases nameSymbol_cases text r with ⟨id, found, reserved, run⟩ | ⟨free, run⟩
  · refine .inl ⟨id, r, run, rfl, rfl, .refl _, fun place spaced => .name named ?_⟩
    rw [Vocabulary.effectiveKey, if_pos reserved]
    exact found
  · refine .inl ⟨_, _, run, rfl, (r.registry.spaces_meet _).2.2, r.table.keeps_internVariable _ _ _,
      fun place spaced => .name named ?_⟩
    rw [Vocabulary.effectiveKey, if_neg (by simp [free])]
    exact r.table.find?_internVariable _ _ _

/-- A literal that is not known yet is entered under its own spelling. -/
lemma finds_insert (other : Name.isName text = false)
    (unknown : r.table.find? text = none) (key : symbol.key = text) :
    Finds (intern (·.insert symbol)) text r := by
  have found := r.table.find?_insert symbol text
  rw [if_pos key.symm] at found
  exact .inl ⟨_, _, rfl, rfl, rfl, Table.keeps_insert (key ▸ unknown),
    fun _ _ => .literal other found⟩

lemma finds_literalSymbol (other : Name.isName text = false) (place : Place)
    (r : Reading) : Finds (literalSymbol text place) text r := by
  rcases literalSymbol_cases text place r with ⟨id, found, run⟩ | ⟨unknown, run⟩
  · exact .inl ⟨id, r, run, rfl, rfl, .refl _, fun _ _ => .literal other found⟩
  · refine .congr run ?_
    dsimp only [newLiteral]
    split
    · exact finds_insert other unknown rfl
    split
    · exact finds_insert other unknown rfl
    split
    · exact finds_insert other unknown rfl
    split
    case isTrue slash =>
      refine .inl ⟨_, _, rfl, rfl, rfl, r.table.keeps_addRegex _ _, fun _ _ => .regex other ?_
        unknown (r.table.lt_size_addRegex _ _) ?_⟩
      · cases text' : text.toList with
        | nil => simp [text'] at slash
        | cons c cs => simpa [text'] using slash
      · change ((r.table.push _).2.symbol r.table.size).key = _
        rw [Table.symbol_push, if_pos rfl]
    · exact .inr ⟨_, rfl⟩

lemma finds_wordSymbol (text : String) (place : Place) (r : Reading) :
    Finds (wordSymbol text place) text r := by
  rw [wordSymbol]
  split
  case isTrue named => exact finds_nameSymbol named r
  case isFalse other => exact finds_literalSymbol (by simpa using other) place r

/-- A lexeme gives no token and leaves the table alone, or it gives one. -/
def Gives (x : Read α) (l : Lexeme) (r : Reading) : Prop :=
  (left (x r)).table = r.table ∧ (left (x r)).tokens = r.tokens ∨
  ∃ token, r.table.Keeps (left (x r)).table ∧ (left (x r)).tokens = r.tokens.push token ∧
    Made r.toVocabulary (left (x r)).table l token

lemma gives_lexeme (h : asked pending l = none)
    (load : String → Read Unit) (r : Reading) : Gives (lexeme load pending l) l r := by
  cases l with
  | fault fault place => exact .inl ⟨rfl, rfl⟩
  | comment text place spaced ownLine =>
    refine .inr ⟨_, r.table.keeps_push _, rfl, .comment (r.table.lt_size_push _) ?_⟩
    change ((r.table.push _).2.symbol r.table.size).key = text
    rw [Table.symbol_push, if_pos rfl]
  | lineEnd place =>
    cases pending with
    | some directive => exact .inl ⟨rfl, rfl⟩
    | none => exact .inr ⟨_, .refl _, rfl, .lineEnd⟩
  | word text place spaced =>
    simp only [lexeme, word]
    split
    · exact .inl ⟨rfl, rfl⟩
    case h_2 directive plain =>
      split
      case isTrue quoted =>
        cases directive with
        | includeFile => simp [asked, plain, quoted] at h
        | enterNamespace => exact .inl ⟨rfl, rfl⟩
      case isFalse => exact .inl ⟨rfl, rfl⟩
    · simp only [Gives, Bind.bind, EStateM.bind]
      rcases finds_wordSymbol text place r with ⟨id, r1, run, tokens, -, keeps, made⟩ | ⟨e, run⟩
      · rw [run]
        refine .inr ⟨{ symbol := id, place, spaced }, keeps, ?_, made place spaced⟩
        change r1.tokens.push _ = r.tokens.push _
        rw [tokens]
      · rw [run]
        exact .inl ⟨rfl, rfl⟩

lemma Gives.logs (h : Gives x l r) :
    Logs r (left (x r)) (((left (x r)).tokens.toList.drop r.tokens.size).map
      (Entry.mk l r.toVocabulary)) := by
  rcases h with ⟨table, tokens⟩ | ⟨token, keeps, tokens, made⟩
  · rw [tokens, ← Array.length_toList, List.drop_length]
    exact .nil table tokens
  · rw [tokens, Array.toList_push, ← Array.length_toList, List.drop_left]
    refine ⟨keeps, by rw [tokens]; simp, fun e mem => ?_⟩
    rw [List.mem_singleton.mp mem]
    exact ⟨.refl _, made⟩

/-- Outside of directives every lexeme that can be read gives one token. -/
lemma lexeme_plain {load : String → Read Unit}
    (plain : ∀ text place spaced, l = .word text place spaced → directive? text = none)
    (run : lexeme load none l r = .ok pending r') : pending = none ∧
      r'.registry.current = r.registry.current ∧ ∃ token, r'.tokens = r.tokens.push token := by
  cases l with
  | fault fault place => cases run
  | comment text place spaced ownLine | lineEnd place =>
    cases run
    exact ⟨rfl, rfl, _, rfl⟩
  | word text place spaced =>
    simp only [lexeme, word, plain text place spaced rfl, Bind.bind, EStateM.bind] at run
    rcases finds_wordSymbol text place r with ⟨id, r1, found, tokens, current, -⟩ | ⟨e, failed⟩
    · rw [found] at run
      cases run
      exact ⟨rfl, current, { symbol := id, place, spaced }, by rw [← tokens]⟩
    · rw [failed] at run
      cases run

/-! ### Texts -/

section Texts

variable {load : String → Read Unit} {log : String → Reading → List Entry}

/-- A log has the entries of what is read. -/
def Logged (load : String → Read Unit) (log : String → Reading → List Entry) : Prop :=
  ∀ (name : String) (r : Reading), Logs r (left (load name r)) (log name r)

lemma Logged.loadInclude (h : Logged load log) :
    Logged (loadInclude library load) (entriesAt library log) := by
  intro name r
  rw [entriesAt, opened, loadInclude_run]
  cases r.files.addInclude library.tree (library.locate name) with
  | error e => exact .nil rfl rfl
  | ok found =>
    cases found with
    | none => exact .nil rfl rfl
    | some files =>
      cases library.tree.read (library.locate name) with
      | error fault => exact .nil rfl rfl
      | ok text =>
        simp only [left_restoring]
        exact (h text _).same rfl rfl rfl rfl

lemma Logged.lexemes (h : Logged load log) (ls : List Lexeme) (pending : Option Directive)
    (r : Reading) : Logs r (left (lexemes load pending ls r)) (entries load log pending ls r) := by
  induction ls generalizing pending r with
  | nil => cases pending <;> exact .nil rfl rfl
  | cons l rest ih =>
    have first : Logs r (left (lexeme load pending l r)) (match asked pending l with
        | some name => log name r
        | none => ((left (lexeme load pending l r)).tokens.toList.drop r.tokens.size).map
            (Entry.mk l r.toVocabulary)) := by
      cases ask : asked pending l with
      | none => exact (gives_lexeme ask load r).logs
      | some name =>
        rw [left_lexeme_of_asked ask]
        exact h name r
    rw [lexemes_cons, entries]
    simp only [Bind.bind, EStateM.bind]
    refine first.append ?_
    cases lexeme load pending l r with
    | ok pending' r' => exact ih pending' r'
    | error e r' => exact .nil rfl rfl

/-- Without directives there is one entry for each lexeme, in the current namespace. -/
lemma entries_plain
    (plain : ∀ text place spaced, .word text place spaced ∈ ls → directive? text = none)
    (run : AwkToPython.Reading.lexemes load none ls r = .ok () r') :
    (entries load log none ls r).map (·.lexeme) = ls ∧
      ∀ e ∈ entries load log none ls r, e.known.registry.current = r.registry.current := by
  induction ls generalizing r with
  | nil => exact ⟨rfl, nofun⟩
  | cons l rest ih =>
    have quiet : asked none l = none := by
      cases l <;> simp [asked]
    obtain ⟨pending, r1, step, run⟩ := lexemes_cons_ok run
    obtain ⟨rfl, current, token, tokens⟩ := lexeme_plain
      (fun text place spaced same => plain text place spaced (same ▸ List.mem_cons_self)) step
    obtain ⟨same, all⟩ := ih (fun text place spaced mem =>
      plain text place spaced (List.mem_cons_of_mem _ mem)) run
    have first : ((left (lexeme load none l r)).tokens.toList.drop r.tokens.size).map
        (Entry.mk l r.toVocabulary) = [⟨l, r.toVocabulary, token⟩] := by
      rw [step]
      simp [left, tokens, ← Array.length_toList]
    rw [entries, quiet, step]
    dsimp only
    rw [← step, first]
    refine ⟨by rw [List.map_append, same]; rfl, fun e mem => ?_⟩
    rcases List.mem_append.mp mem with mem | mem
    · rw [List.mem_singleton.mp mem]
    · rw [all e mem, current]

lemma logged_source (library : Library) (depth : Nat) :
    Logged (source library depth) (sourceEntries library depth) := by
  induction depth with
  | zero => exact fun _ _ => .nil rfl rfl
  | succ depth ih => exact fun text r => (ih.loadInclude).lexemes (Lexeme.scan text) none r

end Texts

end Reading

end AwkToPython
