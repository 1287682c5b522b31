import AwkToPython.Proofs.Emission.Basic
import AwkToPython.Proofs.Usage.Loading

/-!
# What is read as it is written

A string is written anew in the program and a name is plain, whatever stands around
them. Three kinds of text are taken as they are: comments, words that are neither
names nor strings, and the names of the namespaces that directives enter. If those
are over a set of characters, reading leaves only symbols that are.
-/
namespace AwkToPython

variable {text : String} {l : Lexeme}

open List Name Literal Lexeme Namespace Text Vocabulary

variable {p : Char → Prop} {dump : Bool}
variable {cs : List Char} {c : Char} {bare body : String} {library : Library}
  {read read' : List Identity} {s : Symbol} {ls : List Lexeme} {v : Vocabulary}

/-! ### Lexemes -/

namespace Lexeme

open Reading (directive?)

/-- The text of a lexeme that may come to stand in the program as it is. Strings are
written anew, unless all words are dumped. -/
def verbatim (dump : Bool) : Lexeme → Option String
  | .comment text .. => some text
  | .word text .. =>
    if !dump && text.toList.head?.any isQuote then none else some text
  | _ => none

/-- The directive that waits for its string after a lexeme. -/
def next (pending : Option Directive) : Lexeme → Option Directive
  | .word text .. => directive? text
  | .lineEnd _ => none
  | _ => pending

/-- The name of the namespace that a lexeme enters. -/
def enters (pending : Option Directive) : Lexeme → Option String
  | .word text .. =>
    if directive? text = none ∧ pending = some .enterNamespace then some (value text)
    else none
  | _ => none

/-- The names of the namespaces that lexemes enter. -/
def entered : Option Directive → List Lexeme → List String
  | _, [] => []
  | pending, l :: rest => (l.enters pending).toList ++ entered (l.next pending) rest

end Lexeme

/-- What the program takes from a text as it is written has no line break. -/
structure Text.Unbroken (dump : Bool) (text : String) : Prop where
  verbatim : ∀ l ∈ scan text, ∀ raw ∈ l.verbatim dump, '\r' ∉ raw.toList
  entered : ∀ name ∈ entered none (scan text),
    '\n' ∉ name.toList ∧ '\r' ∉ name.toList

instance (dump : Bool) (text : String) : Decidable (Unbroken dump text) :=
  decidable_of_iff ((∀ l ∈ scan text, ∀ raw ∈ l.verbatim dump, '\r' ∉ raw.toList) ∧
    ∀ name ∈ entered none (scan text), '\n' ∉ name.toList ∧ '\r' ∉ name.toList)
    ⟨fun h => ⟨h.1, h.2⟩, fun h => ⟨h.1, h.2⟩⟩

/-- A character that ends no line. -/
def isInline (c : Char) : Prop := c ≠ '\n' ∧ c ≠ '\r'

instance : HoldsGraphic isInline := by
  refine ⟨fun c graphic => ?_⟩
  constructor <;>
  · rintro rfl
    exact absurd graphic (by decide)

lemma over_isInline {s : String} (line : '\n' ∉ s.toList) (carriage : '\r' ∉ s.toList) :
    Over isInline s := fun _ mem =>
  ⟨fun same => line (same ▸ mem), fun same => carriage (same ▸ mem)⟩

namespace Lexeme

lemma lines_unbroken (cs : List Char) : ∀ line ∈ lines cs, '\n' ∉ line := by
  fun_induction lines cs with
  | case1 => simp
  | case2 rest ih | case3 rest ih => simpa using ih
  | case4 c rest other _ none ih =>
    have ne : '\n' ≠ c := fun same => other same.symm
    simpa using ne
  | case5 c rest other _ first others found ih =>
    have ne : '\n' ≠ c := fun same => other same.symm
    rw [found] at ih
    intro line mem
    rcases mem_cons.mp mem with rfl | mem
    · simpa [ne] using ih first mem_cons_self
    · exact ih line (mem_cons_of_mem _ mem)

lemma mem_of_mem_trim (h : c ∈ trim cs) : c ∈ cs := by
  rw [trim, trimEnd, mem_reverse] at h
  have back := mem_reverse.mp ((dropWhile_suffix isBlank).subset h)
  exact (dropWhile_suffix isBlank).subset back

lemma mem_of_mem_continued {text : List Char} (h : c ∈ continued text) : c ∈ text := by
  rw [continued] at h
  split at h
  · exact mem_of_mem_dropLast h
  · exact h

/-- The parts of a span are cut from it. -/
lemma splitLead_append (shape : Shape) (text : List Char) :
    (splitLead shape text).1 ++ (splitLead shape text).2 = text := by
  rw [splitLead]
  split
  · exact takeWhile_append_dropWhile
  · rfl

/-- The texts of lexemes are made of characters of the lines they stand in. -/
lemma scanLine_over (number pos : Nat) (first spaced : Bool) (here : ∀ c ∈ rest, p c)
    (there : ∀ line ∈ later, ∀ c ∈ line, p c) :
    ∀ l ∈ scanLine number pos first spaced rest later, ∀ raw ∈ l.verbatim dump, Over p raw := by
  have word : ∀ {text : List Char} {place : Place} {spaced : Bool}, (∀ c ∈ text, p c) →
      ∀ raw ∈ (Lexeme.word (String.ofList text) place spaced).verbatim dump, Over p raw := by
    intro text place spaced h raw mem
    simp only [verbatim] at mem
    split at mem
    · cases mem
    · cases mem
      exact Over.ofList.mpr h
  have silent : ∀ {l : Lexeme}, l.verbatim dump = none → ∀ raw ∈ l.verbatim dump, Over p raw := by
    intro l none raw mem
    rw [none] at mem
    cases mem
  intro l mem
  fun_induction scanLine number pos first spaced rest later with
  | case1 | case6 | case8 =>
    rw [mem_singleton.mp mem]
    exact silent rfl
  | case2 number pos first spaced line later ih =>
    rcases mem_cons.mp mem with rfl | mem
    · exact silent rfl
    · exact ih (fun c inside => there line mem_cons_self c (mem_of_mem_trim inside))
        (fun line inside => there line (mem_cons_of_mem _ inside)) mem
  | case3 number pos first spaced c cs later blank ih =>
    exact ih (fun d inside => here d (mem_cons_of_mem _ inside)) there mem
  | case4 number pos first spaced c cs blank joined ih =>
    exact ih (forall_mem_nil _) (forall_mem_nil _) mem
  | case5 number pos first spaced c cs blank joined line later ih =>
    exact ih (fun c inside => there line mem_cons_self c (mem_of_mem_trim inside))
      (fun line inside => there line (mem_cons_of_mem _ inside)) mem
  | case7 number pos first spaced c cs later here' blank joined span found all comment ih =>
    rcases mem_cons.mp mem with rfl | mem
    · intro raw same
      cases same
      refine Over.ofList.mpr fun d inside => here d ?_
      rcases mem_cons.mp inside with rfl | inside
      · exact mem_cons_self
      · exact mem_cons_of_mem _ (mem_of_mem_take inside)
    · exact ih (forall_mem_nil _) there mem
  | case9 number pos first spaced c cs blank joined span found all word parts isOpen line
      later ih =>
    refine ih (fun d inside => ?_) (fun line inside => there line (mem_cons_of_mem _ inside)) mem
    rcases mem_append.mp inside with inside | inside
    · rcases mem_cons.mp (mem_of_mem_continued inside) with rfl | inside
      · exact here d mem_cons_self
      · exact here d (mem_cons_of_mem _ (mem_of_mem_take inside))
    · exact there line mem_cons_self d inside
  | case10 number pos first spaced c cs later blank joined span found all other parts closed ih =>
    have whole : ∀ d ∈ all, p d := fun d inside => by
      rcases mem_cons.mp inside with rfl | inside
      · exact here d mem_cons_self
      · exact here d (mem_cons_of_mem _ (mem_of_mem_take inside))
    have split := splitLead_append span.shape all
    have lead : ∀ d ∈ parts.1, p d := fun d inside =>
      whole d (split ▸ mem_append_left _ inside)
    have literal : ∀ d ∈ parts.2, p d := fun d inside =>
      whole d (split ▸ mem_append_right _ inside)
    rcases mem_append.mp mem with mem | mem
    · rw [words] at mem
      split at mem
      · rw [mem_singleton.mp mem]
        exact word literal
      · rcases mem_cons.mp mem with rfl | mem
        · exact word fun d inside => lead d (mem_of_mem_trim inside)
        · rw [mem_singleton.mp mem]
          exact word literal
    · exact ih (fun d inside => here d (mem_cons_of_mem _ (mem_of_mem_drop inside))) there mem

lemma scan_unbroken (text : String) :
    ∀ l ∈ scan text, ∀ raw ∈ l.verbatim dump, '\n' ∉ raw.toList := by
  have lines := lines_unbroken text.toList
  rw [scan]
  cases found : Text.lines text.toList with
  | nil => exact forall_mem_nil _
  | cons line later =>
    rw [found] at lines
    intro l mem raw same inside
    refine scanLine_over (p := fun c => c ≠ '\n') 1 0 true true (fun c inside eq => ?_)
      (fun other mem c inside eq => ?_) l mem raw same '\n' inside rfl
    · exact lines line mem_cons_self (eq ▸ mem_of_mem_trim inside)
    · exact lines other (mem_cons_of_mem _ mem) (eq ▸ inside)

end Lexeme

/-! ### Names and literals -/

namespace Text.Over

lemma identifier [HoldsGraphic p] {name : String} (h : isIdentifier name) : Over p name := by
  have inner : ∀ c : Char, isInner c → isGraphic c := by
    intro c inside
    delta isInner Char.isAlphanum Char.isAlpha Char.isUpper Char.isLower Char.isDigit at inside
    simp only [Bool.or_eq_true, Bool.and_eq_true, decide_eq_true_eq, ge_iff_le,
      UInt32.le_iff_toNat_le] at inside
    have same : c.val.toNat = c.toNat := rfl
    simp only [isGraphic, Bool.and_eq_true, decide_eq_true_eq, ne_eq]
    rcases inside with ((low | high) | digit) | rfl
    · simp at low
      omega
    · simp at high
      omega
    · simp at digit
      omega
    · decide
  intro c mem
  refine HoldsGraphic.holds c (inner c ?_)
  rw [isIdentifier] at h
  cases chars : name.toList with
  | nil =>
    rw [chars] at mem
    cases mem
  | cons d rest =>
    rw [chars] at h mem
    simp only [isIdentifierChars, Bool.and_eq_true, all_eq_true] at h
    rcases mem_cons.mp mem with rfl | mem
    · exact isInner_of_isStart h.1
    · exact h.2 c mem

lemma name [HoldsGraphic p] {name : String} (h : isName name) : Over p name := by
  simp only [isName, Bool.or_eq_true] at h
  rcases h with h | h
  · exact identifier h
  · obtain ⟨parts, found⟩ := Option.isSome_iff_exists.mp h
    obtain ⟨cut, both⟩ := Option.filter_eq_some_iff.mp found
    simp only [Bool.and_eq_true] at both
    obtain ⟨⟨before, behind⟩, chars, rfl⟩ := Option.map_eq_some_iff.mp cut
    have whole : name.toList = before ++ separator.toList ++ behind :=
      Expression.cutChars_spec chars
    have separator : Over p separator := .fixed rfl
    intro c mem
    rw [whole] at mem
    rcases mem_append.mp mem with mem | mem
    · rcases mem_append.mp mem with mem | mem
      · exact identifier both.1 c (by simpa using mem)
      · exact separator c mem
    · exact identifier both.2 c (by simpa using mem)

lemma number (h : Over p text) : Over p (Literal.number text) := by
  have unsigned : ∀ cs : List Char, (∀ c ∈ cs, p c) → ∀ c ∈ unsignedNumber cs, p c := by
    intro cs h c mem
    unfold unsignedNumber at mem
    split at mem
    · exact h c mem
    · exact h c mem
    · rcases mem_append.mp mem with mem | mem
      · exact h c (takeWhile_subset _ ((Python.trimZeros_cases _).2.2 c mem))
      · exact h c ((dropWhile_suffix _).subset mem)
  rw [Literal.number]
  split
  case h_1 digits chars =>
    have chars' : ∀ c ∈ '-' :: digits, p c := fun c mem => h c (chars ▸ mem)
    refine ofList.mpr fun c mem => ?_
    rcases mem_cons.mp mem with rfl | mem
    · exact chars' _ mem_cons_self
    · exact unsigned digits (fun d inside => chars' d (mem_cons_of_mem _ inside)) c mem
  case h_2 => exact ofList.mpr (unsigned _ h)

lemma compiledRegex [HoldsGraphic p] (h : Over p body) : Over p (Literal.compiledRegex body) := by
  have guarded : ∀ c ∈ guardQuotes false body.toList, p c := by
    intro c mem
    rcases mem_guardQuotes mem with rfl | mem
    · exact HoldsGraphic.holds _ (by decide)
    · exact h c mem
  have lead : Over p "re.compile(r\"(?:" := .fixed rfl
  have tail : Over p ")\")" := .fixed rfl
  rw [Literal.compiledRegex]
  exact append.mpr ⟨append.mpr ⟨lead, ofList.mpr guarded⟩, tail⟩

lemma regexBody (h : Over p text) : Over p (Reading.regexBody text.toList) := by
  refine ofList.mpr fun c mem => h c ?_
  split at mem
  · exact mem_of_mem_drop (mem_of_mem_dropLast mem)
  · exact mem_of_mem_drop mem

end Text.Over

namespace Namespace

variable {space : Namespace}

lemma pythonLead_over [HoldsGraphic p] (h : Over p space.name) : Over p space.pythonLead := by
  have owner : Over p "self." := .fixed rfl
  have link : Over p "__" := .fixed rfl
  rw [pythonLead]
  split
  · exact owner
  · exact Over.append.mpr ⟨Over.append.mpr ⟨owner, h⟩, link⟩

lemma key_over [HoldsGraphic p] (h : Over p space.name)
    (hb : Over p bare) : Over p (space.key bare) := by
  have separator : Over p separator := .fixed rfl
  rw [key, keyLead]
  split
  · exact Over.append.mpr ⟨.empty, hb⟩
  · exact Over.append.mpr ⟨Over.append.mpr ⟨h, separator⟩, hb⟩

end Namespace

/-- A name resolves to a namespace and a name that are plain, if the current
namespace is. -/
lemma Registry.resolve_over [HoldsGraphic p] {r : Registry} (h : Over p r.current.name)
    {name : String} (named : isName name) :
    Over p (r.resolve name).1.name ∧ Over p (r.resolve name).2 := by
  have awk : Over p default.name := .fixed rfl
  rw [resolve]
  cases found : qualified? name with
  | some parts =>
    obtain ⟨scope, bare⟩ := parts
    obtain ⟨-, both⟩ := Option.filter_eq_some_iff.mp found
    simp only [Bool.and_eq_true] at both
    dsimp only
    refine ⟨?_, .identifier both.2⟩
    split
    · exact awk
    · exact .identifier both.1
  | none =>
    dsimp only
    refine ⟨?_, .name named⟩
    rw [namespaceFor, found]
    dsimp only
    split
    · exact awk
    · exact h

/-! ### Readings -/

/-- All that the words read so far bring into the program is over a set, and with a
dump of the words their keys are, too. -/
structure Vocabulary.Clean (p : Char → Prop) (dump : Bool) (v : Vocabulary) : Prop where
  symbols : ∀ id, (v.table.symbol id).Over p
  keys : dump = true → ∀ id, (v.table.symbol id).key = "\n" ∨ Text.Over p (v.table.symbol id).key
  current : Text.Over p v.registry.current.name

/-- What the program takes as it is from the files that are read has no line break. -/
def Library.Unbroken (library : Library) (dump : Bool) (read : List Identity) : Prop :=
  ∀ path text, library.tree.identity path ∈ read → library.tree.read path = .ok text →
    Text.Unbroken dump text

lemma Library.Unbroken.subset
    (h : library.Unbroken dump read) (sub : read' ⊆ read) : library.Unbroken dump read' :=
  fun path text mem => h path text (sub mem)

namespace Vocabulary.Clean

variable {v : Vocabulary}

lemma table (h : v.Clean p dump) (symbols : ∀ id, (t.symbol id).Over p)
    (keys : v.table.Rekeys p t) : Clean p dump { v with table := t } := by
  refine ⟨symbols, fun all id => ?_, h.current⟩
  rcases keys id with same | legible
  · rw [same]
    exact h.keys all id
  · exact .inr legible

lemma push (h : v.Clean p dump) (hs : s.Over p)
    (hk : dump → Over p s.key) : Clean p dump { v with table := (v.table.push s).2 } := by
  refine ⟨Table.over_push h.symbols hs, fun all id => ?_, h.current⟩
  rw [Table.symbol_push]
  split
  · exact .inr (hk all)
  · exact h.keys all id

lemma insert (h : v.Clean p dump) (hs : s.Over p) (hk : dump → Over p s.key) :
    Clean p dump { v with table := (v.table.insert s).2 } := by
  have pushed := h.push hs hk
  exact ⟨pushed.symbols, pushed.keys, pushed.current⟩

lemma regex [HoldsGraphic p] (h : v.Clean p dump) (hb : Over p body) :
    Clean p dump { v with table := (v.table.regex body).2 } := by
  have slash : Over p "/" := .fixed rfl
  have key : Over p ("/" ++ body ++ "/") :=
    Over.append.mpr ⟨Over.append.mpr ⟨slash, hb⟩, slash⟩
  have initial : Over p (Literal.compiledRegex body) := .compiledRegex hb
  exact h.table (Table.over_addRegex h.symbols _ initial) (Table.rekeys_push key)

lemma internVariable [HoldsGraphic p] (h : v.Clean p dump) {space : Namespace}
    (hs : Over p space.name) (hb : Over p bare) :
    Clean p dump
      { v with table := (v.table.internVariable (space.key bare) space.pythonLead bare).2 } := by
  have key := key_over hs hb
  have underscore : Over p "_" := .fixed rfl
  have initial : Over p emptyValue := .fixed rfl
  have python : Over p (Name.python bare) := by
    rw [Name.python]
    split
    · exact Over.append.mpr ⟨hb, underscore⟩
    · exact hb
  rw [Table.internVariable]
  split
  · exact h
  · exact h.insert (.ofVar rfl (Over.append.mpr ⟨pythonLead_over hs, python⟩)
      initial key) fun _ => key

end Vocabulary.Clean

namespace Reading

variable {α β : Type} {library : Library} {r : Reading} {load : String → Read Unit}
  {pending : Option Directive}

section Maintains

variable {I : Vocabulary → Prop}

/-- After a step an invariant still holds, also if it fails. -/
def Maintains (I : Vocabulary → Prop) (x : Read α) (r : Reading) : Prop :=
  I r.toVocabulary → I (left (x r)).toVocabulary

lemma Maintains.congr (same : x r = y r) (h : Maintains I y r) : Maintains I x r := by
  rwa [Maintains, same]

lemma Maintains.bind {f : α → Read β} (hx : Maintains I x r)
    (hf : ∀ a r', Maintains I (f a) r') : Maintains I (x >>= f) r := by
  intro holds
  have first := hx holds
  simp only [Bind.bind, EStateM.bind]
  cases run : x r with
  | ok a r' =>
    rw [run] at first
    exact hf a r' first
  | error e r' =>
    rw [run] at first
    exact first

lemma maintains_pure (a : α) : Maintains I (pure a : Read α) r := fun holds => holds

lemma maintains_throw (e : Error) : Maintains I (throw e : Read α) r := fun holds => holds

lemma maintains_push (token : Token) : Maintains I (push token) r := fun holds => holds

lemma maintains_intern {add : Table → SymbolId × Table}
    (h : I r.toVocabulary → I { r.toVocabulary with table := (add r.table).2 }) :
    Maintains I (intern add) r := h

/-- A lexeme that asks for no file: a comment, a word, or the name of a namespace. -/
lemma maintains_lexeme (none : asked pending l = none)
    (comment : ∀ text place spaced ownLine, l = .comment text place spaced ownLine →
      Maintains I (intern (·.comment text ownLine)) r)
    (symbol : ∀ text place spaced, l = .word text place spaced →
      Maintains I (wordSymbol text place) r) (enter : ∀ name ∈ l.enters pending, I r.toVocabulary →
      I { r.toVocabulary with registry := r.registry.setCurrent ⟨name⟩ }) :
    Maintains I (lexeme load pending l) r := by
  cases l with
  | fault fault place => exact maintains_throw _
  | comment text place spaced ownLine =>
    exact (comment text place spaced ownLine rfl).bind fun _ _ =>
      (maintains_push _).bind fun _ _ => maintains_pure _
  | lineEnd place =>
    cases pending with
    | some directive => exact maintains_throw _
    | none => exact (maintains_push _).bind fun _ _ => maintains_pure _
  | word text place spaced =>
    simp only [lexeme, word]
    split
    · exact maintains_pure _
    case h_2 directive plain =>
      split
      case isTrue quoted =>
        cases directive with
        | includeFile => simp [asked, plain, quoted] at none
        | enterNamespace =>
          have entered : Maintains I (follow load .enterNamespace (value text)) r :=
            enter (value text) (by simp [enters, plain])
          exact entered.bind fun _ _ => maintains_pure _
      case isFalse =>
        have refused : Maintains I (throw (.lexical (.unquotedName text) place) : Read Unit) r :=
          maintains_throw _
        exact refused.bind fun _ _ => maintains_pure _
    · exact (symbol text place spaced rfl).bind fun _ _ =>
        (maintains_push _).bind fun _ _ => maintains_pure _

end Maintains

lemma tidy_nameSymbol [HoldsGraphic p] (named : isName text) :
    Maintains (Clean p dump) (nameSymbol text) r := by
  rcases nameSymbol_cases text r with ⟨id, -, -, run⟩ | ⟨-, run⟩
  · exact .congr run (maintains_pure id)
  · refine .congr run fun clean => ?_
    obtain ⟨space, bare⟩ := Registry.resolve_over clean.current named
    have met : Clean p dump
        { r.toVocabulary with registry := r.registry.meet (r.registry.resolve text).1 } := by
      refine ⟨clean.symbols, clean.keys, ?_⟩
      rw [Registry.meet]
      split <;> exact clean.current
    exact met.internVariable space bare

lemma unquoted_of_startsNumber (h : startsNumber cs) : isQuote (cs.head?.getD ' ') = false := by
  cases cs with
  | nil => cases h
  | cons c rest =>
    rw [head?_cons, Option.getD_some]
    by_contra quote
    simp only [isQuote, Bool.not_eq_false, Bool.or_eq_true, decide_eq_true_eq] at quote
    rcases quote with rfl | rfl <;> simp [startsNumber, Char.isDigit] at h

/-- A word that is no name is entered as it is, but for strings. -/
lemma tidy_literalSymbol [HoldsGraphic p]
    (raw : ∀ raw ∈ (Lexeme.word text place spaced).verbatim dump, Over p raw) :
    Maintains (Clean p dump) (literalSymbol text place) r := by
  have unquoted : isQuote (text.toList.head?.getD ' ') = false → Over p text := by
    intro head
    refine raw text ?_
    cases chars : text.toList with
    | nil => simp [verbatim, chars]
    | cons c rest =>
      rw [chars, head?_cons, Option.getD_some] at head
      simp [verbatim, chars, head]
  have key : dump → Over p text := fun all => raw text (by simp [verbatim, all])
  rcases literalSymbol_cases text place r with ⟨id, -, run⟩ | ⟨-, run⟩
  · exact .congr run (maintains_pure id)
  refine .congr run ?_
  dsimp only [newLiteral]
  split
  case isTrue digits =>
    have legible := unquoted (unquoted_of_startsNumber digits)
    exact maintains_intern fun clean => clean.insert (.ofOther rfl rfl (.number legible) .empty) key
  split
  case isTrue quote =>
    exact maintains_intern fun clean => clean.insert (.ofOther rfl rfl (.literal _) .empty) key
  case isFalse quote =>
  have legible := unquoted (by simpa using quote)
  split
  case h_1 index _ =>
    have python : Over p s!"self._FLDS[{index}]" := by
      simp (disch := decide)
    exact maintains_intern fun clean => clean.insert (.ofOther rfl rfl python .empty) key
  case h_2 =>
    split
    · exact maintains_intern fun clean => clean.regex (.regexBody legible)
    · exact maintains_throw _

/-- A lexeme that asks for no file. -/
lemma tidy_lexeme [HoldsGraphic p] (none : asked pending l = none)
    (raw : ∀ raw ∈ l.verbatim dump, Over p raw) (names : ∀ name ∈ l.enters pending, Over p name) :
    Maintains (Clean p dump) (lexeme load pending l) r := by
  refine maintains_lexeme none (fun text place spaced ownLine same => ?_)
    (fun text place spaced same => ?_) fun name mem clean => ?_
  · subst same
    have legible := raw text rfl
    exact maintains_intern fun clean =>
      clean.push (.ofOther rfl rfl legible .empty) fun _ => legible
  · subst same
    rw [wordSymbol]
    split
    case isTrue named => exact tidy_nameSymbol named
    case isFalse => exact tidy_literalSymbol raw
  · exact ⟨clean.symbols, clean.keys, names name mem⟩

/-- What waits for its string after a lexeme. -/
lemma lexeme_next (run : lexeme load pending l r = .ok pending' r') :
    pending' = l.next pending := by
  have bound : ∀ {x : Read Unit} {next : Option Directive},
    (do x; return next) r = .ok pending' r' →
      pending' = next := by
    intro x next run
    simp only [Bind.bind, EStateM.bind] at run
    split at run
    · cases run
      rfl
    · cases run
  cases l with
  | fault fault place => cases run
  | comment text place spaced ownLine =>
    cases run
    rfl
  | lineEnd place =>
    cases pending with
    | some directive => cases run
    | none =>
      cases run
      rfl
  | word text place spaced =>
    simp only [lexeme, word] at run
    rw [Lexeme.next]
    cases found : directive? text with
    | some directive =>
      rw [found] at run
      cases run
      rfl
    | none =>
      rw [found] at run
      cases pending with
      | some directive =>
        dsimp only at run
        split at run
        · exact bound run
        · cases run
      | none =>
        simp only [Bind.bind, EStateM.bind] at run
        split at run
        · cases run
          rfl
        · cases run

/-! ### Invariants -/

section Invariant

variable {I : Vocabulary → Prop} {allows : Option Directive → Lexeme → Prop}

/-- Every lexeme is allowed where it stands. -/
def Allowed (allows : Option Directive → Lexeme → Prop) : Option Directive → List Lexeme → Prop
  | _, [] => True
  | pending, l :: rest => allows pending l ∧ Allowed allows (l.next pending) rest

/-- Every lexeme of the files that are read is allowed. -/
def Admits (allows : Option Directive → Lexeme → Prop) (library : Library) (read : List Identity) :
    Prop :=
  ∀ path text, library.tree.identity path ∈ read → library.tree.read path = .ok text →
    Allowed allows none (scan text)

lemma Admits.subset (h : Admits allows library read)
    (sub : read' ⊆ read) : Admits allows library read' :=
  fun path text mem => h path text (sub mem)

/-- What holds whatever lexemes are read, if they are allowed, and whatever the
records of files and the place of a file say. -/
structure Invariant (I : Vocabulary → Prop) (allows : Option Directive → Lexeme → Prop) : Prop where
  files : ∀ v files, I v → I { v with files }
  enter : ∀ v, I v → I { v with registry := { v.registry with current := Namespace.default } }
  back : ∀ v v', I v → I v' →
    I { v' with registry := { v'.registry with current := v.registry.current } }
  step : ∀ {load pending l r}, asked pending l = none → allows pending l →
    I r.toVocabulary → I (left (lexeme load pending l r)).toVocabulary

/-- An invariant is kept by reading files in place. -/
def Hands (I : Vocabulary → Prop) (allows : Option Directive → Lexeme → Prop) (library : Library)
    (load : String → Read Unit) (log : String → Reading → List Identity) : Prop :=
  ∀ (name : String) (r : Reading), I r.toVocabulary → Admits allows library (log name r) →
    I (left (load name r)).toVocabulary

lemma Hands.lexemes {log : String → Reading → List Identity}
    (inv : Invariant I allows) (h : Hands I allows library load log)
    (allowed : Allowed allows pending ls) (holds : I r.toVocabulary)
    (read : Admits allows library ((asks load pending ls r).flatMap fun ask => log ask.1 ask.2)) :
    I (left (lexemes load pending ls r)).toVocabulary := by
  induction ls generalizing pending r with
  | nil => cases pending <;> exact holds
  | cons l rest ih =>
    obtain ⟨here, later⟩ := allowed
    rw [asks, flatMap_append] at read
    -- the first lexeme, which may ask for a file
    have first : I (left (lexeme load pending l r)).toVocabulary := by
      cases ask : asked pending l with
      | none => exact inv.step ask here holds
      | some name =>
        rw [left_lexeme_of_asked ask]
        refine h name r holds (read.subset fun i mem => mem_append_left _ ?_)
        simpa [ask] using mem
    rw [lexemes_cons]
    simp only [Bind.bind, EStateM.bind]
    cases run : lexeme load pending l r with
    | error e r' =>
      rw [run] at first
      exact first
    | ok pending' r' =>
      rw [run] at first read
      obtain rfl := lexeme_next run
      exact ih later first (read.subset (subset_append_right _ _))

lemma Hands.loadInclude {log : String → Reading → List Identity} (inv : Invariant I allows)
    (h : ∀ (text : String) (r : Reading), I r.toVocabulary →
      Allowed allows none (Lexeme.scan text) →
      Admits allows library (log text r) → I (left (load text r)).toVocabulary) :
    Hands I allows library (loadInclude library load) (lexedAt library log) := by
  intro name r holds read
  rw [loadInclude_run]
  rw [lexedAt, opened] at read
  cases added : r.files.addInclude library.tree (library.locate name) with
  | error e => exact holds
  | ok found =>
    cases found with
    | none => exact holds
    | some files =>
      rw [added] at read
      dsimp only
      have noted := inv.files _ files holds
      cases content : library.tree.read (library.locate name) with
      | error fault => exact noted
      | ok text =>
        rw [content] at read
        dsimp only at read
        have inner := h text
          { r with files, registry := { r.registry with current := Namespace.default } }
          (inv.enter _ noted) (read _ text List.mem_cons_self content)
          (read.subset (List.subset_cons_self _ _))
        dsimp only
        rw [left_restoring]
        exact inv.back _ _ holds inner

/-- An invariant is kept by reading a text, if its lexemes and those of its files are
allowed. -/
lemma Invariant.source (inv : Invariant I allows) (library : Library) (depth : Nat) (text : String)
    (r : Reading) (holds : I r.toVocabulary) (allowed : Allowed allows none (scan text))
    (read : Admits allows library (lexed library depth text r)) :
    I (left (source library depth text r)).toVocabulary := by
  induction depth generalizing text r with
  | zero => exact holds
  | succ depth ih => exact Hands.lexemes inv (Hands.loadInclude inv ih) allowed holds read

/-- An invariant is kept by a session that reads a text. -/
lemma Invariant.tokens (inv : Invariant I allows) (holds : I v)
    (allowed : Allowed allows none (Lexeme.scan text))
    (read : Admits allows library (v.lexed library text)) : I (v.tokens library text).2 := by
  have inner := inv.source library (depthBound library) text v.opening
    (inv.enter v holds) allowed read
  rw [Compile.tokens_run]
  split
  case h_1 e r run | h_2 r run =>
    rw [run] at inner
    exact inv.back v _ holds inner

end Invariant

/-- A lexeme has a property, and so has the name of the namespace that it enters. -/
def Bears (own : Lexeme → Prop) (named : String → Prop) (pending : Option Directive) (l : Lexeme) :
    Prop :=
  own l ∧ ∀ name ∈ l.enters pending, named name

lemma allowed_bears {own : Lexeme → Prop} {named : String → Prop}
    (each : ∀ l ∈ ls, own l) (names : ∀ name ∈ entered pending ls, named name) :
    Allowed (Bears own named) pending ls := by
  induction ls generalizing pending with
  | nil => trivial
  | cons l rest ih =>
    rw [entered] at names
    refine ⟨⟨each l mem_cons_self, fun name mem => ?_⟩,
      ih (fun l mem => each l (mem_cons_of_mem _ mem)) fun name mem => ?_⟩
    · exact names name (mem_append_left _ (by simpa using mem))
    · exact names name (mem_append_right _ mem)

/-- A lexeme that hands no line break on. -/
def Unbroken (dump : Bool) : Option Directive → Lexeme → Prop :=
  Bears (fun l => ∀ raw ∈ l.verbatim dump, Text.Over isInline raw) (Text.Over isInline)

lemma invariant_clean : Invariant (Clean isInline dump) (Unbroken dump) := by
  have awk : Over isInline default.name := .fixed rfl
  exact ⟨fun _ _ clean => ⟨clean.symbols, clean.keys, clean.current⟩,
    fun _ clean => ⟨clean.symbols, clean.keys, awk⟩,
    fun _ _ clean clean' => ⟨clean'.symbols, clean'.keys, clean.current⟩,
    fun none unbroken => tidy_lexeme none unbroken.1 unbroken.2⟩

lemma allowed_unbroken (unbroken : Text.Unbroken dump text) :
    Allowed (Unbroken dump) none (scan text) := by
  refine allowed_bears (fun l mem raw same => ?_) fun name mem => ?_
  · exact over_isInline (scan_unbroken text l mem raw same) (unbroken.verbatim l mem raw same)
  · exact over_isInline (unbroken.entered name mem).1 (unbroken.entered name mem).2

end Reading

/-- A text that has no line break to hand on, and whose files have none. -/
lemma Vocabulary.Clean.tokens (clean : v.Clean isInline dump) (unbroken : Text.Unbroken dump text)
    (read : library.Unbroken dump (v.lexed library text)) :
    (v.tokens library text).2.Clean isInline dump :=
  Reading.invariant_clean.tokens clean (Reading.allowed_unbroken unbroken)
    fun path content mem found => Reading.allowed_unbroken (read path content mem found)

end AwkToPython
