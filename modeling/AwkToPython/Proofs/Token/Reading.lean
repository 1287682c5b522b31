import AwkToPython.Proofs.Effect
import AwkToPython.Proofs.Namespace
import AwkToPython.Proofs.Token.Loading
import AwkToPython.Proofs.Token.Spelling
import AwkToPython.Source

/-!
# The tokens that are read

Reading keeps the table in order: whatever text is read, each token has a symbol
that suits its role, and no new symbol is spelled like a mark. So the session in
which a source is compiled is sound.
-/
namespace AwkToPython

open AwkToPython.Symbol List Token Literal Session Reading Namespace

open Python (IsComment IsPlain)

variable {s : Symbol} {name : String} {t : Table} {v : Vocabulary} {ts : List Token}

/-- A proper table with the marks at their places, in which every symbol has the
Python text of its own name and none that of a variable of a function. -/
structure Table.Good (t : Table) : Prop where
  proper : t.Proper
  marked : t.Marked
  coined : ∀ id, (t.symbol id).Coined

instance (s : Symbol) : Decidable s.Regular :=
  decidable_of_iff ((∀ e ∈ marks ++ binaryOperators, e.keyed = true →
      s.key = e.symbol.key → s.kind = e.symbol.kind) ∧
    (∀ e ∈ keywords, s.kind = e.symbol.kind → s.python = e.symbol.python) ∧
    s.isPaired = true ∧ (s.isBinary = true → 3 ≤ s.awkLevel ∧
      (s.kind = .binary .arithmetic ∨ 5 ≤ s.awkLevel)) ∧
    (s.kind.beginsText = true → IsPlain s.python) ∧
    (s.kind = .string → s.python.toList.head? = some '"') ∧
    (s.kind.joins = true → Python.startsCut s.python = true ∧ Python.endsCut s.python = true ∧
      (s.kind = .binary .assign →
        s.python.toList.all (fun c => !Python.inHelper c) = true)))
    ⟨fun h => ⟨h.1, h.2.1, h.2.2.1, h.2.2.2.1, h.2.2.2.2.1, h.2.2.2.2.2.1, h.2.2.2.2.2.2⟩,
      fun h => ⟨h.1, h.2, h.3, h.4, h.5, h.6, h.7⟩⟩

lemma Reading.head_literal (value : String) : (Literal.python value).toList.head? = some '"' := by
  rw [Literal.python, String.toList_ofList]
  rfl

namespace Table

variable {t : Table}

lemma Good.size (h : t.Good) : newline < t.size := Nat.lt_of_lt_of_le (by decide) h.marked.size

lemma Good.ends (h : t.Good) : (t.symbol endOfInput).kind = .endOfInput :=
  kind_of_word (h.marked.word _ (by decide)) (by decide) (by simp)

lemma Good.line (h : t.Good) : (t.symbol newline).kind = .terminator true true :=
  kind_of_word (h.marked.word _ (by decide)) (by decide) (by simp)

lemma mem_of_find {key : String} {id : SymbolId} (h : t.find? key = some id) :
    (key, id) ∈ t.index := by
  obtain ⟨before, behind, same, -⟩ := lookup_eq_some_iff.mp h
  rw [same]
  simp

/-- What holds of every initial entry holds of every symbol of the initial table. -/
lemma initial_symbol {P : Symbol → Prop} (all : ∀ e ∈ initialEntries, P e.symbol)
    (id : SymbolId) : P (initial.symbol id) := by
  rw [symbol, Array.getD_eq_getD_getElem?]
  cases found : initial.entries[id]? with
  | none =>
    exact all ⟨.endOfInput, false⟩ (by simp [initialEntries, marks])
  | some symbol =>
    have mem : symbol ∈ initialEntries.map (·.symbol) :=
      mem_of_getElem? (by simpa [initial] using found)
    obtain ⟨e, he, rfl⟩ := mem_map.mp mem
    exact all e he

/-- The built-in variables are names of two namespaces. -/
lemma initial_coined : ∀ e ∈ initialEntries, e.symbol.Coined := by
  have global : ∀ e ∈ initialEntries, e.symbol.isGlobal := by decide +kernel
  have named : ∀ e ∈ initialEntries, e.symbol.kind.isDefinable →
      ∃ space ∈ [default, provided],
        ∃ bare ∈ builtInScalars ++ builtInArrays ++ providedScalars,
          Name.isIdentifier bare ∧ e.symbol.key = space.key bare ∧
            e.symbol.python = space.pythonName bare := by decide +kernel
  have regex : ∀ e ∈ initialEntries, e.symbol.kind ≠ .regex := by decide +kernel
  refine fun e mem => ⟨global e mem, fun definable => ?_, fun same => absurd same (regex e mem)⟩
  obtain ⟨space, -, bare, -, names⟩ := named e mem definable
  exact .inl ⟨space, bare, names⟩

lemma initial_good : initial.Good := by
  have all : ∀ e ∈ initialEntries, e.symbol.Regular := by decide +kernel
  have exclusive : ∀ e ∈ initialEntries, e.symbol.isExclusive := by decide +kernel
  have index : ∀ p ∈ initial.index, p.2 < initial.size := by decide +kernel
  exact ⟨⟨initial_symbol (P := fun s => s.isExclusive) exclusive, initial_symbol all,
      (fun _ mem => nomatch mem), by decide +kernel, fun key id h => index _ (mem_of_find h)⟩,
    initial_marked, initial_symbol initial_coined⟩

/-- A symbol of a new kind under a key that is not known yet. -/
lemma Good.fits_new (h : t.Good) (unknown : t.find? s.key = none)
    (kind : ∀ e ∈ keywords, s.kind ≠ e.symbol.kind) (paired : s.isPaired)
    (joins : s.kind.joins = false) (exclusive : s.isExclusive) (plain : IsPlain s.python)
    (coined : s.Coined) (spelled : s.Spelled) (primed : s.isPrimed)
    (builtIn : s.isBuiltIn = false) (function : s.isFunction = false) : s.Fits := by
  have operand : s.isBinary = false := by
    cases hk : s.kind <;> simp_all [isBinary, SymbolKind.joins]
  refine ⟨⟨fun e he keyed key => ?_, fun e he same => absurd same (kind e he), paired,
    by simp [operand], fun _ => plain, fun string => ?_, by simp [joins]⟩, exclusive, coined,
    primed, builtIn, spelled, function⟩
  · have found := h.proper.marks e he keyed
    rw [← key, unknown] at found
    cases found
  · obtain ⟨value, same⟩ := spelled.literal string
    rw [same]
    exact head_literal value

lemma Good.grows (h : t.Good) (g : t.Grows t') : t'.Good := by
  refine ⟨g.proper h.proper, h.marked.grows g, fun id => ?_⟩
  rcases Nat.lt_or_ge id t.size with old | new
  · exact (h.coined id).of_word (g.word id old)
  · rcases Nat.lt_or_ge id t'.size with inside | outside
    · exact g.fresh id new inside
    · rw [symbol_of_size_le outside]
      exact coined_endOfInput

lemma grows_insert (t : Table) (fits : s.Fits) (regex : s.kind ≠ .regex)
    (apart : t.Orderly → s.isVariable → s.key ∉ Name.sharedKeywords) : t.Grows (t.insert s).2 :=
  grows_add (gains_insert t s) fits fun h => h.add (gains_insert t s) rfl rfl regex (apart h)

lemma isPlain_pythonLead (space : Namespace) : IsPlain space.pythonLead := by
  rw [pythonLead]
  split
  · decide
  · exact (IsPlain.append (by decide) _).append _

lemma head_pythonLead (space : Namespace) : space.pythonLead.toList.head? = some 's' := by
  rw [pythonLead]
  split <;> simp

lemma Good.grows_internVariable (h : t.Good) (space : Namespace)
    (identifier : Name.isIdentifier name) :
    t.Grows (t.internVariable (space.key name) space.pythonLead name).2 ∧
      (t.internVariable (space.key name) space.pythonLead name).1 <
        (t.internVariable (space.key name) space.pythonLead name).2.size := by
  rw [internVariable]
  cases found : t.find? (space.key name) with
  | some id => exact ⟨.refl t, h.proper.valid _ id found⟩
  | none =>
    have head : (space.pythonLead ++ Name.python name).toList.head? = some 's' := by
      rw [String.toList_append, head?_append, head_pythonLead]
      rfl
    refine ⟨grows_insert t (h.fits_new found (by simp [keywords, keywordEntry])
      rfl rfl rfl ((isPlain_pythonLead space).append _)
      ⟨isGlobal_of_head head (by decide),
        fun _ => .inl ⟨space, name, identifier, rfl, rfl⟩, nofun⟩
      (spelled_of_head (by simp) head (by decide))
      (by simp [isPrimed, emptyValue]) rfl rfl) (by simp)
      fun orderly _ word => ?_, by simp [Table.insert, Table.size]⟩
    · have known := orderly.reserved _ word
      rw [found] at known
      cases known

end Table

/-- A reading whose tokens so far are sound. -/
structure Reading.Good (r : Reading) : Prop where
  table : r.table.Good
  tokens : ∀ t ∈ r.tokens, t.Sound r.table

namespace Reading

variable {post : α → Reading → Prop} {x : Read α} {text : String} {load : String → Read Unit}

variable {α β : Type} {r : Reading}

lemma Good.grow (h : r.Good) (grows : r.table.Grows t) : Good { r with table := t } :=
  ⟨h.table.grows grows, fun token mem => (h.tokens token mem).grows grows⟩

/-- The table has only grown, and the reading is good. -/
structure Comes (r r' : Reading) : Prop where
  good : r'.Good
  table : r.table.Grows r'.table

lemma Comes.refl (h : r.Good) : r.Comes r := ⟨h, .refl _⟩

/-- Whatever its outcome, a step leaves a good reading behind; its result has a
property. -/
def Leads (x : Read α) (post : α → Reading → Prop) (r : Reading) : Prop :=
  match x r with
  | .ok a r' => r.Comes r' ∧ post a r'
  | .error _ r' => r.Comes r'

lemma Leads.congr {x y : Read α} {post : α → Reading → Prop} (same : x r = y r)
    (h : Leads y post r) : Leads x post r := by
  rwa [Leads, same]

lemma Leads.bind {x : Read α} {f : α → Read β} {post : α → Reading → Prop}
    {post' : β → Reading → Prop} (hx : Leads x post r)
    (hf : ∀ a r', r'.Good → post a r' → Leads (f a) post' r') : Leads (x >>= f) post' r := by
  cases h : x r with
  | ok a r' =>
    rw [Leads, h] at hx
    have later := hf a r' hx.1.good hx.2
    rw [Leads] at later ⊢
    simp only [Bind.bind, EStateM.bind, h]
    cases h' : f a r' with
    | ok b r'' =>
      rw [h'] at later
      exact ⟨⟨later.1.good, hx.1.table.trans later.1.table⟩, later.2⟩
    | error e r'' =>
      rw [h'] at later
      exact ⟨later.good, hx.1.table.trans later.table⟩
  | error e r' =>
    rw [Leads, h] at hx
    rw [Leads]
    simpa only [Bind.bind, EStateM.bind, h] using hx

/-- Steps that leave the table and the tokens alone. -/
lemma Comes.note (h : r.Good) (same : v.table = r.table) :
    r.Comes { r with toVocabulary := v } := by
  refine ⟨⟨?_, ?_⟩, ?_⟩
  · exact same ▸ h.table
  · rw [same]
    exact h.tokens
  · rw [same]
    exact .refl _

/-- The same, with a step before that leaves them alone. -/
lemma Leads.noted {x y : Read α} {post : α → Reading → Prop}
    (h : Leads y post { r with toVocabulary := v }) (same : v.table = r.table)
    (run : x r = y { r with toVocabulary := v }) : Leads x post r := by
  rw [Leads] at h ⊢
  rw [run]
  cases hr : y { r with toVocabulary := v } with
  | ok a r' =>
    rw [hr] at h
    exact ⟨⟨h.1.good, same ▸ h.1.table⟩, h.2⟩
  | error e r' =>
    rw [hr] at h
    exact ⟨h.good, same ▸ h.table⟩

/-- A symbol that the table holds. -/
def Holds (id : SymbolId) (r : Reading) : Prop := id < r.table.size

lemma intern_leads {add : Table → SymbolId × Table} (h : r.Good)
    (grows : r.table.Grows (add r.table).2) (inside : (add r.table).1 < (add r.table).2.size) :
    Leads (intern add) Holds r :=
  ⟨⟨h.grow grows, grows⟩, inside⟩

lemma internVariable_leads (h : r.Good) (space : Namespace) (identifier : Name.isIdentifier name) :
    Leads (intern (·.internVariable (space.key name) space.pythonLead name)) Holds r := by
  obtain ⟨grows, inside⟩ := h.table.grows_internVariable space identifier
  exact intern_leads h grows inside

lemma insert_leads (h : r.Good) {symbol : Symbol} (fits : symbol.Fits)
    (regex : symbol.kind ≠ .regex) (other : symbol.isVariable = false) :
    Leads (intern (·.insert symbol)) Holds r :=
  intern_leads h (Table.grows_insert _ fits regex (by simp [other]))
    (by simp [Table.insert, Table.size])

lemma regex_leads (h : r.Good) (body : String) : Leads (intern (·.regex body)) Holds r :=
  intern_leads h (Table.grows_regex r.table body)
    (by simp [Table.regex, Table.addRegex, Table.push, Table.size])

lemma comment_leads (h : r.Good) (comment : IsComment text) (ownLine : Bool) :
    Leads (intern (·.comment text ownLine))
      (fun id r' => Holds id r' ∧ (r'.table.symbol id).python = text) r := by
  have fits : Fits { key := text, kind := .comment ownLine, python := text } := by
    refine ⟨⟨fun e he _ key => absurd ?_ (mark_key e he).1, by
      simp [keywords, keywordEntry], rfl, nofun, nofun, nofun, nofun⟩, rfl,
      coined_of_isGlobal (isGlobal_of_head comment (by decide)) rfl nofun, rfl, rfl,
      spelled_of_head (by simp) comment (by decide), rfl⟩
    rw [← key]
    exact comment
  have gains := Table.gains_push r.table { key := text, kind := .comment ownLine, python := text }
  have grows := Table.grows_add gains fits fun h => h.add gains rfl rfl (by simp)
    (by simp [isVariable, variableUse?])
  refine ⟨⟨h.grow grows, grows⟩, ?_, ?_⟩
  · change r.table.size < ((r.table.push _).2).size
    simp [Table.push, Table.size]
  · change ((r.table.push _).2.symbol r.table.size).python = text
    rw [Table.symbol_push, if_pos rfl]

lemma isPlain_literal (value : String) : IsPlain (Literal.python value) := by
  rw [IsPlain, Literal.python, String.toList_ofList]
  exact Python.plainStart_cons (by decide)

lemma nameSymbol_leads (h : r.Good) (named : Name.isName text) :
    Leads (nameSymbol text) Holds r := by
  rcases nameSymbol_cases text r with ⟨id, found, -, run⟩ | ⟨-, run⟩
  · exact .congr run ⟨.refl h, h.table.proper.valid text id found⟩
  · refine .congr run ?_
    have identifier := r.registry.isIdentifier_resolve named
    revert identifier
    rcases r.registry.resolve text with ⟨space, bare⟩
    intro identifier
    exact (internVariable_leads (r := { r with registry := r.registry.meet space })
      ⟨h.table, h.tokens⟩ space identifier).noted rfl rfl

lemma literalSymbol_leads (h : r.Good) (number : startsNumber text.toList →
      startsNumeral (number text).toList) (place : Place) :
    Leads (literalSymbol text place) Holds r := by
  rcases literalSymbol_cases text place r with ⟨id, found, run⟩ | ⟨unknown, run⟩
  · exact .congr run ⟨.refl h, h.table.proper.valid text id found⟩
  · refine .congr run ?_
    dsimp only [newLiteral]
    split
    case isTrue starts =>
      obtain ⟨c, head, ne, quote⟩ := head_ne_of_startsNumeral (number starts)
      exact insert_leads h (h.table.fits_new unknown
        (by simp [keywords, keywordEntry]) rfl rfl rfl
        (isPlain_of_startsNumeral (number starts))
        (coined_of_isGlobal (isGlobal_of_head head ne) rfl (by simp))
        (spelled_of_head (by simp) head quote) rfl rfl rfl) (by simp) rfl
    · split
      · exact insert_leads h (h.table.fits_new unknown
          (by simp [keywords, keywordEntry]) rfl rfl rfl (isPlain_literal _)
          (coined_of_isGlobal (isGlobal_of_head (head_literal _) (by decide)) rfl
            (by simp)) ⟨fun _ => ⟨_, rfl⟩, by simp⟩ rfl rfl rfl) (by simp) rfl
      · split
        · exact insert_leads h (h.table.fits_new unknown
            (by simp [keywords, keywordEntry]) rfl rfl rfl
            ((IsPlain.append (by decide) _).append _)
            (coined_of_isGlobal
              (isGlobal_of_head (c := 's') (by simp [toString]) (by decide)) rfl (by simp))
            (spelled_of_head (c := 's') (by simp) (by simp [toString]) (by decide))
            rfl rfl rfl) (by simp) rfl
        · split
          · exact regex_leads h _
          · exact .refl h

lemma wordSymbol_leads (h : r.Good) (number : startsNumber text.toList →
      startsNumeral (number text).toList) (place : Place) :
    Leads (wordSymbol text place) Holds r := by
  rw [wordSymbol]
  split
  case isTrue named => exact nameSymbol_leads h named
  case isFalse => exact literalSymbol_leads h number place

lemma push_leads (h : r.Good) (token : Token) (sound : token.Sound r.table) :
    Leads (push token) (fun _ _ => True) r := by
  refine ⟨⟨⟨h.table, fun t ht => ?_⟩, .refl _⟩, trivial⟩
  rcases Array.mem_push.mp ht with ht | rfl
  · exact h.tokens t ht
  · exact sound

/-- Reading other files keeps the reading good. -/
def Loads (load : String → Read Unit) : Prop :=
  ∀ name r, r.Good → Leads (load name) (fun _ _ => True) r

lemma follow_leads (hl : Loads load) (h : r.Good) (directive : Directive) (name : String) :
    Leads (follow load directive name) (fun _ _ => True) r := by
  cases directive with
  | enterNamespace => exact ⟨.note h rfl, trivial⟩
  | includeFile => exact hl name r h

lemma word_leads (hl : Loads load) (h : r.Good) (pending : Option Directive)
    (number : startsNumber text.toList → startsNumeral (number text).toList) (place : Place)
    (spaced : Bool) : Leads (word load pending text place spaced) (fun _ _ => True) r := by
  unfold word
  split
  · exact ⟨.refl h, trivial⟩
  · split
    · exact (follow_leads hl h _ _).bind fun _ _ h' _ => ⟨.refl h', trivial⟩
    · exact .refl h
  · refine (wordSymbol_leads h number place).bind fun id r' h' inside => ?_
    refine (push_leads h' { symbol := id, place, spaced } ?_).bind
      fun _ _ h'' _ => ⟨.refl h'', trivial⟩
    exact ⟨inside, by simp [isNewline], by simp [isComment], h'.table.proper.regular id⟩

lemma lexemes_leads (hl : Loads load)
    (spelled : ∀ l ∈ ls, l.IsSpelled) (pending : Option Directive) (h : r.Good) :
    Leads (lexemes load pending ls) (fun _ _ => True) r := by
  induction ls generalizing pending r with
  | nil => exact ⟨.refl h, trivial⟩
  | cons l rest ih =>
    have later : ∀ l ∈ rest, l.IsSpelled := fun l mem => spelled l (mem_cons_of_mem _ mem)
    cases l with
    | fault fault place => cases pending <;> exact .refl h
    | comment text place spaced ownLine =>
      have comment : IsComment text := spelled _ mem_cons_self
      have step : Leads (do
          let symbol ← intern (·.comment text ownLine)
          push { symbol, place, spaced, role := .comment }
          lexemes load pending rest) (fun _ _ => True) r := by
        refine (comment_leads h comment ownLine).bind fun id r' h' found => ?_
        refine (push_leads h' { symbol := id, place, spaced, role := .comment } ?_).bind
          fun _ _ h'' _ => ih later pending h''
        exact ⟨found.1, by simp [isNewline], fun _ => found.2 ▸ comment, h'.table.proper.regular id⟩
      cases pending <;> exact step
    | lineEnd place =>
      cases pending with
      | some directive => exact .refl h
      | none =>
        refine (push_leads h { symbol := Table.newline, place, spaced := true, role := .newline }
          ?_).bind fun _ _ h' _ => ih later none h'
        exact ⟨h.table.size, fun _ => h.table.line, by simp [isComment], h.table.proper.regular _⟩
    | word text place spaced =>
      have step : Leads (do lexemes load (← word load pending text place spaced) rest)
          (fun _ _ => True) r :=
        (word_leads hl h pending (spelled _ mem_cons_self) place spaced).bind
          fun pending' _ h' _ => ih later pending' h'
      cases pending <;> exact step

lemma inDefaultNamespace_leads {x : Read Unit} (hx : ∀ r, r.Good → Leads x (fun _ _ => True) r)
    (h : r.Good) : Leads (inDefaultNamespace x) (fun _ _ => True) r := by
  let entered : Reading := { r with registry := { r.registry with current := Namespace.default } }
  have inner := hx entered ⟨h.table, h.tokens⟩
  have run : inDefaultNamespace x r = restoring x (fun r' => { r' with
      registry := { r'.registry with current := r.registry.current } }) entered := rfl
  rw [Leads] at inner ⊢
  rw [run, restoring]
  cases hr : x entered with
  | ok a r' =>
    rw [hr] at inner
    exact ⟨⟨⟨inner.1.good.table, inner.1.good.tokens⟩, inner.1.table⟩, trivial⟩
  | error e r' =>
    rw [hr] at inner
    exact ⟨⟨inner.good.table, inner.good.tokens⟩, inner.table⟩

lemma loadInclude_leads (library : Library) {source : String → Read Unit} (hs : Loads source) :
    Loads (loadInclude library source) := by
  intro name r h
  rw [loadInclude]
  change Leads (liftExcept (r.files.addInclude library.tree (library.locate name)) >>= _) _ r
  cases r.files.addInclude library.tree (library.locate name) with
  | error e => exact .refl h
  | ok files =>
    cases files with
    | none => exact ⟨.refl h, trivial⟩
    | some files =>
      cases read : library.tree.read (library.locate name) with
      | error fault =>
        have failed : Leads (throw (.unreadable (library.locate name) fault) : Read Unit)
            (fun _ _ => True) { r with files } := .refl ⟨h.table, h.tokens⟩
        exact failed.noted rfl rfl
      | ok text =>
        have entered : Leads (inDefaultNamespace (source text)) (fun _ _ => True)
          { r with files } :=
          inDefaultNamespace_leads (hs _) ⟨h.table, h.tokens⟩
        exact entered.noted rfl rfl

lemma source_leads (library : Library) (depth : Nat) : Loads (source library depth) := by
  induction depth with
  | zero => exact fun text r h => .refl h
  | succ depth ih =>
    intro text r h
    exact lexemes_leads (loadInclude_leads library ih) (Lexeme.scan_spelled text) none h

end Reading

lemma Table.Good.endOfInput (h : t.Good) (line : Nat) : (Token.endOfInput line).Sound t :=
  ⟨Nat.lt_of_le_of_lt (show Table.endOfInput ≤ Table.newline by decide) h.size,
    by simp [Token.endOfInput, Token.isNewline],
    by simp [Token.endOfInput, Token.isComment], h.proper.regular _⟩

lemma Vocabulary.tokens_sound (h : v.table.Good) (library : Library) (text : String) :
    (v.tokens library text).2.table.Good ∧ v.table.Grows (v.tokens library text).2.table ∧
      ∀ ts, (v.tokens library text).1 = .ok ts →
      (∀ t ∈ ts, t.Sound (v.tokens library text).2.table) ∧
        ∃ line, ts.getLast? = some (endOfInput line) := by
  have leads := inDefaultNamespace_leads
    (source_leads library (depthBound library) text) (r := { v with }) ⟨h, by simp⟩
  rw [Leads] at leads
  rw [Vocabulary.tokens]
  split at leads
  case h_1 r run =>
    rw [run]
    refine ⟨leads.1.good.table, leads.1.table, fun ts same => ?_⟩
    cases same
    refine ⟨fun t mem => ?_, _, by rw [endPadding, getLast?_append]; rfl⟩
    rcases mem_append.mp mem with mem | mem
    · exact leads.1.good.tokens t (by simpa using mem)
    · rw [eq_of_mem_replicate mem]
      exact leads.1.good.table.endOfInput _
  case h_2 r run =>
    rw [run]
    exact ⟨leads.good.table, leads.table, nofun⟩

/-- A session is sound at the start of a stream that closes with an end of input. -/
lemma Session.Sound.ofTokens {s : Session} (h : s.table.Good)
    (sound : ∀ t ∈ ts, t.Sound s.table) (line : Nat) (last : ts.getLast? = some (endOfInput line)) :
    Sound { s with cursor := Cursor.ofTokens ts } := by
  cases ts with
  | nil => cases last
  | cons first rest =>
    have ending : (Cursor.ofTokens (first :: rest)).last = endOfInput line := by
      rw [Cursor.ofTokens, Cursor.settle_last, ← getLastD_cons (a := first),
        getLastD_eq_getLast?, last]
      rfl
    refine ⟨h.marked, h.proper, fun t mem =>
      sound t (List.IsSuffix.subset (Cursor.settle_tokens_suffix _ _ _ _ _) mem),
      fun t mem => ?_, fun t mem => ?_, ?_, ?_⟩
    · rcases Cursor.settle_comments _ _ _ _ _ mem with mem | mem
      · cases mem
      · exact ⟨sound t mem.1, mem.2⟩
    · rw [Cursor.ofTokens, Cursor.settle_prior] at mem
      cases mem
    · rw [ending]
      rfl
    · rw [ending]
      exact h.ends

/-- Whatever text is read into a good table, compiling it starts in a sound
session. -/
lemma Session.Sound.of_read {s : Session} (h : s.table.Good) {text : String}
    (read : (s.toVocabulary.tokens s.options.library text).1 = .ok ts) :
    Sound { s with
      toVocabulary := (s.toVocabulary.tokens s.options.library text).2
      cursor := Cursor.ofTokens ts } := by
  obtain ⟨good, -, sound⟩ := Vocabulary.tokens_sound h s.options.library text
  obtain ⟨tokens, line, last⟩ := sound ts read
  exact Sound.ofTokens (s := { s with toVocabulary := _ }) good tokens line last

/-- The token of a word that every table holds. -/
def Token.ofWord (word : String) : Token :=
  { symbol := (Table.initial.find? word).getD Table.endOfInput, place := ⟨1, 1⟩, spaced := true }

/-- A session at the start of a text made of such words. -/
def Session.ofWords (words : List String) : Session :=
  { cursor := Cursor.ofTokens (words.map Token.ofWord ++ [Token.endOfInput 1]) }

lemma Session.ofWords_sound (words : List String) : (ofWords words).Sound := by
  have good : Table.Good ({} : Session).table := Table.initial_good
  refine Sound.ofTokens (s := {}) good (fun t mem => ?_) 1 (by simp)
  rcases mem_append.mp mem with mem | mem
  · obtain ⟨word, -, rfl⟩ := mem_map.mp mem
    refine ⟨?_, by simp [ofWord, isNewline], by simp [ofWord, isComment],
      good.proper.regular _⟩
    rw [ofWord]
    cases found : Table.initial.find? word with
    | none => exact (good.endOfInput 1).valid
    | some id => exact good.proper.valid word id found
  · rw [mem_singleton.mp mem]
    exact good.endOfInput 1

end AwkToPython
