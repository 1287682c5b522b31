import AwkToPython.Proofs.Python.Number
import AwkToPython.Proofs.Usage.Item

/-!
# What sources and presets leave behind

A source is read before its items are compiled. Reading may fail at any word and
so may any item. What they learn about symbols lasts, and whatever they swap for a
while is put back.
-/
namespace AwkToPython

open Compile Preset Table AwkToPython.Symbol

/-- A text is read in the default namespace. -/
abbrev Vocabulary.opening (v : Vocabulary) : Reading :=
  { v with registry := { v.registry with current := Namespace.default } }

namespace Session

variable {s s' s'' : Session} {symbol x : Symbol}

/-- What may come of a call, also if it fails. -/
structure Returns (s s' : Session) : Prop where
  table : s.table.Evolves s'.table
  position : s'.listing.toPosition = s.listing.toPosition
  space : s'.registry.current = s.registry.current
  options : s'.options = s.options
  primes : s.table.Primes s'.table

lemma Returns.refl (s : Session) : s.Returns s :=
  ⟨(Grows.refl _).evolves, rfl, rfl, rfl, .refl _⟩

lemma Returns.trans (h : s.Returns s') (h' : s'.Returns s'') : s.Returns s'' :=
  ⟨h.table.trans h'.table, h'.position.trans h.position, h'.space.trans h.space,
    h'.options.trans h.options, h.primes.trans h'.primes h.table.size⟩

/-- What may come of a source, also if it fails: no variable becomes one of the
program's own. -/
structure Preserves (s s' : Session) : Prop extends s.Returns s' where
  builtIn : ∀ id, (s'.table.symbol id).isBuiltIn = (s.table.symbol id).isBuiltIn

lemma Preserves.refl (s : Session) : s.Preserves s := ⟨.refl s, fun _ => rfl⟩

lemma Preserves.trans (h : s.Preserves s') (h' : s'.Preserves s'') : s.Preserves s'' :=
  ⟨h.toReturns.trans h'.toReturns, fun id => (h'.builtIn id).trans (h.builtIn id)⟩

/-- A note changes neither the table nor the place of lines. -/
lemma Preserves.note (table : s'.table = s.table) (listing : s'.listing = s.listing)
    (registry : s'.registry = s.registry) (options : s'.options = s.options) : s.Preserves s' :=
  ⟨⟨table ▸ (Grows.refl _).evolves, by rw [listing], by rw [registry], options,
    table ▸ .refl _⟩, fun _ => by rw [table]⟩

lemma Keeps.preserves (h : s.Keeps s') : s.Preserves s' :=
  ⟨⟨h.table, h.position, congrArg (fun setting => setting.1.current) h.setting,
    congrArg (fun setting => setting.2.2) h.setting, h.primes⟩, h.builtIn⟩

lemma Keeps.returns (h : s.Keeps s') : s.Returns s' := h.preserves.toReturns

end Session

namespace Compile

variable {source : Source} {value : String} {symbol : Symbol}

/-! ### Reading a source -/

/-- Read a source text; its items come next. -/
def reading (text : String) : Compile Unit := do
  let s ← get
  let (read, vocabulary) := s.toVocabulary.tokens s.options.library text
  modify fun s => { s with toVocabulary := vocabulary }
  let tokens ← liftExcept read
  if s.options.debug then addHeader (.tokens (tokens.map (·.text vocabulary.table)))
  modify fun s => { s with cursor := Cursor.ofTokens tokens }

/-- Read the file at a path under a header. -/
def fileReading (path : String) (header : Header) : Compile Unit := do
  match (← get).options.library.tree.read path with
  | .error fault => throw (.unreadable path fault)
  | .ok text =>
    addHeader header
    reading text

/-- Read a source; the result says whether there are items to compile, which a
file that is included again has not. -/
def load : Source → Compile Bool
  | .program text => do
    addHeader (.ofProgram text)
    reading text
    return true
  | .file name => do
    let s ← get
    let path := s.options.library.locate name
    setFiles (← liftExcept (s.files.addSource s.options.library.tree path))
    fileReading path (.file path)
    return true
  | .included name => do
    let s ← get
    let path := s.options.library.locate name
    match ← liftExcept (s.files.addInclude s.options.library.tree path) with
    | none => return false
    | some files =>
      setFiles files
      fileReading path (.included path)
      return true

lemma segment_eq (text : String) : segment text = (do reading text; items) := by
  simp only [segment, reading, bind_assoc]
  refine bind_congr fun s => bind_congr fun _ => bind_congr fun tokens => ?_
  split <;> simp only [bind_assoc]

lemma fileSegment_eq (path : String) (header : Header) :
    fileSegment path header = (do fileReading path header; items) := by
  simp only [fileSegment, fileReading, bind_assoc]
  refine bind_congr fun s => ?_
  cases s.options.library.tree.read path with
  | error fault => rfl
  | ok text => simp only [segment_eq, bind_assoc]

lemma addSource_eq (source : Source) : addSource source = (do if ← load source then items) := by
  cases source with
  | program text => simp only [addSource, load, segment_eq, bind_assoc, pure_bind, if_true]
  | file name => simp only [addSource, load, fileSegment_eq, bind_assoc, pure_bind, if_true]
  | included name =>
    simp only [addSource, load, fileSegment_eq, bind_assoc]
    refine bind_congr fun s => bind_congr fun found => ?_
    cases found <;> simp [bind_assoc]

/-- What loading leaves behind and what compiling keeps holds after a source is added. -/
lemma after_addSource {P : Session → Prop} {source : Source} {s : Session}
    (loaded : P (after (load source s))) (compiled : ∀ s', P s' → P (after (items s'))) :
    P (after (addSource source s)) := by
  rw [addSource_eq]
  cases run : load source s with
  | error e s' =>
    rw [run] at loaded
    rw [bind_of_error run]
    exact loaded
  | ok found s' =>
    rw [run] at loaded
    rw [bind_of_ok run]
    cases found with
    | false => exact loaded
    | true => exact compiled s' loaded

lemma load_file (name : String) (s : Session) :
    load (.file name) s =
      match s.files.addSource s.options.library.tree (s.options.library.locate name) with
      | .error e => .error e s
      | .ok files => (do
        fileReading (s.options.library.locate name) (.file (s.options.library.locate name))
        return true) { s with files } := by
  change (liftExcept (s.files.addSource _ _) >>= _ : Compile Bool) s = _
  cases s.files.addSource s.options.library.tree (s.options.library.locate name) <;> rfl

lemma load_included (name : String) (s : Session) :
    load (.included name) s =
      match s.files.addInclude s.options.library.tree (s.options.library.locate name) with
      | .error e => .error e s
      | .ok none => .ok false s
      | .ok (some files) => (do
        fileReading (s.options.library.locate name) (.included (s.options.library.locate name))
        return true) { s with files } := by
  change (liftExcept (s.files.addInclude _ _) >>= _ : Compile Bool) s = _
  cases s.files.addInclude s.options.library.tree (s.options.library.locate name) with
  | error e => rfl
  | ok found => cases found <;> rfl

lemma fileReading_run (path : String) (header : Header) (s : Session) :
    fileReading path header s =
      match s.options.library.tree.read path with
      | .error fault => .error (.unreadable path fault) s
      | .ok text => reading text { s with headers := s.headers ++ [header] } := by
  change (match s.options.library.tree.read path with
    | .error fault => throw (.unreadable path fault)
    | .ok text => do
      addHeader header
      reading text : Compile Unit) s = _
  cases s.options.library.tree.read path <;> rfl

lemma reading_run (text : String) (s : Session) :
    reading text s = (do
      let tokens ← liftExcept (s.toVocabulary.tokens s.options.library text).1
      if s.options.debug then
        addHeader (.tokens (tokens.map
          fun t => t.text (s.toVocabulary.tokens s.options.library text).2.table))
      modify fun s : Session => { s with cursor := Cursor.ofTokens tokens } : Compile Unit)
      { s with toVocabulary := (s.toVocabulary.tokens s.options.library text).2 } := rfl

/-- A text is read in the default namespace, and the current one comes back. -/
lemma tokens_run (v : Vocabulary) (library : Library) (text : String) :
    v.tokens library text =
      match Reading.source library (Reading.depthBound library) text v.opening with
      | .error e r => (.error e,
        { r.toVocabulary with registry := { r.registry with current := v.registry.current } })
      | .ok _ r =>
        (.ok (r.tokens.toList ++ List.replicate endPadding
          (Token.endOfInput ((r.tokens.back?.map Token.line).getD 1))),
        { r.toVocabulary with registry := { r.registry with current := v.registry.current } }) := by
  have step : Reading.inDefaultNamespace
      (Reading.source library (Reading.depthBound library) text) { v with } =
      restoring (Reading.source library (Reading.depthBound library) text)
        (fun r => { r with registry := { r.registry with current := v.registry.current } })
        v.opening := rfl
  rw [Vocabulary.tokens, step, restoring]
  cases Reading.source library (Reading.depthBound library) text v.opening <;> rfl

lemma tokens_current (v : Vocabulary) (library : Library) (text : String) :
    (v.tokens library text).2.registry.current = v.registry.current := by
  rw [tokens_run]
  split <;> rfl

variable {α : Type} {s s' : Session}

/-- A computation after which items can be compiled. -/
def Prepares (x : Compile α) : Prop :=
  ∀ s : Session, s.table.Good →
    match x s with
    | .ok _ s' => s.Preserves s' ∧ s'.Sound
    | .error _ s' => s.Preserves s'

/-- What is prepared after something else. -/
lemma Prepares.after {x : Compile α} (h : Prepares x) {s1 : Session} (good : s.table.Good)
    (first : s.Preserves s1) :
    match x s1 with
    | .ok _ s' => s.Preserves s' ∧ s'.Sound
    | .error _ s' => s.Preserves s' := by
  have done := h s1 (first.table.good good)
  cases run : x s1 with
  | ok a s' =>
    rw [run] at done
    exact ⟨first.trans done.1, done.2⟩
  | error e s' =>
    rw [run] at done
    exact first.trans done

lemma prepares_reading (text : String) : Prepares (reading text) := by
  intro s good
  obtain ⟨-, grows, -⟩ := Vocabulary.tokens_sound good s.options.library text
  have current := tokens_current s.toVocabulary s.options.library text
  rw [reading_run]
  cases read : (s.toVocabulary.tokens s.options.library text).1 with
  | error e => exact ⟨⟨grows.evolves, rfl, current, rfl, grows.primes⟩, grows.builtIn⟩
  | ok tokens =>
    have sound := Session.Sound.of_read good read
    cases s.options.debug with
    | false => exact ⟨⟨⟨grows.evolves, rfl, current, rfl, grows.primes⟩, grows.builtIn⟩, sound⟩
    | true =>
      exact ⟨⟨⟨grows.evolves, rfl, current, rfl, grows.primes⟩, grows.builtIn⟩,
        sound.1, sound.2, sound.3, sound.4, sound.5, sound.6, sound.7⟩

lemma headed (header : Header) : s.Preserves { s with headers := s.headers ++ [header] } :=
  .note rfl rfl rfl rfl

lemma prepares_fileReading (path : String) (header : Header) :
    Prepares (fileReading path header) := by
  intro s good
  rw [fileReading_run]
  cases s.options.library.tree.read path with
  | error fault => exact .refl s
  | ok text => exact (prepares_reading text).after good (headed header)

lemma load_cases (source : Source) (good : s.table.Good) :
    (∃ s', load source s = .ok true s' ∧ s.Preserves s' ∧ s'.Sound) ∨ load source s = .ok false s ∨
    ∃ e s', load source s = .error e s' ∧ s.Preserves s' := by
  -- what is read as a file or a text is marked as found
  have found : ∀ {x : Compile Unit} {s1 : Session}, Prepares x → s.Preserves s1 →
      (∃ s', (do x; return true) s1 = .ok true s' ∧ s.Preserves s' ∧ s'.Sound) ∨
      ∃ e s', (do x; return true) s1 = .error e s' ∧ s.Preserves s' := by
    intro x s1 prepares first
    have done := prepares.after good first
    cases run : x s1 with
    | ok a s' =>
      rw [run] at done
      exact .inl ⟨s', by simp [Bind.bind, EStateM.bind, Pure.pure, EStateM.pure, run], done⟩
    | error e s' =>
      rw [run] at done
      exact .inr ⟨e, s', by simp [Bind.bind, EStateM.bind, run], done⟩
  have listed : ∀ files, s.Preserves { s with files := files } := fun _ => .note rfl rfl rfl rfl
  cases source with
  | program text =>
    exact (found (prepares_reading text) (headed (.ofProgram text))).imp_right .inr
  | file name =>
    rw [load_file]
    cases s.files.addSource s.options.library.tree (s.options.library.locate name) with
    | error e => exact .inr (.inr ⟨e, s, rfl, .refl s⟩)
    | ok files => exact (found (prepares_fileReading _ _) (listed files)).imp_right .inr
  | included name =>
    rw [load_included]
    cases s.files.addInclude s.options.library.tree (s.options.library.locate name) with
    | error e => exact .inr (.inr ⟨e, s, rfl, .refl s⟩)
    | ok files =>
      cases files with
      | none => exact .inr (.inl rfl)
      | some files => exact (found (prepares_fileReading _ _) (listed files)).imp_right .inr

/-- The number of steps that is enough for the items of a session. -/
def itemFuel (s : Session) : Nat := s.cursor.remaining + 1

lemma addSource_of_load (run : load source s = .ok true s') :
    addSource source s = Item.items (itemFuel s') s' := by
  rw [addSource_eq]
  simp only [Bind.bind, EStateM.bind, run]
  rfl

lemma addSource_of_passed (run : load source s = .ok false s') :
    addSource source s = .ok () s' := by
  rw [addSource_eq]
  simp only [Bind.bind, EStateM.bind, run]
  rfl

lemma addSource_of_refused (run : load source s = .error e s') :
    addSource source s = .error e s' := by
  rw [addSource_eq]
  simp only [Bind.bind, EStateM.bind, run]

lemma addSource_cases (source : Source) (good : s.table.Good) :
    (∃ s', load source s = .ok true s' ∧ s.Returns s' ∧ s'.Sound ∧
      addSource source s = Item.items (itemFuel s') s') ∨
    load source s = .ok false s ∧ addSource source s = .ok () s ∨
    ∃ e s', load source s = .error e s' ∧ addSource source s = .error e s' ∧ s.Returns s' := by
  rcases load_cases source good with ⟨s', run, returns, sound⟩ | run | ⟨e, s', run, returns⟩
  · exact .inl ⟨s', run, returns.toReturns, sound, addSource_of_load run⟩
  · exact .inr (.inl ⟨run, addSource_of_passed run⟩)
  · exact .inr (.inr ⟨e, s', run, addSource_of_refused run, returns.toReturns⟩)

lemma addSource_preserves (source : Source) (good : s.table.Good) :
    s.Preserves (after (addSource source s)) := by
  rcases load_cases source good with ⟨s', run, reads, sound⟩ | run | ⟨e, s', run, reads⟩
  · rw [addSource_of_load run]
    exact reads.trans (Item.leaves_items _ sound).keeps.preserves
  · rw [addSource_of_passed run]
    exact .refl s
  · rw [addSource_of_refused run]
    exact reads

/-! ### Presets -/

/-- The variable that an assignment on the command line names. -/
def presetTarget (s : Session) (assignment : String) : Option SymbolId :=
  (Text.cut? "=" assignment).map fun (name, _) =>
    let (space, bare) := s.registry.resolve name
    (s.table.internVariable (space.key bare) space.pythonLead bare).1

/-- A session that has met a name. -/
def met (s : Session) (space : Namespace) (bare : String) : Session :=
  { s with
    registry := s.registry.meet space
    table := (s.table.internVariable (space.key bare) space.pythonLead bare).2 }

lemma returns_met (good : s.table.Good) (space : Namespace)
    (identifier : Name.isIdentifier bare) : s.Returns (met s space bare) := by
  have grows := (good.grows_internVariable space identifier).1
  refine ⟨grows.evolves, rfl, ?_, rfl, grows.primes⟩
  change (s.registry.meet space).current = _
  rw [Registry.meet]
  split <;> rfl

lemma literal_ne (value : String) : literal value ≠ "" := by
  have filled : ∀ {text : String} {p : Char → Prop}, (∃ c ∈ text.toList.head?, p c) →
    text ≠ "" := by
    rintro _ p ⟨c, head, -⟩ rfl
    cases head
  rw [literal]
  split
  case h_1 n _ => exact filled (Python.isInteger_toString n).head
  case h_2 =>
    cases decimal : decimal? value with
    | none => simp [Literal.python]
    | some text =>
      rw [decimal?] at decimal
      split at decimal
      · obtain ⟨n, -, rfl⟩ := Option.map_eq_some_iff.mp decimal
        rcases Python.numeral_cases n with ⟨-, float⟩ | ⟨-, name⟩
        · exact filled float.head
        · rw [Option.getD_some, name]
          split <;> decide
      · cases decimal

lemma applied?_some (h : applied? x value = some symbol) :
    ∃ use : VariableUse, x.kind = .var use ∧ use.isArray = false ∧
      symbol = { x with
        kind := .var { use with builtIn := false, isScalar := true }
        initial := literal value } := by
  rw [applied?] at h
  split at h
  case h_1 use kind =>
    split at h
    · cases h
    case isFalse array => exact ⟨use, kind, Bool.eq_false_iff.mpr array, (Option.some.inj h).symm⟩
  case h_2 => cases h

/-- A variable that gets a preset value is a scalar of the program's own. -/
lemma applied?_cases (h : applied? x value = some symbol) :
    ∃ use use' : VariableUse, x.kind = .var use ∧ symbol.kind = .var use' ∧
      symbol.word = x.word ∧ use.isArray = false ∧ use'.isArray = false ∧ use'.isScalar ∧
      symbol.isBuiltIn = false ∧ symbol.isPrimed := by
  obtain ⟨use, kind, array, rfl⟩ := applied?_some h
  refine ⟨use, _, kind, rfl, by simp [word, SymbolKind.bare, kind], array, array, rfl, rfl, ?_⟩
  simp [isPrimed, array, literal_ne]

lemma evolves_preset {t : Table} {id : SymbolId} (h : applied? (t.symbol id) value = some symbol) :
    t.Evolves (t.set id symbol) ∧ t.Primes (t.set id symbol) := by
  obtain ⟨use, use', old, new, word, unknown, array, scalar, -, primed⟩ := applied?_cases h
  have var : (t.symbol id).isVariable := isVariable_iff.mpr ⟨use, old⟩
  have key := key_of_word word
  have words := word_set word
  refine ⟨⟨by simp, fun other _ => .inl ?_, fun other above below => ?_, fun proper => ?_,
    fun other definable => ?_, fun spelled other => (spelled other).of_word (words other)⟩,
    .set var key (by simp [new]) fun _ => primed⟩
  · rw [symbol_set]
    split
    case isTrue same =>
      rw [← same.1, old, new]
      refine ⟨word, fun _ known => ?_⟩
      cases known
      exact ⟨use', rfl, by simp [unknown], fun _ => scalar⟩
    case isFalse => exact ⟨rfl, .refl _⟩
  · exact absurd (by simpa using below) (Nat.not_lt.mpr above)
  · have plain := (proper.regular id).plain (by rw [old]; rfl)
    refine (Swaps.set var ⟨(proper.regular id).of_word word, ?_, ?_⟩ key (by simp [new])).proper
      proper
    · simp [isExclusive, new, array]
    · rwa [python_of_word word]
  · rwa [← SymbolKind.isDefinable_bare, bare_of_word (words other),
      SymbolKind.isDefinable_bare]

/-- An assignment is refused, or its name is met and the variable refused or set. -/
lemma preset_shape (assignment : String) (s : Session) :
    (∃ e, preset assignment s = .error e s) ∨
    ∃ name value space bare id, Text.cut? "=" assignment = some (name, value) ∧
      Name.isName name ∧ s.registry.resolve name = (space, bare) ∧
      (s.table.internVariable (space.key bare) space.pythonLead bare).1 = id ∧
      (applied? ((met s space bare).table.symbol id) value = none ∧
          (∃ e, preset assignment s = .error e (met s space bare)) ∨
        ∃ symbol, applied? ((met s space bare).table.symbol id) value = some symbol ∧
          preset assignment s = .ok () { met s space bare with
            table := (met s space bare).table.set id symbol
            headers := s.headers ++ [.preset name value] }) := by
  cases cut : Text.cut? "=" assignment with
  | none => exact .inl ⟨_, by rw [preset, cut]; rfl⟩
  | some parts =>
    obtain ⟨name, value⟩ := parts
    cases named : Name.isName name with
    | false => exact .inl ⟨_, by rw [preset, cut]; simp only [named]; rfl⟩
    | true =>
      let space := (s.registry.resolve name).1
      let bare := (s.registry.resolve name).2
      let id := (s.table.internVariable (space.key bare) space.pythonLead bare).1
      refine .inr ⟨name, value, space, bare, id, rfl, named, rfl, rfl, ?_⟩
      rw [preset, cut]
      simp only [named, Bool.not_true, Bool.false_eq_true, if_false]
      rw [get_bind, modify_bind, intern_bind, get_bind]
      cases applied : applied? ((met s space bare).table.symbol id) value with
      | none =>
        refine .inl ⟨rfl, .conflict (.notPresettable name), ?_⟩
        simp only [met, space, bare, id] at applied
        rw [applied]
        rfl
      | some symbol =>
        refine .inr ⟨symbol, rfl, ?_⟩
        simp only [met, space, bare, id] at applied
        rw [applied]
        rfl

lemma preset_outcome (assignment : String) (good : s.table.Good) :
    (∃ e, preset assignment s = .error e s) ∨
    ∃ name value space bare id, presetTarget s assignment = some id ∧
      s.Returns (met s space bare) ∧ s.table.Grows (met s space bare).table ∧
      id < (met s space bare).table.size ∧
      ((∃ e, preset assignment s = .error e (met s space bare)) ∨
        ∃ symbol, applied? ((met s space bare).table.symbol id) value = some symbol ∧
          preset assignment s = .ok () { met s space bare with
            table := (met s space bare).table.set id symbol
            headers := s.headers ++ [.preset name value] }) := by
  rcases preset_shape assignment s with
    refused | ⟨name, value, space, bare, id, cut, named, resolved, target, outcome⟩
  · exact .inl refused
  have identifier : Name.isIdentifier bare := by
    simpa [resolved] using s.registry.isIdentifier_resolve named
  obtain ⟨grows, bound⟩ := good.grows_internVariable space identifier
  refine .inr ⟨name, value, space, bare, id, ?_, returns_met good space identifier, grows,
    target ▸ bound, outcome.imp_left And.right⟩
  simp [presetTarget, cut, resolved, target]

lemma preset_cases (assignment : String) (good : s.table.Good) :
    (∃ s', preset assignment s = .ok () s' ∧ s.Returns s' ∧ s'.files = s.files ∧
      ∀ id, presetTarget s assignment = some id → s'.table.isScalar id) ∨
    ∃ e s', preset assignment s = .error e s' ∧ s.Returns s' ∧ s'.files = s.files := by
  rcases preset_outcome assignment good with
    ⟨e, run⟩ |
    ⟨name, value, space, bare, id, target, first, -, bound, ⟨e, run⟩ | ⟨symbol, applied, run⟩⟩
  · exact .inr ⟨e, s, run, .refl s, rfl⟩
  · exact .inr ⟨e, met s space bare, run, first, rfl⟩
  · obtain ⟨evolves, primes⟩ := evolves_preset applied
    refine .inl ⟨_, run, first.trans ⟨evolves, rfl, rfl, rfl, primes⟩, rfl, fun other same => ?_⟩
    cases target.symm.trans same
    obtain ⟨-, use, -, kind, -, -, -, scalar, -⟩ := applied?_cases applied
    rw [isScalar_iff, symbol_set, if_pos ⟨rfl, bound⟩]
    exact ⟨use, kind, scalar⟩

lemma preset_builtIn (assignment : String) (good : s.table.Good) (id : SymbolId) :
    ((after (preset assignment s)).table.symbol id).isBuiltIn = ((s.table.symbol id).isBuiltIn &&
        !(succeeds (preset assignment s) && presetTarget s assignment = some id)) := by
  rcases preset_outcome assignment good with
    ⟨e, run⟩ |
    ⟨name, value, space, bare, other, target, -, grows, bound, ⟨e, run⟩ | ⟨symbol, applied, run⟩⟩
  · simp [run, after, succeeds]
  · simp [run, after, succeeds, grows.builtIn]
  · obtain ⟨-, -, -, -, -, -, -, -, own, -⟩ := applied?_cases applied
    rw [run, target]
    simp only [after, symbol_set, succeeds, Option.some.injEq]
    by_cases same : other = id
    · subst same
      simp [bound, own]
    · simp [same, grows.builtIn]

end Compile

/-! ### Calls, one after the other -/

inductive Call where
  | preset (assignment : String)
  | source (input : Source)
deriving DecidableEq, Repr

namespace Call

open Session

variable {s : Session}

def run : Call → Compile Unit
  | .preset assignment => Compile.preset assignment
  | .source input => addSource input

/-- The tokens that a call compiles, with the parameters that hide variables there. -/
def labels (s : Session) : Call → List Label
  | .preset _ => []
  | .source input =>
    match load input s with
    | .ok true s1 => Item.allLabels (itemFuel s1) s1
    | _ => []

/-- The variable that a call presets. -/
def target (s : Session) : Call → Option SymbolId
  | .preset assignment => presetTarget s assignment
  | .source _ => none

/-- Calls with the sessions they are made on. -/
def trace : Session → List Call → List (Session × Call)
  | _, [] => []
  | s, call :: calls => (s, call) :: trace (after (call.run s)) calls

/-- The session after some calls, whether they succeed or not. -/
def last (s : Session) (calls : List Call) : Session :=
  calls.foldl (fun s call => after (call.run s)) s

lemma returns_run (call : Call) (good : s.table.Good) : s.Returns (after (call.run s)) := by
  cases call with
  | preset assignment =>
    rcases preset_cases assignment good with ⟨s', run, returns, -⟩ | ⟨e, s', run, returns, -⟩ <;>
      rw [Call.run, run] <;> exact returns
  | source input => exact (addSource_preserves input good).toReturns

lemma returns_last (calls : List Call) (good : s.table.Good) : s.Returns (last s calls) := by
  induction calls generalizing s with
  | nil => exact .refl s
  | cons call calls ih =>
    have first := returns_run call good
    exact first.trans (ih (first.table.good good))

/-- What comes after a call of a sequence. -/
lemma returns_of_mem_trace {calls : List Call} {step : Session × Call} (good : s.table.Good)
    (mem : step ∈ trace s calls) :
    step.1.table.Good ∧ (after (step.2.run step.1)).Returns (last s calls) := by
  induction calls generalizing s with
  | nil => cases mem
  | cons call calls ih =>
    have first := (returns_run call good).table.good good
    rcases List.mem_cons.mp mem with rfl | mem
    · exact ⟨good, returns_last calls first⟩
    · exact ih first mem

lemma good_last (options : Options) (calls : List Call) : (last { options } calls).table.Good :=
  (returns_last calls Table.initial_good).table.good Table.initial_good

end Call

end AwkToPython
