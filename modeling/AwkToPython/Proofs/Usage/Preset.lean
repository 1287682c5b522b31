import AwkToPython.Proofs.Emission.Program
import AwkToPython.Proofs.Table.Interning

/-!
# Presets are atomic

A preset meets the namespace of its name and makes an entry for it before it looks
whether the entry can take a value. A new entry always can. An entry that cannot was
there before, and so was its namespace: every name that can be looked up had its
namespace met when it was entered. So a preset that fails has changed nothing.
-/
namespace AwkToPython

open Table Name Registry Namespace Preset

open Registry (effective)

variable {text : String} {s : Session}

/-! ### Namespaces of known names -/

/-- Outside of any namespace a name with a scope of its own is its own key. -/
lemma Registry.effective_cases (written : String) : effective .default written = .default ∨
    (effective .default written).key (bare written) = written ∧
      ∃ name, qualified? written = some ((effective .default written).name, name) := by
  by_cases default : effective .default written = .default
  · exact .inl default
  refine .inr ?_
  have upper : ¬ isAllUpper (bare written) := fun upper => default (if_pos upper)
  rw [effective, if_neg upper] at default ⊢
  cases split : qualified? written with
  | none =>
    rw [split] at default
    exact absurd rfl default
  | some parts =>
    rw [split] at default
    have other : isDefault ⟨parts.1⟩ = false := decide_eq_false default
    refine ⟨?_, parts.2, rfl⟩
    conv_rhs => rw [qualified?_eq split]
    simp [key, keyLead, other, bare, split]

lemma Name.isName_key (named : isName written) :
    isName ((effective .default written).key (bare written)) := by
  rcases effective_cases written with default | ⟨whole, -⟩
  · rw [default, key, keyLead, if_pos (by decide), String.empty_append, isName,
      isIdentifier_bare named, Bool.true_or]
  · rw [whole, named]

namespace Vocabulary

variable {v : Vocabulary}

/-- Names that can be looked up from outside of any namespace have their namespace met. -/
structure Homed (v : Vocabulary) : Prop where
  default : Namespace.default ∈ v.registry.spaces
  met : ∀ written, isName written = true →
    (v.table.find? ((effective .default written).key (bare written))).isSome = true →
    effective .default written ∈ v.registry.spaces

lemma homed_initial : ({} : Vocabulary).Homed := by
  have spaces : ∀ e ∈ initial.index, ∀ parts ∈ qualified? e.1,
      ⟨parts.1⟩ ∈ initial.spaces := by decide +kernel
  refine ⟨by decide, fun written named found => ?_⟩
  rcases effective_cases written with default | ⟨whole, name, split⟩
  · rw [default]
    decide
  · obtain ⟨id, found⟩ := Option.isSome_iff_exists.mp found
    rw [whole] at found
    exact spaces _ (mem_of_find found) _ split

lemma Homed.same (h : v.Homed) {w : Vocabulary} (registry : w.registry = v.registry)
    (index : w.table.index = v.table.index) : w.Homed := by
  refine ⟨registry ▸ h.default, fun written named found => registry ▸ h.met written named ?_⟩
  rwa [find?, index] at found

lemma Homed.insert (h : v.Homed) {s : Symbol} (unnamed : isName s.key = false) :
    Homed { v with table := (v.table.insert s).2 } := by
  refine ⟨h.default, fun written named found => h.met written named ?_⟩
  rw [find?_insert, if_neg] at found
  · exact found
  · intro same
    exact absurd (isName_key named) (by simp [same, unnamed])

lemma Homed.meet (h : v.Homed) (space : Namespace) :
    Homed { v with registry := v.registry.meet space } :=
  have kept := (v.registry.spaces_meet space).1.subset
  ⟨kept h.default, fun written named found => kept (h.met written named found)⟩

lemma Homed.internVariable (h : v.Homed) {space : Namespace} {bare : String}
    (known : space ∈ v.registry.spaces) (identifier : Name.isIdentifier bare) :
    Homed { v with
      table := (v.table.internVariable (space.key bare) space.pythonLead bare).2 } := by
  rw [Table.internVariable]
  split
  · exact h
  · refine ⟨h.default, fun written named found => ?_⟩
    rw [Table.find?_insert] at found
    split at found
    case isTrue same =>
      rw [((key_inj (Name.isIdentifier_bare named) identifier).mp same).1]
      exact known
    case isFalse => exact h.met written named found

end Vocabulary

namespace Reading

variable {r : Reading}

lemma homed_nameSymbol (named : isName text) : Maintains Vocabulary.Homed (nameSymbol text) r := by
  rcases nameSymbol_cases text r with ⟨id, -, -, run⟩ | ⟨-, run⟩
  · exact .congr run (maintains_pure id)
  · refine .congr run fun homed => ?_
    exact (homed.meet _).internVariable (r.registry.spaces_meet _).2.1
      (r.registry.isIdentifier_resolve named)

lemma homed_literalSymbol (unnamed : isName text = false) (place : Place) :
    Maintains Vocabulary.Homed (literalSymbol text place) r := by
  rcases literalSymbol_cases text place r with ⟨id, -, run⟩ | ⟨-, run⟩
  · exact .congr run (maintains_pure id)
  · refine .congr run ?_
    dsimp only [newLiteral]
    split
    · exact maintains_intern fun h => h.insert unnamed
    · split
      · exact maintains_intern fun h => h.insert unnamed
      · split
        · exact maintains_intern fun h => h.insert unnamed
        · split
          · exact maintains_intern fun h => h.same rfl rfl
          · exact maintains_throw _

lemma invariant_homed : Invariant Vocabulary.Homed fun _ _ => True where
  files _ _ h := h.same rfl rfl
  enter _ h := ⟨h.default, h.met⟩
  back _ _ _ h := ⟨h.default, h.met⟩
  step none _ := by
    refine maintains_lexeme none (fun text place spaced ownLine same => ?_)
      (fun text place spaced same => ?_) fun name mem h => ?_
    · exact maintains_intern fun h => h.same rfl rfl
    · rw [wordSymbol]
      split
      case isTrue named => exact homed_nameSymbol named
      case isFalse unnamed => exact homed_literalSymbol (Bool.eq_false_iff.mpr unnamed) place
    · have met := h.meet ⟨name⟩
      exact ⟨met.default, met.met⟩

lemma allowed_always (pending : Option Directive) (ls : List Lexeme) :
    Allowed (fun _ _ => True) pending ls := by
  induction ls generalizing pending with
  | nil => trivial
  | cons l ls ih => exact ⟨trivial, ih _⟩

end Reading

/-! ### Sessions -/

namespace Compile

variable {s : Session}

lemma homed_reading (text : String) (homed : s.Homed) : (after (reading text s)).Homed := by
  have read : (s.toVocabulary.tokens s.options.library text).2.Homed :=
    Reading.invariant_homed.tokens homed (Reading.allowed_always _ _)
      fun _ _ _ _ => Reading.allowed_always _ _
  rw [reading_run]
  cases (s.toVocabulary.tokens s.options.library text).1 with
  | error e => exact read
  | ok tokens => cases s.options.debug <;> exact read

lemma homed_fileReading (path : String) (header : Header) (files : SourceFiles)
    (homed : s.Homed) : (after ((do
      fileReading path header
      return true : Compile Bool) { s with files })).Homed := by
  rw [after_found, fileReading_run]
  dsimp only
  split
  · exact homed.same rfl rfl
  · exact homed_reading _ (homed.same rfl rfl)

lemma homed_load (source : Source) (homed : s.Homed) : (after (load source s)).Homed := by
  cases source with
  | program text =>
    change (after ((do reading text; return true : Compile Bool)
      { s with headers := s.headers ++ [.ofProgram text] })).Homed
    rw [after_found]
    exact homed_reading text homed
  | file name =>
    rw [load_file]
    split
    · exact homed
    · exact homed_fileReading _ _ _ homed
  | included name =>
    rw [load_included]
    split
    · exact homed
    · exact homed
    · exact homed_fileReading _ _ _ homed

/-- Compiling adds no key and meets no namespace. -/
lemma homed_addSource (source : Source) (homed : s.Homed) : (after (addSource source s)).Homed := by
  refine after_addSource (P := fun s => s.toVocabulary.Homed)
    (homed_load source homed) fun s' read => ?_
  have kept := lengthens_items (p := fun _ => True) s' s'.over_true
  exact read.same (congrArg (·.1) kept.setting) kept.notes.table.index

lemma homed_preset (assignment : String) (homed : s.Homed) :
    (after (preset assignment s)).Homed := by
  rcases preset_shape assignment s with
    ⟨e, run⟩ | ⟨name, value, space, bare, id, -, named, resolved, -, outcome⟩
  · rw [run]
    exact homed
  have identifier := s.registry.isIdentifier_resolve named
  rw [resolved] at identifier
  have entered : (met s space bare).Homed :=
    (homed.meet space).internVariable (s.registry.spaces_meet space).2.1 identifier
  rcases outcome with ⟨-, e, run⟩ | ⟨symbol, -, run⟩ <;> rw [run]
  · exact entered
  · exact entered.same rfl rfl

/-- One variable has been preset: one entry is set or added, at most one namespace
is added, and all else is as it was. -/
structure Presets (name value : String) (id : SymbolId) (s s' : Session) : Prop where
  rest : s' = { s with
    registry := s'.registry, table := s'.table, headers := s.headers ++ [.preset name value] }
  registry : s'.registry = s.registry ∨
    ∃ space, s'.registry = { s.registry with spaces := s.registry.spaces ++ [space] }
  table : s'.table = { s.table with entries := s'.table.entries, index := s'.table.index }
  others : ∀ other ≠ id, s'.table.symbol other = s.table.symbol other
  entry : id < s.table.size ∧ s'.table.size = s.table.size ∧ s'.table.index = s.table.index ∧
      (s'.table.symbol id).word = (s.table.symbol id).word ∨
    id = s.table.size ∧ s'.table.size = s.table.size + 1 ∧
      s'.table.index = ((s'.table.symbol id).key, id) :: s.table.index
  scalar : ∃ use : VariableUse, (s'.table.symbol id).kind = .var use ∧ use.builtIn = false ∧
    use.isScalar = true ∧ use.isArray = false
  initial : (s'.table.symbol id).initial = Preset.literal value

section Entry

variable {name value bare : String} {space : Namespace} {id : SymbolId} {symbol : Symbol}

lemma symbol_applied {t : Table} (bound : id < t.size)
    (applied : applied? (t.symbol id) value = some symbol) : (t.set id symbol).symbol id = symbol ∧
    (∃ use : VariableUse, symbol.kind = .var use ∧ use.builtIn = false ∧
      use.isScalar = true ∧ use.isArray = false) ∧ symbol.initial = literal value := by
  obtain ⟨use, kind, array, rfl⟩ := applied?_some applied
  exact ⟨by rw [symbol_set, if_pos ⟨rfl, bound⟩], ⟨_, rfl, rfl, rfl, array⟩, rfl⟩

/-- An entry that was there takes the value. -/
lemma presets_known (bound : id < s.table.size)
    (applied : applied? (s.table.symbol id) value = some symbol) :
    Presets name value id s { s with
      table := s.table.set id symbol
      headers := s.headers ++ [.preset name value] } := by
  obtain ⟨own, scalar, initial⟩ := symbol_applied bound applied
  have word := (applied?_cases applied).choose_spec.choose_spec.2.2.1
  refine ⟨rfl, .inl rfl, rfl, fun other ne => ?_, .inl ⟨bound, by simp, rfl, ?_⟩, ?_, ?_⟩
  · exact (symbol_set ..).trans (if_neg fun same => ne same.1.symm)
  · exact (congrArg Symbol.word own).trans word
  · simpa only [own] using scalar
  · simpa only [own] using initial

/-- A name that is not known gets an entry of which nothing is known. -/
lemma met_new (absent : s.table.find? (space.key bare) = none) :
    ∃ fresh : Symbol, fresh.kind = .var {} ∧
      s.table.internVariable (space.key bare) space.pythonLead bare = s.table.insert fresh := by
  rw [internVariable, absent]
  exact ⟨_, rfl, rfl⟩

/-- A new entry takes the value, and its namespace is met. -/
lemma presets_new (absent : s.table.find? (space.key bare) = none) (last : id = s.table.size)
    (applied : applied? ((met s space bare).table.symbol id) value = some symbol) :
    Presets name value id s { met s space bare with
      table := (met s space bare).table.set id symbol
      headers := s.headers ++ [.preset name value] } := by
  obtain ⟨fresh, -, entered⟩ := met_new absent
  have table : (met s space bare).table = (s.table.insert fresh).2 := congrArg Prod.snd entered
  rw [table] at applied ⊢
  have bound : id < (s.table.insert fresh).2.size := by simp [last, Table.insert, size]
  obtain ⟨own, scalar, initial⟩ := symbol_applied bound applied
  rw [symbol_insert, if_pos last] at applied
  obtain ⟨_, _, _, same⟩ := applied?_some applied
  refine ⟨rfl, ?_, rfl, fun other ne => ?_, .inr ⟨last, ?_, ?_⟩, ?_, ?_⟩
  · change s.registry.meet space = _ ∨ ∃ added, s.registry.meet space = _
    rw [meet]
    split
    · exact .inl rfl
    · exact .inr ⟨space, rfl⟩
  · refine (symbol_set ..).trans ((if_neg fun same => ne same.1.symm).trans ?_)
    rw [symbol_insert, if_neg (last ▸ ne)]
  · simp [Table.insert, size, Table.set]
  · change _ :: s.table.index = _
    rw [own, same, last]
  · simpa only [own] using scalar
  · simpa only [own] using initial

end Entry

lemma preset_atomic_of_homed (assignment : String) (good : s.table.Good) (homed : s.Homed)
    (outside : s.registry.current = .default) : (∃ e, preset assignment s = .error e s) ∨
    ∃ name value id s', Text.cut? "=" assignment = some (name, value) ∧
      presetTarget s assignment = some id ∧ preset assignment s = .ok () s' ∧
      Presets name value id s s' := by
  rcases preset_shape assignment s with
    refused | ⟨name, value, space, bare, id, cut, named, resolved, target, outcome⟩
  · exact .inl refused
  have chosen : presetTarget s assignment = some id := by simp [presetTarget, cut, resolved, target]
  cases found : s.table.find? (space.key bare) with
  | some old =>
    -- the namespace of an entry is met
    rw [resolve_eq, outside, Prod.mk.injEq] at resolved
    obtain ⟨rfl, rfl⟩ := resolved
    have known := homed.met name named (by rw [found]; rfl)
    have same : met s (effective .default name) (Name.bare name) = s := by
      rw [met, meet, if_pos (List.contains_iff_mem.mpr known), internVariable, found]
    rw [internVariable, found] at target
    rw [same] at outcome
    rcases outcome with ⟨-, refused⟩ | ⟨symbol, applied, run⟩
    · exact .inl refused
    · have bound : id < s.table.size := target ▸ good.proper.valid _ _ found
      exact .inr ⟨name, value, id, _, cut, chosen, run, presets_known bound applied⟩
  | none =>
    obtain ⟨fresh, kind, entered⟩ := met_new found
    have last : id = s.table.size := by rw [← target, entered]; rfl
    rcases outcome with ⟨refused, -⟩ | ⟨symbol, applied, run⟩
    · -- an entry of which nothing is known takes every value
      have table : (met s space bare).table = (s.table.insert fresh).2 :=
        congrArg Prod.snd entered
      rw [table, symbol_insert, if_pos last] at refused
      exact absurd refused (by simp [applied?, kind])
    · exact .inr ⟨name, value, id, _, cut, chosen, run, presets_new found last applied⟩

end Compile

namespace Call

open Compile

lemma homed_run (call : Call) (homed : s.Homed) : (after (call.run s)).Homed := by
  cases call with
  | preset assignment => exact homed_preset assignment homed
  | source input => exact homed_addSource input homed

lemma homed_last (calls : List Call) (homed : s.Homed) : (last s calls).Homed := by
  induction calls generalizing s with
  | nil => exact homed
  | cons call calls ih => exact ih (homed_run call homed)

/-- Whatever was preset and compiled before, a preset that fails changes nothing, and
one that succeeds changes its variable and no other. -/
theorem preset_is_atomic (options : Options) (calls : List Call) (assignment : String) :
    let s := last { options } calls
    (∃ e, Compile.preset assignment s = .error e s) ∨
    ∃ name value id s', Text.cut? "=" assignment = some (name, value) ∧
      presetTarget s assignment = some id ∧ Compile.preset assignment s = .ok () s' ∧
      Compile.Presets name value id s s' :=
  preset_atomic_of_homed assignment (good_last options calls)
    (homed_last calls Vocabulary.homed_initial)
    (returns_last (s := { options }) calls initial_good).space

end Call

end AwkToPython
