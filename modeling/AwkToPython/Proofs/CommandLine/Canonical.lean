import AwkToPython.CommandLine.Request
import Mathlib.Tactic.Lemma

/-!
# Canonical command lines

A request can be written as arguments again, each value apart from its option and
the arguments of the generated program behind `--`. A value stands where an option
waits for it, so it is never taken for an option itself, whatever it looks like:
sorting the arguments gives the request back, and the compiler finds the same
sources in its share of them.
-/
namespace AwkToPython.CommandLine

open List Contribution

/-! ### The share of the compiler -/

namespace Contribution

/-- What an option with a value contributes. -/
def ofPair (pair : String × String) : Option Contribution :=
  (options.find? fun option => option.word = pair.1).map fun option => option.make pair.2

/-- The option of a source and its value. -/
def sourcePair : Source → String × String
  | .program text => ("-e", text)
  | .file path => ("-f", path)
  | .included path => ("-i", path)

lemma ofSource_eq (source : Source) :
    ofSource source = [(sourcePair source).1, (sourcePair source).2] := by
  cases source <;> rfl

lemma ofPair_sourcePair (source : Source) : ofPair (sourcePair source) = some (.source source) := by
  cases source <;> rfl

/-- A source is read back, and what follows it is read as it stands. -/
lemma read_ofSource (source : Source) (rest : List String) : read none (ofSource source ++ rest) =
      (.source source :: (read none rest).1, (read none rest).2) := by
  cases source <;> rfl

lemma read_sources (sources : List Source) :
    read none (sources.flatMap ofSource) = (sources.map .source, none) := by
  induction sources with
  | nil => rfl
  | cons source sources ih => rw [flatMap_cons, read_ofSource, ih, map_cons]

end Contribution

def Setting.pairs : Setting → List (String × String)
  | .contribution (.source given) => [sourcePair given]
  | _ => []

namespace Request

/-- The share of the compiler, each option with its value. -/
def pairs (r : Request) : List (String × String) := r.sources.map sourcePair

variable {r r' : Request} {setting : Setting} {args rest : List String}

lemma sourceArguments_eq (r : Request) : r.sourceArguments =
    (r.sources.map sourcePair).flatMap fun pair => [pair.1, pair.2] := by
  rw [sourceArguments, flatMap_map]
  exact congrArg (flatMap · r.sources) (funext ofSource_eq)

/-! ### What sorting makes of arguments -/

/-- Every preset has a name and a value. -/
def PresetsAssign (r : Request) : Prop := ∀ assignment ∈ r.presets, '=' ∈ assignment.toList

/-- A setting adds no arguments for the generated program, and no preset that does
not assign. -/
lemma apply_ok (run : r.apply setting = .ok r') : r'.arguments = r.arguments ∧
    r'.pairs = r.pairs ++ setting.pairs ∧ (r.PresetsAssign → r'.PresetsAssign) := by
  -- one more preset that assigns
  have added : ∀ assignment : String, '=' ∈ assignment.toList →
      r.PresetsAssign → (r.addPreset assignment).PresetsAssign := by
    intro assignment assigns before other mem
    rcases mem_append.mp mem with mem | mem
    · exact before other mem
    · rwa [mem_singleton.mp mem]
  cases setting with
  | contribution contribution =>
    cases contribution with
    | source source =>
      cases run
      exact ⟨rfl, map_append .., id⟩
    | preset assignment =>
      rw [apply] at run
      split at run
      case isTrue assigns =>
        cases run
        exact ⟨rfl, (append_nil _).symm, added assignment (contains_iff_mem.mp assigns)⟩
      case isFalse => cases run
  | separator text =>
    cases run
    exact ⟨rfl, (append_nil _).symm, added _ (by simp)⟩
  | output path =>
    cases run
    exact ⟨rfl, (append_nil _).symm, id⟩

lemma bind_apply (run : (do sort (← r.apply setting) none rest : Except Error Request) = .ok r') :
    ∃ r1, r.apply setting = .ok r1 ∧ sort r1 none rest = .ok r' := by
  cases step : r.apply setting with
  | error e =>
    rw [step] at run
    cases run
  | ok r1 =>
    rw [step] at run
    exact ⟨r1, rfl, run⟩

lemma operand_presets (r : Request) (argument : String) (rest : List String) :
    (r.operand argument rest).presets = r.presets := by
  rw [operand]
  split <;> rfl

lemma operand_arguments (r : Request) (argument : String) (rest : List String) :
    (r.operand argument rest).arguments <:+ argument :: rest := by
  rw [operand]
  split
  · exact suffix_refl _
  · exact suffix_cons argument rest

/-- The arguments of the generated program are the last ones, and all presets
assign. -/
lemma sort_ok (run : sort r waiting args = .ok r')
    (assign : r.PresetsAssign) (unset : r.arguments = []) :
    r'.arguments <:+ args ∧ r'.PresetsAssign := by
  induction args generalizing r waiting with
  | nil =>
    cases waiting with
    | some option => cases run
    | none =>
      cases run
      exact ⟨unset ▸ nil_suffix, assign⟩
  | cons argument rest ih =>
    have behind {r1 waiting} (run : sort r1 waiting rest = .ok r') (assign : r1.PresetsAssign)
        (unset : r1.arguments = []) : r'.arguments <:+ argument :: rest ∧ r'.PresetsAssign := by
      obtain ⟨suffix, all⟩ := ih run assign unset
      exact ⟨suffix.trans (suffix_cons argument rest), all⟩
    -- the rest, from whatever a value has made of the request
    have applied {setting : Setting}
        (run : (do sort (← r.apply setting) none rest : Except Error Request) = .ok r') :
        r'.arguments <:+ argument :: rest ∧ r'.PresetsAssign := by
      obtain ⟨r1, step, run⟩ := bind_apply run
      obtain ⟨same, -, kept⟩ := apply_ok step
      exact behind run (kept assign) (same.trans unset)
    cases waiting with
    | some option => exact applied run
    | none =>
      rw [sort] at run
      split at run
      · cases run
        exact ⟨unset ▸ nil_suffix, assign⟩
      split at run
      · cases run
        exact ⟨unset ▸ nil_suffix, assign⟩
      split at run
      · cases run
        exact ⟨suffix_cons argument rest, assign⟩
      split at run
      · cases run
        exact ⟨suffix_refl _, assign⟩
      split at run
      · exact behind run assign unset
      split at run
      · split at run
        · exact behind run assign unset
        · exact applied run
      · split at run
        · cases run
        · cases run
          exact ⟨operand_arguments r argument rest, by
            rw [PresetsAssign, operand_presets]
            exact assign⟩

/-! ### Sorting canonical arguments -/

/-- A request as arguments. -/
def canonical (r : Request) : List String :=
  r.presets.flatMap (fun assignment => ["-v", assignment]) ++
    (r.sourceArguments ++ (r.output.toList.flatMap (fun path => ["-o", path]) ++
      ((if r.debug then ["-d"] else []) ++ "--" :: r.arguments)))

lemma sort_presets {presets : List String} (assign : ∀ a ∈ presets, '=' ∈ a.toList) (r : Request)
    (rest : List String) :
    sort r none (presets.flatMap (fun assignment => ["-v", assignment]) ++ rest) =
      sort { r with presets := r.presets ++ presets } none rest := by
  induction presets generalizing r with
  | nil => simp
  | cons assignment presets ih =>
    have assigns : assignment.toList.contains '=' = true :=
      contains_iff_mem.mpr (assign assignment mem_cons_self)
    have step : ∀ rest, sort r none ("-v" :: assignment :: rest) =
        (do sort (← r.apply (.contribution (.preset assignment))) none rest) := fun _ => rfl
    rw [flatMap_cons, append_assoc, cons_append, cons_append, nil_append,
      step, apply, if_pos assigns]
    change sort (r.addPreset assignment) none _ = _
    rw [ih (fun a mem => assign a (mem_cons_of_mem _ mem))]
    simp [addPreset]

lemma sort_sources (sources : List Source) (r : Request) (rest : List String) :
    sort r none (sources.flatMap ofSource ++ rest) =
      sort { r with sources := r.sources ++ sources } none rest := by
  induction sources generalizing r with
  | nil => simp
  | cons source sources ih =>
    have step : ∀ rest, sort r none (ofSource source ++ rest) =
        sort (r.addSource source) none rest := by
      cases source <;> exact fun _ => rfl
    rw [flatMap_cons, append_assoc, step, ih]
    simp [addSource]

lemma sort_output (output : Option String) (unset : r.output = none) (rest : List String) :
    sort r none (output.toList.flatMap (fun path => ["-o", path]) ++ rest) =
      sort { r with output } none rest := by
  cases output with
  | none =>
    obtain ⟨sources, presets, arguments, output, debug, mode⟩ := r
    cases unset
    rfl
  | some path => rfl

lemma sort_debug (debug : Bool) (unset : r.debug = false) (rest : List String) :
    sort r none ((if debug then ["-d"] else []) ++ rest) = sort { r with debug } none rest := by
  cases debug with
  | false =>
    obtain ⟨sources, presets, arguments, output, debug, mode⟩ := r
    cases unset
    rfl
  | true => rfl

lemma sort_canonical (assign : r.PresetsAssign) (mode : r.mode = .run) :
    sort {} none r.canonical = .ok r := by
  rw [canonical, sort_presets assign, sourceArguments, sort_sources, sort_output r.output rfl,
    sort_debug r.debug rfl]
  change Except.ok _ = _
  rw [← mode]
  rfl

lemma ofArguments_of_sort (run : sort {} none args = .ok r) : ofArguments args =
    if r.mode = .run && !r.hasProgram then .error (.usage .noProgram) else .ok r := by
  rw [ofArguments, run]
  rfl

lemma ofArguments_eq_ok (h : ofArguments args = .ok r) :
    sort {} none args = .ok r ∧ ¬(r.mode = .run && !r.hasProgram) = true := by
  cases run : sort {} none args with
  | error e =>
    rw [ofArguments, run] at h
    cases h
  | ok r1 =>
    rw [ofArguments_of_sort run] at h
    split at h
    · cases h
    case isFalse given =>
      cases h
      exact ⟨rfl, given⟩

/-- Sorting takes the arguments of the generated program from the end, gives the
compiler options with values that it reads back as they are, and gives the same
request for the canonical arguments. -/
theorem sorting_is_stable (h : ofArguments args = .ok r) (mode : r.mode = .run) :
    r.arguments <:+ args ∧
    (∃ pairs : List (String × String),
      r.sourceArguments = pairs.flatMap (fun pair => [pair.1, pair.2]) ∧
      (∀ pair ∈ pairs, pair.1 = "-e" ∨ pair.1 = "-f" ∨ pair.1 = "-i") ∧
      ∃ contributions, Contribution.read none r.sourceArguments = (contributions, none) ∧
        contributions.map some = pairs.map Contribution.ofPair ∧
        Compile.arguments r.sourceArguments = contributions.forM Compile.contribute) ∧
    ofArguments r.canonical = .ok r := by
  obtain ⟨run, given⟩ := ofArguments_eq_ok h
  obtain ⟨suffix, assign⟩ := sort_ok run (List.forall_mem_nil _) rfl
  have read := Contribution.read_sources r.sources
  refine ⟨suffix, ⟨r.sources.map Contribution.sourcePair, sourceArguments_eq r, fun pair mem => ?_,
    r.sources.map .source, read, ?_, ?_⟩, ?_⟩
  · obtain ⟨source, -, rfl⟩ := List.mem_map.mp mem
    cases source <;> simp [Contribution.sourcePair]
  · simp [Contribution.ofPair_sourcePair]
  · have whole : Compile.arguments r.sourceArguments = (do
        (Contribution.read none r.sourceArguments).1.forM Compile.contribute
        (Contribution.read none r.sourceArguments).2.forM fun fault => throw (.usage fault)) := rfl
    rw [whole, sourceArguments, read]
    change (do (r.sources.map Contribution.source).forM Compile.contribute; pure ()) = _
    exact bind_pure _
  · rw [ofArguments_of_sort (sort_canonical assign mode), if_neg given]

/-- Values that look like options, that are empty, and that hold several signs of
assignment. -/
theorem sorting_is_stable_lookalikes :
    let args := ["-v", "x==-d", "-F-o", "-i", "-e", "-f", "", "-o", "--", "-d", "-Wr", "-v"]
    let r : Request :=
      { sources := [.included "-e", .file ""], presets := ["x==-d", "FS=-o"],
        arguments := ["-Wr", "-v"], output := some "--", debug := true }
    ofArguments args = .ok r ∧ r.mode = .run ∧ r.arguments <:+ args ∧
      ofArguments r.canonical = .ok r := by
  intro args r
  have h : ofArguments args = .ok r := by rfl
  obtain ⟨suffix, -, again⟩ := sorting_is_stable h rfl
  exact ⟨h, rfl, suffix, again⟩

end Request

end AwkToPython.CommandLine
