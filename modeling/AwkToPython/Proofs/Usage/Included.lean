import AwkToPython.Proofs.Usage.Loading

/-!
# Files that are included

A file is recorded as included before its text is read. If the call in which that
happens succeeds, the text has been read and compiled with the rest of the call. If
it fails, the record stays.
-/
namespace AwkToPython

open Compile List SourceFiles

variable {name path text : String} {found : Bool}

lemma SourceFiles.addInclude_none {files : SourceFiles} {tree : FileTree}
    (h : files.addInclude tree path = .ok none) : tree.identity path ∈ files.includes := by
  simp only [addInclude, contains_iff_mem] at h
  split at h
  · cases h
  · split at h
    case isTrue found => exact found
    case isFalse => cases h

/-! ### Readings that succeed -/

namespace Reading

variable {library : Library} {load : String → Read Unit} {log : String → Reading → List Identity}

/-- Where reading succeeds, the files that get recorded are those that are read. -/
def Covers (load : String → Read Unit) (log : String → Reading → List Identity) : Prop :=
  ∀ (name : String) (r r' : Reading), load name r = .ok () r' →
    ∀ i ∈ r'.files.includes, i ∈ r.files.includes ∨ i ∈ log name r

lemma Covers.loadInclude (h : Covers load log) :
    Covers (loadInclude library load) (lexedAt library log) := by
  intro name r r' run i mem
  rw [lexedAt]
  rcases loadInclude_ok run with
    ⟨-, rfl⟩ | ⟨text, files, r1, r2, added, same, -, found, inner, files', -⟩
  · exact .inl mem
  · rw [found]
    rcases h text r1 r2 inner i (files' ▸ mem) with old | new
    · -- the record that was made before the text was read
      obtain ⟨-, rfl⟩ := addInclude_some added
      rw [same] at old
      rcases mem_append.mp old with old | own
      · exact .inl old
      · exact .inr (mem_cons.mpr (.inl (mem_singleton.mp own)))
    · exact .inr (mem_cons_of_mem _ new)

lemma Covers.lexemes (h : Covers load log) (run : lexemes load pending ls r = .ok () r') :
    ∀ i ∈ r'.files.includes, i ∈ r.files.includes ∨
      i ∈ (asks load pending ls r).flatMap fun ask => log ask.1 ask.2 := by
  induction ls generalizing pending r with
  | nil => cases pending <;> cases run <;> exact fun i mem => .inl mem
  | cons l rest ih =>
    obtain ⟨pending', r1, first, run⟩ := lexemes_cons_ok run
    intro i mem
    rw [asks, flatMap_append, mem_append, first]
    rcases ih run i mem with old | new
    · -- what the first lexeme has recorded
      cases ask : asked pending l with
      | none =>
        have files := (quiet_lexeme (r := r) ask load).1
        rw [first] at files
        have same : r1.files = r.files := files
        rw [same] at old
        exact .inl old
      | some name =>
        refine (h name r r1 (load_of_asked ask first) i old).imp_right fun mem => .inl ?_
        simpa [ask] using mem
    · exact .inr (.inr new)

lemma covers_source (library : Library) (depth : Nat) :
    Covers (source library depth) (lexed library depth) := by
  induction depth with
  | zero => exact fun _ _ _ run => nomatch run
  | succ depth ih => exact fun text r r' run => ih.loadInclude.lexemes run

end Reading

lemma Vocabulary.includes_tokens {v : Vocabulary} {library : Library}
    {tokens : List Token} (read : (v.tokens library text).1 = .ok tokens) :
    ∀ i ∈ (v.tokens library text).2.files.includes,
      i ∈ v.files.includes ∨ i ∈ v.lexed library text := by
  rw [tokens_run] at read ⊢
  cases run : Reading.source library (Reading.depthBound library) text v.opening with
  | error e r =>
    rw [run] at read
    cases read
  | ok a r =>
    exact Reading.covers_source library (Reading.depthBound library) text _ r run

namespace Compile

variable {s s' : Session}

/-! ### Calls that succeed -/

lemma includes_reading (run : reading text s = .ok () s') :
    ∀ i ∈ s'.files.includes, i ∈ s.files.includes ∨
      i ∈ s.toVocabulary.lexed s.options.library text := by
  rw [reading_run] at run
  cases read : (s.toVocabulary.tokens s.options.library text).1 with
  | error e =>
    rw [read] at run
    cases run
  | ok tokens =>
    have covered := Vocabulary.includes_tokens read
    rw [read] at run
    cases debug : s.options.debug <;> rw [debug] at run <;> cases run <;> exact covered

lemma includes_fileReading (run : fileReading path header s = .ok () s') :
    ∃ text, s.options.library.tree.read path = .ok text ∧
      ∀ i ∈ s'.files.includes, i ∈ s.files.includes ∨
        i ∈ s.toVocabulary.lexed s.options.library text := by
  rw [fileReading_run] at run
  cases read : s.options.library.tree.read path with
  | error fault =>
    rw [read] at run
    cases run
  | ok text =>
    rw [read] at run
    have covered := includes_reading run
    exact ⟨text, rfl, covered⟩

/-- A source that is read without an error has read all files that it records. -/
lemma includes_load (run : load source s = .ok found s') :
    ∀ i ∈ s'.files.includes, i ∈ s.files.includes ∨ i ∈ source.lexed s := by
  cases source with
  | program text =>
    change (reading text >>= fun _ => pure true : Compile Bool)
      { s with headers := s.headers ++ [.ofProgram text] } = .ok found s' at run
    obtain ⟨_, s1, read, done⟩ := bind_ok.mp run
    cases done
    have covered := includes_reading read
    exact covered
  | file name =>
    rw [load_file] at run
    rw [Source.lexed]
    cases added : s.files.addSource s.options.library.tree (s.options.library.locate name) with
    | error e =>
      rw [added] at run
      cases run
    | ok files =>
      rw [added] at run
      obtain ⟨_, s1, read, done⟩ := bind_ok.mp run
      cases done
      obtain ⟨text, content, covered⟩ := includes_fileReading read
      obtain ⟨-, rfl⟩ := addSource_ok added
      have content' : s.options.library.tree.read (s.options.library.locate name) = .ok text :=
        content
      intro i mem
      rw [content']
      exact (covered i mem).imp_right fun mem => mem_cons_of_mem _ mem
  | included name =>
    rw [load_included] at run
    rw [Source.lexed]
    cases added : s.files.addInclude s.options.library.tree (s.options.library.locate name) with
    | error e =>
      rw [added] at run
      cases run
    | ok entry =>
      rw [added] at run
      cases entry with
      | none =>
        cases run
        exact fun i mem => .inl mem
      | some files =>
        obtain ⟨_, s1, read, done⟩ := bind_ok.mp run
        cases done
        obtain ⟨text, content, covered⟩ := includes_fileReading read
        obtain ⟨-, rfl⟩ := addInclude_some added
        have content' : s.options.library.tree.read (s.options.library.locate name) = .ok text :=
          content
        intro i mem
        rw [content']
        rcases covered i mem with old | new
        · rcases mem_append.mp old with old | own
          · exact .inl old
          · exact .inr (mem_cons.mpr (.inl (mem_singleton.mp own)))
        · exact .inr (mem_cons_of_mem _ new)

lemma reading_includes (run : reading text s = .ok () s') :
    s.files.includes ⊆ s'.files.includes := by
  have grows := (grows_reading text s).includes
  rw [run] at grows
  exact grows

/-- An include that is read without an error leaves its file recorded. -/
lemma recorded_load (run : load (.included name) s = .ok found s') :
    s.options.library.tree.identity (s.options.library.locate name) ∈ s'.files.includes := by
  rw [load_included] at run
  cases added : s.files.addInclude s.options.library.tree (s.options.library.locate name) with
  | error e =>
    rw [added] at run
    cases run
  | ok entry =>
    rw [added] at run
    cases entry with
    | none =>
      cases run
      exact addInclude_none added
    | some files =>
      obtain ⟨_, s1, read, done⟩ := bind_ok.mp run
      cases done
      obtain ⟨-, rfl⟩ := addInclude_some added
      rw [fileReading_run] at read
      dsimp only at read
      split at read
      · cases read
      · -- the record was made before, and reading keeps it
        exact reading_includes read (mem_append_right _ mem_cons_self)

end Compile

namespace Call

variable {s : Session}

lemma recorded_of_succeeds (good : s.table.Good)
    (ok : succeeds (addSource (.included name) s) = true) :
    s.options.library.tree.identity (s.options.library.locate name) ∈
      (after (addSource (.included name) s)).files.includes := by
  rcases addSource_cases (.included name) good with
    ⟨s', found, -, sound, run⟩ | ⟨found, run⟩ | ⟨e, s', found, run, -⟩
  · rw [run, items_files sound]
    exact recorded_load found
  · rw [run]
    exact recorded_load found
  · rw [run] at ok
    cases ok

/-- A call that succeeds has read all files that it records. -/
lemma includes_run {call : Call} (good : s.table.Good) (ok : succeeds (call.run s) = true) :
    ∀ i ∈ (after (call.run s)).files.includes, i ∈ s.files.includes ∨ i ∈ call.lexed s := by
  cases call with
  | preset assignment =>
    rw [Call.run]
    rcases preset_cases assignment good with ⟨s', run, -, same, -⟩ | ⟨e, s', run, -, same⟩ <;>
      rw [run] <;> exact fun i mem => .inl (same ▸ mem)
  | source input =>
    rw [Call.run] at ok ⊢
    rcases addSource_cases input good with
      ⟨s', found, -, sound, run⟩ | ⟨found, run⟩ | ⟨e, s', found, run, -⟩
    · rw [run, items_files sound]
      exact includes_load found
    · rw [run]
      exact fun i mem => .inl mem
    · rw [run] at ok
      cases ok

/-- A file that is recorded after some calls was recorded by one of them. -/
lemma recorded_by (new : i ∉ s.files.includes) (found : i ∈ (last s calls).files.includes) :
    ∃ step ∈ trace s calls, i ∉ step.1.files.includes ∧
      i ∈ (after (step.2.run step.1)).files.includes := by
  induction calls generalizing s with
  | nil => exact absurd found new
  | cons call calls ih =>
    by_cases here : i ∈ (after (call.run s)).files.includes
    · exact ⟨(s, call), mem_cons_self, new, here⟩
    · obtain ⟨step, mem, first⟩ := ih here found
      exact ⟨step, mem_cons_of_mem _ mem, first⟩

/-- Some call has recorded a file that an include finds or leaves recorded, be it the
include itself or an earlier call. Unless that call failed, it has read the text of the
file and compiled it without an error. -/
theorem include_ok_compiled (options : Options) (calls : List Call) (name : String)
    (ok : succeeds (addSource (.included name) (last { options } calls)) = true) :
    let file := options.library.tree.identity (options.library.locate name)
    ∃ step ∈ trace { options } (calls ++ [.source (.included name)]),
      file ∉ step.1.files.includes ∧ file ∈ (after (step.2.run step.1)).files.includes ∧
      (succeeds (step.2.run step.1) = true → file ∈ step.2.lexed step.1) := by
  intro file
  have recorded : file ∈ (last { options }
    (calls ++ [.source (.included name)])).files.includes := by
    have found := recorded_of_succeeds (good_last options calls) ok
    rw [options_last] at found
    rw [last, List.foldl_append]
    exact found
  obtain ⟨step, mem, new, here⟩ := recorded_by (s := { options }) nofun recorded
  have good := (returns_of_mem_trace Table.initial_good mem).1
  exact ⟨step, mem, new, here, fun done => (includes_run good done file here).resolve_left new⟩

/-- A file that was included along with another one. -/
theorem include_ok_compiled_nested :
    let calls : List Call := [.preset "v=1", .source (.program "@include \"a\"\n")]
    let file := ring.tree.identity (ring.locate "d/../b")
    succeeds (addSource (.included "d/../b") (last { options := { library := ring } } calls)) =
      true ∧
      ∃ step ∈ trace { options := { library := ring } } (calls ++ [.source (.included "d/../b")]),
        file ∉ step.1.files.includes ∧ file ∈ (after (step.2.run step.1)).files.includes ∧
        (succeeds (step.2.run step.1) = true → file ∈ step.2.lexed step.1) := by
  intro calls file
  have ok : succeeds (addSource (.included "d/../b")
      (last { options := { library := ring } } calls)) = true := by decide +kernel
  exact ⟨ok, include_ok_compiled { library := ring } calls "d/../b" ok⟩

/-- A file that could not be read is taken for included when it is named again. -/
theorem failed_include_succeeds_again :
    let again : Call := .source (.included "missing")
    succeeds (again.run {}) = false ∧ succeeds (again.run (after (again.run {}))) = true ∧
      again.lexed {} = [] ∧ again.lexed (after (again.run {})) = [] := by
  decide +kernel

end Call

end AwkToPython
