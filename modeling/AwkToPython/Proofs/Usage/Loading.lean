import AwkToPython.Proofs.Usage.Source

/-!
# Loading files

Sources and includes of all calls on one session share one record of files. So a
file is read once in the whole program and in one way, whichever of its paths
names it and however files include each other.
-/
namespace AwkToPython

open Compile

/-- The files whose texts are read for a text that a session reads. -/
def Vocabulary.lexed (v : Vocabulary) (library : Library) (text : String) : List Identity :=
  Reading.lexed library (Reading.depthBound library) text v.opening

lemma Vocabulary.tokens_grows (v : Vocabulary) (library : Library) (text : String) :
    v.files.Grows (v.tokens library text).2.files (v.lexed library text) := by
  have grows := Reading.records_source library (Reading.depthBound library) text v.opening
  rw [tokens_run]
  split <;> rename_i run <;> rw [run] at grows <;> exact grows

lemma Vocabulary.tokens_ne_exhausted (v : Vocabulary) (library : Library) (text : String) :
    (v.tokens library text).1 ≠ .error .exhausted := by
  have going := (Reading.source_depthBound library text v.opening).2
  rw [tokens_run]
  split
  case h_1 e r run =>
    intro failed
    cases failed
    exact going r run
  case h_2 => nofun

/-! ### Sources -/

/-- The files whose texts are read for a source. -/
def Source.lexed (s : Session) : Source → List Identity
  | .program text => s.toVocabulary.lexed s.options.library text
  | .file name =>
    let path := s.options.library.locate name
    match s.files.addSource s.options.library.tree path, s.options.library.tree.read path with
    | .ok files, .ok text =>
      s.options.library.tree.identity path ::
        { s.toVocabulary with files }.lexed s.options.library text
    | _, _ => []
  | .included name =>
    let path := s.options.library.locate name
    match s.files.addInclude s.options.library.tree path, s.options.library.tree.read path with
    | .ok (some files), .ok text =>
      s.options.library.tree.identity path ::
        { s.toVocabulary with files }.lexed s.options.library text
    | _, _ => []

namespace Compile

variable {s : Session}

lemma grows_reading (text : String) (s : Session) :
    s.files.Grows (after (reading text s)).files (s.toVocabulary.lexed s.options.library text) := by
  have grows := s.toVocabulary.tokens_grows s.options.library text
  rw [reading_run]
  cases (s.toVocabulary.tokens s.options.library text).1 with
  | error e => exact grows
  | ok tokens => cases s.options.debug <;> exact grows

lemma after_found (x : Compile Unit) (s : Session) :
    after ((do x; return true : Compile Bool) s) = after (x s) := by
  simp only [Bind.bind, EStateM.bind]
  cases x s <;> rfl

end Compile

/-! ### Calls -/

namespace Call

variable {s : Session}

/-- The files whose texts are read in a call. -/
def lexed (s : Session) : Call → List Identity
  | .preset _ => []
  | .source input => input.lexed s

/-- Compiling what was read leaves the files alone. -/
lemma items_files (sound : s.Sound) : (after (Item.items (itemFuel s) s)).files = s.files :=
  congrArg (fun setting => setting.2.1) (Item.leaves_items (itemFuel s) sound).keeps.setting

lemma options_last (options : Options) (calls : List Call) :
    (last { options } calls).options = options :=
  (returns_last calls Table.initial_good).options

/-- Two files that include each other, one of them along a detour, and another one. -/
def ring : Library where
  tree := { nodes := [
    (["a"], .file { content := .text "@include \"./b\"\nBEGIN \x7b x = 1 \x7d\n" }),
    (["b"], .file { content := .text "@include \"d/../a\"\n" }), (["d"], .directory),
    (["c"], .file { content := .text "BEGIN \x7b y = 1 \x7d\n" })] }

end Call

end AwkToPython
