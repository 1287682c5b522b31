import AwkToPython.Token.Reading
import Mathlib.Data.List.Nodup

/-!
# The files that are read

A file is recorded before its text is read, and no text is read for a file that is
recorded already. So however files include each other, each text is read at most
once. The files that are not recorded yet bound how deep includes can be nested.
-/
namespace AwkToPython

open List SourceFiles

/-! ### Records of files -/

namespace SourceFiles

variable {files files' files'' : SourceFiles} {tree : FileTree} {path : String} {name : String}
  {lexed lexed' : List Identity}

/-- Each file is recorded once and in one way. -/
structure Registered (files : SourceFiles) : Prop where
  sources : files.sources.Nodup
  includes : files.includes.Nodup
  disjoint : files.sources.Disjoint files.includes

def Records (files : SourceFiles) (identity : Identity) : Prop :=
  identity ∈ files.sources ∨ identity ∈ files.includes

/-- What comes of records while some files are read: no record is lost, and each of
the files read gets its first one. -/
structure Grows (files files' : SourceFiles) (lexed : List Identity) : Prop where
  registered : files.Registered → files'.Registered
  sources : files.sources ⊆ files'.sources
  includes : files.includes ⊆ files'.includes
  nodup : lexed.Nodup
  fresh : ∀ i ∈ lexed, ¬ files.Records i ∧ files'.Records i

namespace Grows

lemma refl (files : SourceFiles) : files.Grows files [] :=
  ⟨id, fun _ => id, fun _ => id, .nil, by simp⟩

lemma records (h : files.Grows files' lexed) (old : files.Records i) : files'.Records i :=
  old.imp (fun mem => h.sources mem) fun mem => h.includes mem

lemma trans (h : files.Grows files' lexed) (h' : files'.Grows files'' lexed') :
    files.Grows files'' (lexed ++ lexed') := by
  refine ⟨h'.registered ∘ h.registered, List.Subset.trans h.sources h'.sources,
    List.Subset.trans h.includes h'.includes, ?_, fun i mem => ?_⟩
  · refine h.nodup.append h'.nodup fun i mem mem' => ?_
    exact (h'.fresh i mem').1 (h.fresh i mem).2
  · rcases mem_append.mp mem with mem | mem
    · exact ⟨(h.fresh i mem).1, h'.records (h.fresh i mem).2⟩
    · exact ⟨fun old => (h'.fresh i mem).1 (h.records old), (h'.fresh i mem).2⟩

/-- A file may be recorded without being read. -/
lemma unread (h : files.Grows files' lexed) : files.Grows files' [] :=
  ⟨h.registered, h.sources, h.includes, .nil, by simp⟩

end Grows

lemma addSource_ok (h : files.addSource tree path = .ok files') :
    ¬ files.Records (tree.identity path) ∧
      files' = { files with sources := files.sources ++ [tree.identity path] } := by
  simp only [addSource, contains_iff_mem] at h
  split at h
  · cases h
  · split at h
    · cases h
    · cases h
      exact ⟨fun old => old.elim ‹_› ‹_›, rfl⟩

lemma addInclude_some (h : files.addInclude tree path = .ok (some files')) :
    ¬ files.Records (tree.identity path) ∧
      files' = { files with includes := files.includes ++ [tree.identity path] } := by
  simp only [addInclude, contains_iff_mem] at h
  split at h
  · cases h
  · split at h
    · cases h
    · cases h
      exact ⟨fun old => old.elim ‹_› ‹_›, rfl⟩

lemma grows_addInclude (h : files.addInclude tree path = .ok (some files')) :
    files.Grows files' [tree.identity path] := by
  obtain ⟨unknown, rfl⟩ := addInclude_some h
  refine ⟨fun known => ⟨known.sources, ?_, ?_⟩, fun _ => id, by simp, by simp, ?_⟩
  · exact known.includes.append (by simp) (by simpa using fun mem => unknown (.inr mem))
  · intro i mem mem'
    rcases mem_append.mp mem' with mem' | mem'
    · exact known.disjoint mem mem'
    · exact unknown (.inl (mem_singleton.mp mem' ▸ mem))
  · simpa [Records] using unknown

end SourceFiles

lemma FileTree.identity_of_read {tree : FileTree} {path text : String}
    (h : tree.read path = .ok text) :
    ∃ entry ∈ tree.nodes, tree.identity path = .located entry.1 := by
  rw [read, file?, reach] at h
  cases fault : Path.fault? path with
  | some fault => simp [fault] at h
  | none =>
    cases found : tree.resolve path with
    | error e => simp [fault, found] at h
    | ok location =>
      cases entry : tree.nodes.lookup location with
      | none =>
        simp only [fault, found, node?, entry] at h
        split at h
        all_goals grind
      | some node =>
        obtain ⟨before, behind, same, -⟩ := lookup_eq_some_iff.mp entry
        exact ⟨(location, node), by simp [same], by simp [identity, found]⟩

namespace SourceFiles

variable {files files' : SourceFiles} {tree : FileTree} {path : String} {lexed : List Identity}

/-! ### Files without a record -/

/-- The number of entries of a tree that are not included yet. -/
def left (files : SourceFiles) (tree : FileTree) : Nat :=
  (tree.nodes.filter fun entry => decide (.located entry.1 ∉ files.includes)).length

lemma left_le (files : SourceFiles) (tree : FileTree) : files.left tree ≤ tree.nodes.length :=
  length_filter_le _ _

lemma Grows.left_le (h : files.Grows files' lexed) (tree : FileTree) :
    files'.left tree ≤ files.left tree := by
  refine (monotone_filter_right tree.nodes fun entry unknown => ?_).length_le
  simp only [decide_eq_true_eq] at unknown ⊢
  exact fun old => unknown (h.includes old)

/-- To read a file takes one of the entries that are left. -/
lemma left_lt {text : String} (h : files.addInclude tree path = .ok (some files'))
    (read : tree.read path = .ok text) : files'.left tree < files.left tree := by
  obtain ⟨entry, mem, same⟩ := FileTree.identity_of_read read
  obtain ⟨unknown, rfl⟩ := addInclude_some h
  rw [same] at unknown ⊢
  refine Nat.lt_of_le_of_ne (Grows.left_le (same ▸ grows_addInclude h) tree) fun equal => ?_
  have sub : (tree.nodes.filter fun entry' =>
      decide (.located entry'.1 ∉ files.includes ++ [.located entry.1])).Sublist
      (tree.nodes.filter fun entry' => decide (.located entry'.1 ∉ files.includes)) :=
    monotone_filter_right tree.nodes fun entry' apart => by
      simp only [mem_append, not_or, decide_eq_true_eq] at apart ⊢
      exact apart.1
  have found : entry ∈ tree.nodes.filter fun entry' =>
      decide (.located entry'.1 ∉ files.includes) :=
    mem_filter.mpr ⟨mem, by simpa using fun old => unknown (.inr old)⟩
  rw [← sub.eq_of_length equal] at found
  simp at found

end SourceFiles

/-! ### Texts that are read -/

namespace Reading

variable {pending : Option Directive} {l : Lexeme}

variable {α β : Type} {library : Library} {r : Reading}

/-- The reading that a step leaves behind, whether it failed or not. -/
def left : EStateM.Result Error Reading α → Reading
  | .ok _ r => r
  | .error _ r => r

/-- Read one lexeme; the result is the directive that waits for its string. -/
def lexeme (load : String → Read Unit) (pending : Option Directive) :
    Lexeme → Read (Option Directive)
  | .fault fault place => throw (.lexical fault place)
  | .comment text place spaced ownLine => do
    let symbol ← intern (·.comment text ownLine)
    push { symbol, place, spaced, role := .comment }
    return pending
  | .lineEnd place =>
    match pending with
    | some directive => throw (.lexical (.directiveAlone directive) ⟨place.line, 1⟩)
    | none => do
      push { symbol := Table.newline, place, spaced := true, role := .newline }
      return none
  | .word text place spaced => word load pending text place spaced

lemma lexemes_cons (load : String → Read Unit) (pending : Option Directive) (l : Lexeme)
    (rest : List Lexeme) :
    lexemes load pending (l :: rest) = (do lexemes load (← lexeme load pending l) rest) := by
  cases l <;> cases pending <;> rfl

/-- The name of the file that a lexeme asks for. -/
def asked (pending : Option Directive) : Lexeme → Option String
  | .word text _ _ =>
    if directive? text = none ∧ pending = some .includeFile ∧ Text.startsWith "\"" text = true
    then some (Literal.value text) else none
  | _ => none

lemma lexeme_of_asked (h : asked pending l = some name) (load : String → Read Unit) :
    lexeme load pending l = (do load name; return none) := by
  cases l with
  | word text place spaced =>
    simp only [asked, Option.ite_none_right_eq_some, Option.some.injEq] at h
    obtain ⟨⟨plain, rfl, quoted⟩, rfl⟩ := h
    simp only [lexeme, word, plain, quoted, if_true]
    rfl
  | _ => cases h

lemma lexemes_cons_ok {load : String → Read Unit}
    (run : lexemes load pending (l :: rest) r = .ok () r') : ∃ pending' r1,
      lexeme load pending l r = .ok pending' r1 ∧ lexemes load pending' rest r1 = .ok () r' := by
  simp only [lexemes_cons, Bind.bind, EStateM.bind] at run
  cases step : lexeme load pending l r with
  | error e r1 => simp [step] at run
  | ok pending' r1 => exact ⟨pending', r1, rfl, by simpa [step] using run⟩

lemma load_of_asked {load : String → Read Unit} (h : asked pending l = some name)
    (run : lexeme load pending l r = .ok pending' r') : load name r = .ok () r' := by
  simp only [lexeme_of_asked h, Bind.bind, EStateM.bind] at run
  cases loaded : load name r with
  | error e r1 => simp [loaded] at run
  | ok a r1 =>
    rw [loaded] at run
    cases run
    rfl

lemma left_lexeme_of_asked {load : String → Read Unit} (h : asked pending l = some name) :
    left (lexeme load pending l r) = left (load name r) := by
  rw [lexeme_of_asked h]
  simp only [Bind.bind, EStateM.bind]
  cases load name r <;> rfl

/-- A step that reads no file and leaves the records of files alone. -/
def Quiet (x : Read α) (r : Reading) : Prop :=
  (left (x r)).files = r.files ∧ ∀ r', x r ≠ .error .exhausted r'

lemma Quiet.congr (same : x r = y r) (h : Quiet y r) : Quiet x r := by
  rwa [Quiet, same]

lemma quiet_throw (h : e ≠ .exhausted) : Quiet (throw e : Read α) r :=
  ⟨rfl, fun r' run => h (by cases run; rfl)⟩

lemma Quiet.bind {f : α → Read β} (hx : Quiet x r)
    (hf : ∀ a r', Quiet (f a) r') : Quiet (x >>= f) r := by
  obtain ⟨same, going⟩ := hx
  simp only [Quiet, Bind.bind, EStateM.bind]
  cases run : x r with
  | ok a r1 =>
    rw [run] at same
    obtain ⟨same', going'⟩ := hf a r1
    exact ⟨same'.trans same, going'⟩
  | error e r1 =>
    rw [run] at same going
    exact ⟨same, fun r' h => going r' (by cases h; rfl)⟩

lemma quiet_pure (a : α) : Quiet (pure a) r := ⟨rfl, nofun⟩

lemma quiet_intern (add : Table → SymbolId × Table) : Quiet (intern add) r := ⟨rfl, nofun⟩

lemma quiet_push (token : Token) : Quiet (push token) r := ⟨rfl, nofun⟩

lemma get_bind (f : Reading → Read α) (r : Reading) : (get >>= f) r = f r r := rfl

/-- A reserved word is the symbol that it is; every other name is a variable. -/
lemma nameSymbol_cases (text : String) (r : Reading) :
    (∃ id, r.table.find? text = some id ∧ r.table.isReserved text = true ∧
      nameSymbol text r = (pure id : Read SymbolId) r) ∨
    r.table.isReserved text = false ∧ nameSymbol text r = (do
      set { r with registry := r.registry.meet (r.registry.resolve text).1 }
      intern (·.internVariable ((r.registry.resolve text).1.key (r.registry.resolve text).2)
        (r.registry.resolve text).1.pythonLead (r.registry.resolve text).2) : Read SymbolId) r := by
  rw [nameSymbol, get_bind]
  cases found : r.table.find? text with
  | none =>
    have free : r.table.isReserved text = false := by simp [Table.isReserved, found]
    exact .inr ⟨free, rfl⟩
  | some id =>
    cases r.table.isReserved text with
    | true => exact .inl ⟨id, rfl, rfl, rfl⟩
    | false => exact .inr ⟨rfl, rfl⟩

/-- Every other word is what it was before or a new literal. -/
lemma literalSymbol_cases (text : String) (place : Place) (r : Reading) :
    (∃ id, r.table.find? text = some id ∧
      literalSymbol text place r = (pure id : Read SymbolId) r) ∨
    r.table.find? text = none ∧ literalSymbol text place r = newLiteral text place r := by
  rw [literalSymbol, get_bind]
  cases r.table.find? text with
  | none => exact .inr ⟨rfl, rfl⟩
  | some id => exact .inl ⟨id, rfl, rfl⟩

lemma quiet_nameSymbol (text : String) : Quiet (nameSymbol text) r := by
  rcases nameSymbol_cases text r with ⟨id, -, -, run⟩ | ⟨-, run⟩
  · exact .congr run (quiet_pure id)
  · exact .congr run ⟨rfl, fun _ same => by cases same⟩

lemma quiet_literalSymbol (text : String) (place : Place) : Quiet (literalSymbol text place) r := by
  rcases literalSymbol_cases text place r with ⟨id, -, run⟩ | ⟨-, run⟩
  · exact .congr run (quiet_pure id)
  · refine .congr run ?_
    dsimp only [newLiteral]
    split
    · exact quiet_intern _
    split
    · exact quiet_intern _
    split
    · exact quiet_intern _
    split
    · exact quiet_intern _
    · exact quiet_throw (by simp)

/-- Only a lexeme that asks for a file may read one. -/
lemma quiet_lexeme (h : asked pending l = none)
    (load : String → Read Unit) : Quiet (lexeme load pending l) r := by
  cases l with
  | fault fault place => exact quiet_throw nofun
  | comment text place spaced ownLine =>
    exact (quiet_intern _).bind fun _ _ => (quiet_push _).bind fun _ _ => quiet_pure _
  | lineEnd place =>
    cases pending with
    | some directive => exact quiet_throw nofun
    | none => exact (quiet_push _).bind fun _ _ => quiet_pure _
  | word text place spaced =>
    simp only [lexeme, word]
    split
    · exact quiet_pure _
    case h_2 directive plain =>
      split
      case isTrue quoted =>
        cases directive with
        | includeFile => simp [asked, plain, quoted] at h
        | enterNamespace => exact ⟨rfl, nofun⟩
      case isFalse =>
        have refuses : Quiet (throw (.lexical (.unquotedName text) place) : Read Unit) r :=
          quiet_throw nofun
        exact refuses.bind fun _ _ => quiet_pure _
    · refine Quiet.bind ?_ fun _ _ => (quiet_push _).bind fun _ _ => quiet_pure _
      rw [wordSymbol]
      split
      · exact quiet_nameSymbol _
      · exact quiet_literalSymbol _ _

/-- What a lexeme does that asks for no file does not depend on how files are read. -/
lemma lexeme_congr (h : asked pending l = none)
    (load load' : String → Read Unit) : lexeme load pending l = lexeme load' pending l := by
  cases l with
  | word text place spaced =>
    simp only [lexeme, word]
    split
    · rfl
    case h_2 directive plain =>
      cases directive with
      | enterNamespace => rfl
      | includeFile =>
        cases quoted : Text.startsWith "\"" text with
        | true => simp [asked, plain, quoted] at h
        | false => rfl
    · rfl
  | _ => rfl

/-- The files that lexemes ask for, each with the reading in which it is asked for. -/
def asks (load : String → Read Unit) :
    Option Directive → List Lexeme → Reading → List (String × Reading)
  | _, [], _ => []
  | pending, l :: rest, r =>
    ((asked pending l).map (·, r)).toList ++
      match lexeme load pending l r with
      | .ok pending' r' => asks load pending' rest r'
      | .error _ _ => []

/-- The text of a file that has to be read, and the reading in which it is read. -/
def opened (library : Library) (name : String) (r : Reading) : Option (String × Reading) :=
  match r.files.addInclude library.tree (library.locate name),
    library.tree.read (library.locate name) with
  | .ok (some files), .ok text =>
    some (text, { r with files, registry := { r.registry with current := Namespace.default } })
  | _, _ => none

/-- The file of a name and those read for its text, if it has to be read. -/
def lexedAt (library : Library) (lexed : String → Reading → List Identity) (name : String)
    (r : Reading) : List Identity :=
  match opened library name r with
  | some (text, r') => library.tree.identity (library.locate name) :: lexed text r'
  | none => []

/-- The files whose texts are read for a text, in order. -/
def lexed (library : Library) : Nat → String → Reading → List Identity
  | 0, _, _ => []
  | depth + 1, text, r =>
    (asks (loadInclude library (source library depth)) none (Lexeme.scan text) r).flatMap
      fun ask => lexedAt library (lexed library depth) ask.1 ask.2

lemma loadInclude_run (library : Library) (source : String → Read Unit) (name : String)
    (r : Reading) :
    loadInclude library source name r =
      match r.files.addInclude library.tree (library.locate name) with
      | .error e => .error e r
      | .ok none => .ok () r
      | .ok (some files) =>
        match library.tree.read (library.locate name) with
        | .error fault => .error (.unreadable (library.locate name) fault) { r with files }
        | .ok text => restoring (source text)
          (fun r' => { r' with registry := { r'.registry with current := r.registry.current } })
          { r with files, registry := { r.registry with current := Namespace.default } } := by
  rw [loadInclude]
  change (liftExcept (r.files.addInclude library.tree (library.locate name)) >>= _ :
    Read Unit) r = _
  cases r.files.addInclude library.tree (library.locate name) with
  | error e => rfl
  | ok found =>
    cases found with
    | none => rfl
    | some files =>
      change (match library.tree.read (library.locate name) with
        | .error fault => throw (.unreadable (library.locate name) fault)
        | .ok text => inDefaultNamespace (source text) : Read Unit) { r with files } = _
      cases library.tree.read (library.locate name) <;> rfl

lemma loadInclude_cases (library : Library) (name : String) (r : Reading) :
    (∃ text r1, opened library name r = some (text, r1) ∧
      r.files.Grows r1.files [library.tree.identity (library.locate name)] ∧
      r1.files.left library.tree < r.files.left library.tree ∧
      ∀ source, loadInclude library source name r = restoring (source text)
        (fun r' => { r' with registry := { r'.registry with current := r.registry.current } }) r1) ∨
    opened library name r = none ∧ ∃ result, r.files.Grows (left result).files [] ∧
      (∀ r', result ≠ .error .exhausted r') ∧
      ∀ source, loadInclude library source name r = result := by
  rw [opened]
  cases added : r.files.addInclude library.tree (library.locate name) with
  | error e =>
    have other : e ≠ .exhausted := by
      rw [addInclude] at added
      grind
    refine .inr ⟨rfl, .error e r, .refl _, fun r' h => other (by cases h; rfl), fun source => ?_⟩
    rw [loadInclude_run, added]
  | ok found =>
    cases found with
    | none =>
      exact .inr ⟨rfl, .ok () r, .refl _, nofun, fun source => by rw [loadInclude_run, added]⟩
    | some files =>
      have grows := grows_addInclude added
      cases read : library.tree.read (library.locate name) with
      | error fault =>
        refine .inr ⟨rfl, .error (.unreadable (library.locate name) fault) { r with files },
          grows.unread, nofun, fun source => ?_⟩
        rw [loadInclude_run, added, read]
      | ok text =>
        refine .inl ⟨text, _, rfl, grows, left_lt added read, fun source => ?_⟩
        rw [loadInclude_run, added, read]

lemma loadInclude_ok {load : String → Read Unit}
    (run : loadInclude library load name r = .ok () r') :
    opened library name r = none ∧ r' = r ∨ ∃ text files r1 r2,
      r.files.addInclude library.tree (library.locate name) = .ok (some files) ∧
      r1.files = files ∧ r1.tokens = r.tokens ∧ opened library name r = some (text, r1) ∧
      load text r1 = .ok () r2 ∧ r'.files = r2.files ∧ r'.tokens = r2.tokens := by
  rw [loadInclude_run] at run
  rw [opened]
  cases added : r.files.addInclude library.tree (library.locate name) with
  | error e => simp [added] at run
  | ok found =>
    cases found with
    | none =>
      rw [added] at run
      cases run
      exact .inl ⟨rfl, rfl⟩
    | some files =>
      cases read : library.tree.read (library.locate name) with
      | error fault => simp [added, read] at run
      | ok text =>
        simp only [added, read, restoring] at run
        split at run
        case h_1 r2 inner =>
          cases run
          exact .inr ⟨text, files, { r with
            files, registry := { r.registry with current := Namespace.default } }, r2,
            rfl, rfl, rfl, rfl, inner, rfl, rfl⟩
        case h_2 => cases run

lemma left_restoring (x : Read Unit) (restore : Reading → Reading) (r : Reading) :
    left (restoring x restore r) = restore (left (x r)) := by
  rw [restoring]
  cases x r <;> rfl

/-! ### Each text is read once -/

section Once

variable {load : String → Read Unit} {log : String → Reading → List Identity}

/-- Reading keeps the records in order, and each file it reads is new. -/
def Records (load : String → Read Unit) (log : String → Reading → List Identity) : Prop :=
  ∀ (name : String) (r : Reading), r.files.Grows (left (load name r)).files (log name r)

lemma Records.loadInclude (h : Records load log) :
    Records (loadInclude library load) (lexedAt library log) := by
  intro name r
  rw [lexedAt]
  rcases loadInclude_cases library name r with
    ⟨text, r1, found, grows, -, run⟩ | ⟨found, result, grows, -, run⟩
  · rw [found, run, left_restoring]
    exact grows.trans (h text r1)
  · rw [found, run]
    exact grows

lemma Records.lexemes (h : Records load log) (ls : List Lexeme) (pending : Option Directive)
    (r : Reading) : r.files.Grows (left (lexemes load pending ls r)).files
      ((asks load pending ls r).flatMap fun ask => log ask.1 ask.2) := by
  induction ls generalizing pending r with
  | nil => cases pending <;> exact .refl _
  | cons l rest ih =>
    -- what the first lexeme reads, and then what the others do
    have first : r.files.Grows (left (lexeme load pending l r)).files
        (((asked pending l).map (·, r)).toList.flatMap fun ask => log ask.1 ask.2) := by
      cases ask : asked pending l with
      | none =>
        rw [(quiet_lexeme ask load).1]
        exact .refl _
      | some name =>
        rw [left_lexeme_of_asked ask]
        simpa using h name r
    rw [lexemes_cons, asks, flatMap_append]
    simp only [Bind.bind, EStateM.bind]
    cases run : lexeme load pending l r with
    | ok pending' r' =>
      rw [run] at first
      exact first.trans (ih pending' r')
    | error e r' =>
      rw [run] at first
      rw [flatMap_nil, append_nil]
      exact first

lemma records_source (library : Library) (depth : Nat) :
    Records (source library depth) (lexed library depth) := by
  induction depth with
  | zero => exact fun _ _ => .refl _
  | succ depth ih => exact fun text r => (ih.loadInclude).lexemes (Lexeme.scan text) none r

end Once

/-! ### The depth is enough -/

section Depth

variable {load load' : String → Read Unit} {n : Nat}

/-- Two ways to read agree and come to an end where fewer than `n` entries are left. -/
def Agree (tree : FileTree) (n : Nat) (load load' : String → Read Unit) : Prop :=
  ∀ (name : String) (r : Reading), r.files.left tree < n →
    load name r = load' name r ∧ ∀ r', load name r ≠ .error .exhausted r'

lemma Agree.loadInclude (h : Agree library.tree n load load') :
    Agree library.tree (n + 1) (loadInclude library load) (loadInclude library load') := by
  intro name r few
  rcases loadInclude_cases library name r with
    ⟨text, r1, -, -, fewer, run⟩ | ⟨-, result, -, going, run⟩
  · obtain ⟨same, going⟩ := h text r1 (Nat.lt_of_lt_of_le fewer (Nat.le_of_lt_succ few))
    rw [run, run, restoring, restoring, ← same]
    refine ⟨rfl, fun r' failed => ?_⟩
    cases out : load text r1 with
    | ok a r2 => simp [out] at failed
    | error e r2 =>
      rw [out] at failed
      cases failed
      exact going r2 out
  · rw [run, run]
    exact ⟨rfl, going⟩

lemma Agree.lexemes (h : Agree tree n load load')
    {log : String → Reading → List Identity} (records : Records load log) (ls : List Lexeme)
    (pending : Option Directive) (r : Reading) (few : r.files.left tree < n) :
    lexemes load pending ls r = lexemes load' pending ls r ∧
      ∀ r', lexemes load pending ls r ≠ .error .exhausted r' := by
  induction ls generalizing pending r with
  | nil => cases pending <;> exact ⟨rfl, nofun⟩
  | cons l rest ih =>
    obtain ⟨same, going, fewer⟩ : lexeme load pending l r = lexeme load' pending l r ∧
        (∀ r', lexeme load pending l r ≠ .error .exhausted r') ∧
        (left (lexeme load pending l r)).files.left tree < n := by
      cases ask : asked pending l with
      | none =>
        obtain ⟨files, going⟩ := quiet_lexeme (r := r) ask load
        exact ⟨by rw [lexeme_congr ask load load'], going, files ▸ few⟩
      | some name =>
        obtain ⟨same, going⟩ := h name r few
        have fewer := Nat.lt_of_le_of_lt ((records name r).left_le tree) few
        rw [lexeme_of_asked ask, lexeme_of_asked ask]
        simp only [Bind.bind, EStateM.bind, ← same]
        cases out : load name r with
        | ok a r1 =>
          rw [out] at fewer
          exact ⟨trivial, nofun, fewer⟩
        | error e r1 =>
          rw [out] at fewer going
          exact ⟨trivial, fun r' failed => going r' (by cases failed; rfl), fewer⟩
    rw [lexemes_cons, lexemes_cons]
    simp only [Bind.bind, EStateM.bind, ← same]
    cases run : lexeme load pending l r with
    | ok pending' r1 =>
      rw [run] at fewer
      exact ih pending' r1 fewer
    | error e r1 =>
      rw [run] at going
      exact ⟨rfl, fun r' failed => going r' (by cases failed; rfl)⟩

lemma agree_source (library : Library) (le : n ≤ depth) (le' : n ≤ depth') :
    Agree library.tree n (source library depth) (source library depth') := by
  induction n generalizing depth depth' with
  | zero => exact fun _ _ few => absurd few (Nat.not_lt_zero _)
  | succ n ih =>
    cases depth with
    | zero => cases le
    | succ depth =>
      cases depth' with
      | zero => cases le'
      | succ depth' =>
        have inner := ih (Nat.le_of_succ_le_succ le) (Nat.le_of_succ_le_succ le')
        intro text r few
        exact inner.loadInclude.lexemes (records_source library depth).loadInclude
          (Lexeme.scan text) none r few

/-- However files include each other, the bound on the depth cuts nothing off: the
text of an include is read as any other text. -/
lemma source_depthBound (library : Library) (text : String) (r : Reading) :
    source library (depthBound library) text r =
        lexemes (loadInclude library (source library (depthBound library))) none
          (Lexeme.scan text) r ∧
      ∀ r', source library (depthBound library) text r ≠ .error .exhausted r' := by
  have few : r.files.left library.tree < depthBound library :=
    Nat.lt_succ_of_le (left_le _ _)
  exact agree_source library (Nat.le_refl _) (Nat.le_succ _) text r few

end Depth

end Reading

end AwkToPython
