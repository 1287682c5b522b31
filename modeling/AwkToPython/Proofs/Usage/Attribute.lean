import AwkToPython.Proofs.Emission.Reading
import AwkToPython.Proofs.Usage.Initialisers
import AwkToPython.Proofs.Usage.Naming

/-!
# Variables as attributes

The Python text of a variable is `self.` and a name, which is put together from the
name of a namespace, two underscores and the bare name. The bare name is checked, and
so is a scope that is written before it. The name that a directive gives to a
namespace is not: it is an arbitrary string. So the text is an attribute that Python
can read just if the name of the namespace is an identifier or empty, and if all
directives give such names, all variables are attributes.

Which characters beyond ASCII are letters is a matter of Unicode and left open.
-/
namespace AwkToPython

open Python Name Namespace Table Vocabulary

namespace Python

/-- The characters of Python's identifiers. -/
structure Letters where
  start : Char → Bool
  inner : Char → Bool
  inner_of_start : ∀ c, start c = true → inner c = true
  start_ascii : ∀ c : Char, c.toNat < 128 → start c = isStart c
  inner_ascii : ∀ c : Char, c.toNat < 128 → inner c = isInner c

/-- The words that are no identifiers. -/
def keywords : List String := Word.keywordMarks ++ Word.otherKeywords

namespace Letters

variable {letters : Letters} {name rest : List Char}

/-- No letters beyond ASCII. -/
def ascii : Letters where
  start := isStart
  inner := isInner
  inner_of_start _ := isInner_of_isStart
  start_ascii _ _ := rfl
  inner_ascii _ _ := rfl

def isIdentifier (letters : Letters) : List Char → Bool
  | [] => false
  | c :: cs => letters.start c && cs.all letters.inner

/-- The text is an attribute of `self`. -/
def IsAttribute (letters : Letters) (text : String) : Prop :=
  ∃ name : String, text = "self." ++ name ∧ letters.isIdentifier name.toList = true ∧
    name ∉ keywords

/-- The name of a namespace that can stand in an attribute. -/
def Scopes (letters : Letters) (name : String) : Prop :=
  name = "" ∨ letters.isIdentifier name.toList = true

instance (name : String) : Decidable (letters.Scopes name) := inferInstanceAs (Decidable (_ ∨ _))

lemma isIdentifier_append (some_ : name ≠ []) : letters.isIdentifier (name ++ rest) ↔
      letters.isIdentifier name ∧ rest.all letters.inner := by
  cases name with
  | nil => exact absurd rfl some_
  | cons c cs => simp [isIdentifier, and_assoc]

end Letters

end Python

namespace Name

open Python (Letters)

lemma toNat_of_isInner (h : isInner c) : c.toNat < 128 := by
  rw [isInner, Bool.or_eq_true, decide_eq_true_eq] at h
  rcases h with letter | rfl
  · delta Char.isAlphanum Char.isAlpha Char.isUpper Char.isLower Char.isDigit at letter
    simp [UInt32.le_iff_toNat_le] at letter
    have same : c.toNat = c.val.toNat := rfl
    omega
  · decide

/-- Names of AWK are made of Python's letters. -/
lemma all_inner (letters : Letters) (h : isIdentifier s) : s.toList.all letters.inner := by
  rw [List.all_eq_true]
  intro c mem
  have inner := isInner_of_mem h c mem
  rwa [letters.inner_ascii c (toNat_of_isInner inner)]

lemma isIdentifier_letters (letters : Letters) (h : isIdentifier s) :
    letters.isIdentifier s.toList := by
  have inner := all_inner letters h
  rw [isIdentifier] at h
  cases text : s.toList with
  | nil =>
    rw [text] at h
    cases h
  | cons c cs =>
    rw [text, isIdentifierChars, Bool.and_eq_true] at h
    rw [text, List.all_cons, Bool.and_eq_true] at inner
    rw [Letters.isIdentifier, Bool.and_eq_true,
      letters.start_ascii c (toNat_of_isInner (isInner_of_isStart h.1))]
    exact ⟨h.1, inner.2⟩

lemma isIdentifier_python (h : isIdentifier s) : isIdentifier (python s) := by
  have all : ∀ k ∈ pythonKeywords, isIdentifier (k ++ "_") := by decide
  by_cases mem : s ∈ pythonKeywords
  · rw [python_of_mem mem]
    exact all s mem
  · rwa [python_of_not_mem mem]

lemma not_mem_keywords (line : '_' ∈ s.toList) : s ∉ keywords := by
  have all : ∀ k ∈ keywords, '_' ∉ k.toList := by decide
  exact fun mem => all s mem line

/-- A name that is no word of AWK is no keyword once it is escaped. -/
lemma python_not_mem_keywords (apart : s ∉ sharedKeywords) : python s ∉ keywords := by
  by_cases mem : s ∈ pythonKeywords
  · rw [python_of_mem mem]
    exact not_mem_keywords (by simp)
  · rw [python_of_not_mem mem]
    have all : ∀ k ∈ keywords, k ∈ pythonKeywords ∨ k ∈ sharedKeywords := by decide
    exact fun keyword => (all s keyword).elim mem apart

end Name

namespace Python.Letters

lemma isAttribute_iff {letters : Letters} (cs : List Char)
    (behind : text.toList = "self.".toList ++ cs) :
    letters.IsAttribute text ↔ letters.isIdentifier cs ∧ String.ofList cs ∉ keywords := by
  constructor
  · rintro ⟨name, rfl, identifier, free⟩
    rw [String.toList_append, List.append_cancel_left_eq] at behind
    rw [← behind, String.ofList_toList]
    exact ⟨identifier, free⟩
  · rintro ⟨identifier, free⟩
    refine ⟨String.ofList cs, String.toList_inj.mp ?_, by rwa [String.toList_ofList], free⟩
    rw [String.toList_append, String.toList_ofList (l := cs), behind]

end Python.Letters

namespace Namespace

open Python (Letters)

lemma scopes_default (letters : Letters) : letters.Scopes default.name :=
  .inr (isIdentifier_letters letters (by decide))

/-- The text of a name is an attribute just if the name of its namespace is an
identifier, or nothing stands before it. -/
lemma isAttribute_pythonName (letters : Letters) (space : Namespace) {bare : String}
    (identifier : Name.isIdentifier bare) (apart : space = default → bare ∉ sharedKeywords) :
    letters.IsAttribute (space.pythonName bare) ↔ letters.Scopes space.name := by
  rw [Letters.isAttribute_iff _ (space.pythonName_eq bare), mark]
  have spelled := isIdentifier_python identifier
  by_cases same : space = default
  · have own : space.isDefault := decide_eq_true same
    have scopes := scopes_default letters
    rw [own, if_pos rfl, List.nil_append, String.ofList_toList]
    simp only [same, scopes, iff_true]
    exact ⟨isIdentifier_letters letters spelled, python_not_mem_keywords (apart same)⟩
  · have other : space.isDefault = false := decide_eq_false same
    have free : String.ofList (space.name.toList ++ ['_', '_'] ++ (python bare).toList) ∉
        keywords := not_mem_keywords (by simp)
    have line : letters.inner '_' := letters.inner_ascii '_' (by decide)
    have rest : (['_', '_'] ++ (python bare).toList).all letters.inner := by
      rw [List.all_append, Bool.and_eq_true]
      exact ⟨by simp [line], all_inner letters spelled⟩
    rw [other, if_neg (by simp), Letters.Scopes]
    simp only [free, not_false_eq_true, and_true]
    rw [List.append_assoc]
    cases named : space.name.toList with
    | nil =>
      have empty : space.name = "" := String.toList_inj.mp (named.trans rfl)
      have start : letters.start '_' := letters.start_ascii '_' (by decide)
      rw [List.cons_append, List.all_cons, Bool.and_eq_true] at rest
      simp only [empty, true_or, iff_true]
      rw [List.nil_append, List.cons_append, Letters.isIdentifier, start]
      exact rest.2
    | cons c cs =>
      have some_ : space.name ≠ "" := by
        intro empty
        rw [empty] at named
        cases named
      rw [Letters.isIdentifier_append (by simp), and_iff_left rest, or_iff_right some_]

end Namespace

namespace Vocabulary

/-- What is known after some texts are read, whether they can be read or not. -/
def readAll (v : Vocabulary) (library : Library) (texts : List String) : Vocabulary :=
  texts.foldl (fun v text => (v.tokens library text).2) v

lemma grows_readAll {v : Vocabulary} (good : v.table.Good) (library : Library)
    (texts : List String) : v.table.Grows (v.readAll library texts).table := by
  induction texts generalizing v with
  | nil => exact .refl _
  | cons text texts ih =>
    obtain ⟨good', grows, -⟩ := tokens_sound good library text
    exact grows.trans (ih good')

end Vocabulary

lemma Symbol.IsRangeFlag.isAttribute {s : Symbol} (letters : Letters) (h : s.IsRangeFlag) :
    letters.IsAttribute s.python := by
  obtain ⟨n, -, python⟩ := h
  have name := (isName_numbered "_range_" (by decide) (by decide) n).1
  refine ⟨"_range_" ++ toString n, python, isIdentifier_letters letters name,
    not_mem_keywords ?_⟩
  simp

/-- A variable is no word of the language, so only its namespace decides. -/
lemma Table.Orderly.isAttribute_iff {t : Table} (letters : Letters) (orderly : t.Orderly)
    {id : SymbolId} (var : (t.symbol id).isVariable) {space : Namespace} {bare : String}
    (names : (t.symbol id).Names space bare) :
    letters.IsAttribute (t.symbol id).python ↔ letters.Scopes space.name := by
  obtain ⟨identifier, key, python⟩ := names
  rw [python]
  refine space.isAttribute_pythonName letters identifier fun same => ?_
  have own := orderly.apart id var
  have bareKey : default.key bare = bare := String.empty_append
  rwa [key, same, bareKey] at own

/-! ### Directives -/

lemma Registry.scopes_resolve {letters : Letters} {r : Registry}
    (h : letters.Scopes r.current.name) (written : String) :
    letters.Scopes (r.resolve written).1.name := by
  rw [resolve_eq, effective]
  dsimp only
  split
  · exact scopes_default letters
  · cases found : qualified? written with
    | none => exact h
    | some parts =>
      exact .inr (isIdentifier_letters letters (qualified?_some found).1)

namespace Vocabulary

variable {letters : Letters} {v : Vocabulary}

/-- All variables are in namespaces that can stand in an attribute, and so will be
those that are read next. -/
structure Spellable (letters : Letters) (v : Vocabulary) : Prop where
  current : letters.Scopes v.registry.current.name
  named : ∀ id, (v.table.symbol id).isVariable = true →
    ∃ space bare, letters.Scopes space.name ∧ (v.table.symbol id).Names space bare

lemma Spellable.add (h : v.Spellable letters) (gains : v.table.Gains s t) (new : s.isVariable →
      ∃ space bare, letters.Scopes space.name ∧ s.Names space bare) :
    Spellable letters { v with table := t } := by
  refine ⟨h.current, fun id => ?_⟩
  dsimp only
  rw [gains.symbol]
  split
  · exact new
  · exact h.named id

lemma Spellable.other (h : v.Spellable letters)
    (gains : v.table.Gains s t) (other : s.isVariable = false) :
    Spellable letters { v with table := t } :=
  h.add gains fun var => absurd (other.symm.trans var) (by decide)

lemma Spellable.internVariable (h : v.Spellable letters) {space : Namespace} {bare : String}
    (scopes : letters.Scopes space.name) (identifier : Name.isIdentifier bare) : Spellable letters
      { v with table := (v.table.internVariable (space.key bare) space.pythonLead bare).2 } := by
  rw [Table.internVariable]
  split
  · exact h
  · exact h.add (Table.gains_insert _ _) fun _ => ⟨space, bare, scopes, identifier, rfl, rfl⟩

lemma spellable_initial (letters : Letters) : ({} : Vocabulary).Spellable letters := by
  have spaces : ∀ space ∈ [default, provided],
      Name.isIdentifier space.name := by decide
  have all : ∀ e ∈ Symbol.initialEntries, e.symbol.isVariable →
      ∃ space ∈ [default, provided],
        ∃ bare ∈ Symbol.builtInScalars ++ Symbol.builtInArrays ++ Symbol.providedScalars,
          Name.isIdentifier bare ∧ e.symbol.key = space.key bare ∧
            e.symbol.python = space.pythonName bare := by decide +kernel
  refine ⟨scopes_default letters,
    initial_symbol (P := fun s => s.isVariable →
      ∃ space bare, letters.Scopes space.name ∧ s.Names space bare) fun e mem var => ?_⟩
  obtain ⟨space, known, bare, -, names⟩ := all e mem var
  exact ⟨space, bare, .inr (isIdentifier_letters letters (spaces space known)), names⟩

end Vocabulary

namespace Reading

variable {letters : Letters} {r : Reading}

lemma spellable_nameSymbol (named : isName text) :
    Maintains (Spellable letters) (nameSymbol text) r := by
  rcases nameSymbol_cases text r with ⟨id, -, -, run⟩ | ⟨-, run⟩
  · exact .congr run (maintains_pure id)
  · refine .congr run fun spellable => ?_
    have scopes := Registry.scopes_resolve spellable.current text
    have identifier := r.registry.isIdentifier_resolve named
    have met : Spellable letters
        { r.toVocabulary with registry := r.registry.meet (r.registry.resolve text).1 } := by
      refine ⟨?_, spellable.named⟩
      rw [Registry.meet]
      split <;> exact spellable.current
    exact met.internVariable scopes identifier

lemma spellable_literalSymbol (text : String) (place : Place) :
    Maintains (Spellable letters) (literalSymbol text place) r := by
  rcases literalSymbol_cases text place r with ⟨id, -, run⟩ | ⟨-, run⟩
  · exact .congr run (maintains_pure id)
  · refine .congr run ?_
    dsimp only [newLiteral]
    split
    · exact maintains_intern fun h => h.other (gains_insert _ _) rfl
    · split
      · exact maintains_intern fun h => h.other (gains_insert _ _) rfl
      · split
        · exact maintains_intern fun h => h.other (gains_insert _ _) rfl
        · split
          · exact maintains_intern fun h => h.other (gains_regex _ _) rfl
          · exact maintains_throw _

/-- Only directives bring in namespaces that are not checked. -/
lemma invariant_spellable :
    Invariant (Spellable letters) (Bears (fun _ => True) letters.Scopes) where
  files _ _ h := ⟨h.current, h.named⟩
  enter _ h := ⟨scopes_default letters, h.named⟩
  back _ _ h h' := ⟨h.current, h'.named⟩
  step none bears := by
    refine maintains_lexeme none (fun text place spaced ownLine same => ?_)
      (fun text place spaced same => ?_) fun name mem h => ⟨bears.2 name mem, h.named⟩
    · exact maintains_intern fun h => h.other (gains_push _ _) rfl
    · rw [wordSymbol]
      split
      case isTrue named => exact spellable_nameSymbol named
      case isFalse => exact spellable_literalSymbol text place

end Reading

namespace Vocabulary

/-- Every directive of a text enters a namespace that can stand in an attribute. -/
def ScopesText (letters : Letters) (text : String) : Prop :=
  ∀ name ∈ Lexeme.entered none (Lexeme.scan text), letters.Scopes name

instance (letters : Letters) (text : String) : Decidable (ScopesText letters text) :=
  inferInstanceAs (Decidable (∀ name ∈ Lexeme.entered none (Lexeme.scan text), letters.Scopes name))

/-- The same of texts that are read one after the other, and of the files that they
include. -/
def ScopesAll (letters : Letters) (library : Library) : Vocabulary → List String → Prop
  | _, [] => True
  | v, text :: texts =>
    ScopesText letters text ∧
      (∀ path content, library.tree.identity path ∈ v.lexed library text →
        library.tree.read path = .ok content → ScopesText letters content) ∧
      ScopesAll letters library (v.tokens library text).2 texts

lemma Spellable.readAll {library : Library} {v : Vocabulary}
    {texts : List String} (h : v.Spellable letters) (scopes : v.ScopesAll letters library texts) :
    (v.readAll library texts).Spellable letters := by
  induction texts generalizing v with
  | nil => exact h
  | cons text texts ih =>
    obtain ⟨own, files, later⟩ := scopes
    refine ih (Reading.invariant_spellable.tokens h ?_ fun path content mem found => ?_) later
    · exact Reading.allowed_bears (fun _ _ => trivial) own
    · exact Reading.allowed_bears (fun _ _ => trivial) (files path content mem found)

end Vocabulary

namespace Call

/-- Whatever is compiled and read, a variable is written as an attribute just if the
name of its namespace is empty or an identifier. If directives give only such names,
every variable of a text is. -/
theorem variables_are_attributes (letters : Python.Letters) (options : Options) (calls : List Call)
    (library : Library) (texts : List String) (id : SymbolId) :
    let t := ((last { options } calls).toVocabulary.readAll library texts).table
    let fresh := (({} : Vocabulary).readAll library texts).table
    ((t.symbol id).isVariable = true →
      (t.symbol id).IsRangeFlag ∧ letters.IsAttribute (t.symbol id).python ∨
      ∃ space bare, (t.symbol id).Names space bare ∧
        (letters.IsAttribute (t.symbol id).python ↔ letters.Scopes space.name)) ∧
    (Vocabulary.ScopesAll letters library {} texts → (fresh.symbol id).isVariable = true →
      letters.IsAttribute (fresh.symbol id).python) := by
  intro t fresh
  refine ⟨fun var => ?_, fun scopes var => ?_⟩
  · have good := good_last options calls
    have grows := Vocabulary.grows_readAll good library texts
    have orderly := grows.primes.orderly (orderly_last options calls)
    obtain ⟨use, kind⟩ := Symbol.isVariable_iff.mp var
    rcases ((good.grows grows).coined id).named (by rw [kind]; rfl) with ⟨space, bare, names⟩ | flag
    · exact .inr ⟨space, bare, names, orderly.isAttribute_iff letters var names⟩
    · exact .inl ⟨flag, flag.isAttribute letters⟩
  · have grows := Vocabulary.grows_readAll (v := {}) Table.initial_good library texts
    have orderly := grows.primes.orderly (orderly_last {} [])
    obtain ⟨space, bare, inside, names⟩ :=
      ((Vocabulary.spellable_initial letters).readAll scopes).named id var
    exact (orderly.isAttribute_iff letters var names).mpr inside

/-- A keyword in a namespace that a directive names. -/
theorem variables_are_attributes_scoped :
    let texts := ["@namespace \"lib\"\nclass = 1"]
    let t := (({} : Vocabulary).readAll {} texts).table
    Vocabulary.ScopesAll .ascii {} {} texts ∧ (t.symbol 112).isVariable = true ∧
      (t.symbol 112).python = "self.lib__class_" ∧
      Python.Letters.ascii.IsAttribute (t.symbol 112).python ∧
      ((t.symbol 112).IsRangeFlag ∧ Python.Letters.ascii.IsAttribute (t.symbol 112).python ∨
      ∃ space bare, (t.symbol 112).Names space bare ∧
        (Python.Letters.ascii.IsAttribute (t.symbol 112).python ↔
          Python.Letters.ascii.Scopes space.name)) := by
  intro texts t
  have alone : ({} : Vocabulary).lexed {} "@namespace \"lib\"\nclass = 1" = [] := by
    decide +kernel
  have scopes : Vocabulary.ScopesAll .ascii {} {} texts := by
    refine ⟨by decide +kernel, fun path content mem => ?_, trivial⟩
    rw [alone] at mem
    cases mem
  have var : (t.symbol 112).isVariable = true := by decide +kernel
  have both := variables_are_attributes .ascii {} [] {} texts 112
  exact ⟨scopes, var, by decide +kernel, both.2 scopes var, both.1 var⟩

/-- The name of a namespace may hold a blank, and then Python cannot read the names in
it. -/
theorem namespaces_are_unchecked :
    let read := ({} : Vocabulary).tokens {} "@namespace \"my lib\"\nx"
    read.1.isOk = true ∧ (read.2.table.symbol 112).isVariable = true ∧
      (read.2.table.symbol 112).python = "self.my lib__x" ∧
      ∀ letters : Python.Letters, ¬letters.IsAttribute (read.2.table.symbol 112).python := by
  intro read
  have python : (read.2.table.symbol 112).python = "self.my lib__x" := by decide +kernel
  refine ⟨by decide +kernel, by decide +kernel, python, fun letters valid => ?_⟩
  rw [python, Python.Letters.isAttribute_iff "my lib__x".toList rfl] at valid
  have blank : letters.inner ' ' = false := letters.inner_ascii ' ' (by decide)
  simp [Python.Letters.isIdentifier, blank] at valid

end Call

end AwkToPython
