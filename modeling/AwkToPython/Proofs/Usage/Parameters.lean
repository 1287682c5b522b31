import AwkToPython.Proofs.Usage.Attribute
import AwkToPython.Proofs.Usage.Definitions

/-!
# The parameters in a signature

A parameter is written with its bare name, escaped if that is a keyword, and nothing
else is checked: not that the names of a list differ, and not that Python's body of
the function needs none of them. So a signature is exactly as good as the bare names
are. It is said here what goes wrong and when; in particular a name of the default
namespace is always an identifier.
-/
namespace AwkToPython

/-- The names that the body of a method refers to without `self`. -/
def Python.bodyNames : List String :=
  ["self", "_locals", "str", "int", "float", "len", "list", "hex", "oct", "print", "re", "math",
   "random", "defaultdict", "AwkEmptyVar", "AwkEmptyVarInstance", "AwkpyRuntimeVarOwner", "AwkNext",
   "AwkNextFile", "AwkExit"]

namespace Name

variable {a b s : String}

/-- A name without a scope is its own bare name. -/
lemma bare_of_isIdentifier (h : isIdentifier s) : bare s = s := by
  have whole : qualified? s = none := by
    rw [qualified?, Text.cut?]
    cases found : Text.cutChars separator.toList s.toList with
    | none => rfl
    | some parts =>
      refine absurd ?_ (colon_not_mem h)
      rw [Expression.cutChars_spec found]
      simp [separator]
  rw [bare, whole]
  rfl

/-- Two names have one Python spelling just if they are the same or one is escaped to
the other. -/
lemma python_eq_iff : python a = python b ↔ a = b ∨ Escapes a b := by
  have escaped : ∀ k ∈ pythonKeywords, python (k ++ "_") = python k := by decide
  refine ⟨python_inj, ?_⟩
  rintro (rfl | ⟨keyword, rfl⟩ | ⟨keyword, rfl⟩)
  · rfl
  · exact (escaped a keyword).symm
  · exact escaped b keyword

/-- What the body refers to is the spelling of no other name. -/
lemma python_eq_bodyName (mem : n ∈ Python.bodyNames) : python s = n ↔ s = n := by
  have plain : ∀ n ∈ Python.bodyNames, python n = n ∧ n ∉ pythonKeywords ∧
      ∀ k ∈ pythonKeywords, n ≠ k ++ "_" := by decide
  obtain ⟨same, free, apart⟩ := plain n mem
  constructor
  · intro h
    rcases python_inj (h.trans same.symm) with eq | ⟨keyword, escape⟩ | ⟨keyword, -⟩
    · exact eq
    · exact absurd escape (apart s keyword)
    · exact absurd keyword free
  · rintro rfl
    exact same

/-- The spelling of a name is an identifier just if the name is one, and no keyword
of both languages. -/
lemma isIdentifier_python_iff (letters : Python.Letters) :
    letters.isIdentifier (python s).toList ∧ python s ∉ Python.keywords ↔
      letters.isIdentifier s.toList ∧ s ∉ sharedKeywords := by
  have all : ∀ k ∈ pythonKeywords, isIdentifier k ∧ isIdentifier (k ++ "_") ∧
      k ++ "_" ∉ Python.keywords ∧ k ∉ sharedKeywords := by decide
  have shared : ∀ k ∈ sharedKeywords, k ∈ Python.keywords := by decide
  by_cases mem : s ∈ pythonKeywords
  · obtain ⟨word, escaped, free, apart⟩ := all s mem
    rw [python_of_mem mem]
    exact ⟨fun _ => ⟨isIdentifier_letters letters word, apart⟩,
      fun _ => ⟨isIdentifier_letters letters escaped, free⟩⟩
  · refine ⟨fun h => ⟨?_, fun keyword => h.2 ?_⟩, fun h => ⟨?_, python_not_mem_keywords h.2⟩⟩
    · rw [← python_of_not_mem mem]
      exact h.1
    · rw [python_of_not_mem mem]
      exact shared s keyword
    · rw [python_of_not_mem mem]
      exact h.1

end Name

/-- The bare name of the variable that a parameter hides. -/
def Item.Parameter.bare (p : Item.Parameter) : String := Name.bare p.saved.key

namespace Call

open Item (Parameter)

/-- Every function that is compiled has a signature of `self` and its parameters, each
spelled as the bare name of its variable. The signature is one that Python can read,
without a name twice and without one that the body needs, just if the bare names are
so. Only a scope brings in a name that is no identifier. -/
theorem signatures_spell_parameters (letters : Python.Letters) (options : Options)
    (calls : List Call) (input : Source) :
    ∀ b ∈ input.starts (last { options } calls), b.symbol.kind = .keyword .function →
      ∀ s', Item.item b = .ok () s' → ∃ method params s1 more,
        Item.opening b = .ok (method, params) s1 ∧
        s'.listing.definitions = b.listing.definitions ++
          ["def " ++ method ++ "(" ++ (Text.join ", " ("self" :: params.map Parameter.signature) ++
            "):" ++ more)] ∧
        (∀ p ∈ params, p.name = Name.python p.bare ∧
          (letters.isIdentifier p.name.toList = true ∧ p.name ∉ Python.keywords ↔
            letters.isIdentifier p.bare.toList = true ∧ p.bare ∉ Name.sharedKeywords) ∧
          (∀ bare, p.saved.Names .default bare →
            letters.isIdentifier p.name.toList = true ∧ p.name ∉ Python.keywords) ∧
          ∀ n ∈ Python.bodyNames, p.name = n ↔ p.bare = n) ∧
        ((params.map (·.name)).Nodup ↔
          params.Pairwise fun p q => ¬(p.bare = q.bare ∨ Name.Escapes p.bare q.bare)) := by
  intro b mem kind s' run
  obtain ⟨sound, returns⟩ := Source.returns_start (good_last options calls) mem
  obtain ⟨method, params, s1, more, opened, keeps, held, -, line⟩ :=
    Item.item_signature sound kind run
  have named : ∀ p ∈ params, p.name = Name.python p.bare := fun p inside => (held p inside).2.2
  have orderly : s1.table.Orderly :=
    keeps.primes.orderly (returns.primes.orderly (orderly_last options calls))
  refine ⟨method, params, s1, more, opened, line, fun p inside => ?_, ?_⟩
  · rw [named p inside]
    refine ⟨rfl, Name.isIdentifier_python_iff letters, ?_, fun n => Name.python_eq_bodyName⟩
    rintro bare ⟨identifier, key, -⟩
    -- the variable has its bare name as its key, and a keyword is no variable
    obtain ⟨var, saved, -⟩ := held p inside
    have own : p.saved.key = bare := key.trans String.empty_append
    have apart := orderly.apart p.id var
    rw [← saved, own] at apart
    refine (Name.isIdentifier_python_iff letters).mpr ?_
    rw [Parameter.bare, own, Name.bare_of_isIdentifier identifier]
    exact ⟨Name.isIdentifier_letters letters identifier, apart⟩
  · rw [List.Nodup, List.pairwise_map]
    refine List.Pairwise.iff_of_mem fun {p q} inside inside' => ?_
    rw [named p inside, named q inside', ne_eq, Name.python_eq_iff]

/-- A keyword as a parameter. -/
theorem signatures_spell_parameters_keyword :
    let input := Source.program "function f(class, x) \x7b return class \x7d"
    ∃ b ∈ input.starts {}, ∃ s', b.symbol.kind = .keyword .function ∧ Item.item b = .ok () s' ∧
      ∃ method params s1, Item.opening b = .ok (method, params) s1 ∧
        ((params.map (·.name)).Nodup ↔
          params.Pairwise fun p q => ¬(p.bare = q.bare ∨ Name.Escapes p.bare q.bare)) := by
  intro input
  have first : (input.starts {}).head?.any (fun b =>
      b.symbol.kind = .keyword .function && Compile.succeeds (Item.item b)) = true := by
    decide +kernel
  cases starts : input.starts {} with
  | nil =>
    rw [starts] at first
    cases first
  | cons b rest =>
    have mem : b ∈ input.starts {} := starts ▸ List.mem_cons_self
    rw [starts, List.head?_cons, Option.any_some, Bool.and_eq_true, decide_eq_true_eq] at first
    have run := Compile.ok_after first.2
    obtain ⟨method, params, s1, -, opened, -, -, distinct⟩ :=
      signatures_spell_parameters .ascii {} [] input b mem first.1 _ run
    exact ⟨b, List.mem_cons_self, _, first.1, run, method, params, s1, opened, distinct⟩

/-- In `function g(str) { return length(str) }` the parameter hides the function that
makes it a string. -/
theorem parameter_hides_str :
    let calls := [.source (.program "function g(str) \x7b return length(str) \x7d")]
    let s := last {} calls
    (∀ step ∈ trace {} calls, Compile.succeeds (step.2.run step.1) = true) ∧
      s.missingFunction? = none ∧
      s.listing.definitions = ["def g(self, str=AwkEmptyVarInstance):"] ∧
      "    return len(str(_locals.str))" ∈ (s.listing.linesOf .functions).toList := by
  decide +kernel

end Call

end AwkToPython
