import AwkToPython.Program
import AwkToPython.Proofs.Usage.Source

/-!
# Initialisers

The constructor of a program gives every variable, regex and range flag its initial
value. The initial value is set where a symbol is made and changes when the symbol is
found to be an array or a function, is preset, or stands for a parameter. Whatever
calls are made and whether they succeed, no line is missing and none is too much:
only a variable that the support module provides has none, until it is preset.
-/
namespace AwkToPython

open Compile AwkToPython.Symbol

/-- The symbol is an attribute that the constructor has to set. -/
def Symbol.isOwn (s : Symbol) : Bool := s.isVariable && !s.isBuiltIn || s.kind = .regex

namespace Table

variable {t t' : Table}

lemma initial_primed (id : SymbolId) : (initial.symbol id).isPrimed :=
  initial_symbol (P := fun s => s.isPrimed) (by decide +kernel) id

lemma initial_orderly : initial.Orderly := by
  have regex : ∀ id, (initial.symbol id).kind ≠ .regex :=
    initial_symbol (P := fun s => s.kind ≠ .regex) (by decide +kernel)
  refine ⟨fun id kind => absurd kind (regex id), fun id _ kind => absurd kind (regex id),
    fun id kind => absurd kind (regex id), List.forall_mem_nil _, .nil, by decide +kernel, ?_⟩
  exact initial_symbol (P := fun s => s.isVariable → s.key ∉ Name.sharedKeywords)
    (by decide +kernel)

/-- Every symbol of a table that comes from a primed one is primed. -/
lemma Primes.all (h : t.Primes t') (primed : ∀ id, (t.symbol id).isPrimed) (id : SymbolId) :
    (t'.symbol id).isPrimed := by
  rcases Nat.lt_or_ge id t'.size with inside | beyond
  · rcases Nat.lt_or_ge id t.size with old | new
    · exact h.kept id old (primed id)
    · exact h.fresh id new inside
  · rw [symbol_of_size_le beyond]
    rfl

/-- Whatever the program reads has a value from the start, and a regex has a name and
a source of its own. -/
structure Complete (t : Table) : Prop where
  value : ∀ id use, (t.symbol id).kind = .var use → use.builtIn = false →
    (t.symbol id).initial ≠ ""
  array : ∀ id use, (t.symbol id).kind = .var use → use.builtIn = false → use.isArray = true →
    (t.symbol id).initial = emptyArray
  function : ∀ id f, (t.symbol id).kind = .function f → (t.symbol id).initial = ""
  numbered : ∀ id, (t.symbol id).kind = .regex →
    ∃ n < t.regexCount, (t.symbol id).python = s!"self._re_{n}"
  distinct : ∀ id id', (t.symbol id).kind = .regex → (t.symbol id').kind = .regex →
    (t.symbol id).python = (t.symbol id').python → id = id'
  /-- A regex is a literal or stands for a string. -/
  literal : ∀ id, (t.symbol id).kind = .regex →
    (t.symbol id).key.toList.head? = some '/' ∨ ∃ string, (string, id) ∈ t.stringRegexes
  string : ∀ e ∈ t.stringRegexes, (t.symbol e.1).kind = .string ∧
    (t.symbol e.2).kind = .regex ∧ (t.symbol e.2).key = (t.symbol e.1).python
  single : ∀ string id id', (string, id) ∈ t.stringRegexes → (string, id') ∈ t.stringRegexes →
    id = id'

lemma complete_of_orderly (primed : ∀ id, (t.symbol id).isPrimed) (orderly : t.Orderly) :
    t.Complete := by
  refine ⟨fun id use kind own => ?_, fun id use kind own array => ?_, fun id f kind => ?_,
    orderly.numbered, orderly.distinct, orderly.literal, orderly.string,
    fun string id id' mem mem' => ?_⟩
  · exact ((isPrimed_var kind own).mp (primed id)).1
  · exact ((isPrimed_var kind own).mp (primed id)).2 array
  · have empty := primed id
    simpa only [isPrimed, kind, decide_eq_true_eq] using empty
  · exact (Prod.mk.inj (List.inj_on_of_nodup_map orderly.single mem mem' rfl)).2

end Table

namespace Program

/-- The line that gives a symbol its initial value. -/
def initialLine (s : Symbol) : String := "        " ++ s.python ++ " = " ++ s.initial

/-- The constructor, with a line for each symbol that it has to set. -/
def constructor (hasMainLoop : Bool) (entries : List Symbol) : List String :=
  ["    def __init__(self):", "        super().__init__()"] ++
    (if hasMainLoop then ["        self._has_mainloop = True"] else []) ++
    (entries.filter isOwn).map initialLine

lemma initialiser?_eq (primed : s.isPrimed) :
    (initialiser? s).map (atDepth 2) = if s.isOwn then some (initialLine s) else none := by
  have line : atDepth 2 s!"{s.python} = {s.initial}" = initialLine s := by
    have some_ : s!"{s.python} = {s.initial}" ≠ "" := by simp [toString]
    have depth : Listing.indentation 2 = "        " := rfl
    rw [atDepth, if_neg some_, initialLine, depth]
    simp [toString, String.append_assoc]
  cases kind : s.kind with
  | var use =>
    cases own : use.builtIn with
    | true =>
      simp [initialiser?, isOwn, isBuiltIn, variableUse?, kind, own]
    | false =>
      have some_ := ((isPrimed_var kind own).mp primed).1
      simp [initialiser?, isOwn, isVariable, isBuiltIn, variableUse?,
        kind, own, some_, line]
  | regex =>
    simp only [isPrimed, kind, decide_eq_true_eq] at primed
    simp [initialiser?, isOwn, kind, primed, line]
  | _ => simp [initialiser?, isOwn, isVariable, variableUse?, kind]

lemma constructorLines_eq (primed : ∀ s ∈ table.entries.toList, s.isPrimed) :
    constructorLines hasMainLoop table = constructor hasMainLoop table.entries.toList := by
  have lines : (table.entries.toList.filterMap initialiser?).map (atDepth 2) =
      (table.entries.toList.filter isOwn).map initialLine := by
    rw [List.map_filterMap, List.filterMap_congr fun s mem => initialiser?_eq (primed s mem),
      ← List.filterMap_eq_filter, List.map_filterMap]
    refine List.filterMap_congr fun s _ => ?_
    cases own : s.isOwn <;> simp [Option.guard, own]
  rw [constructorLines, constructor, lines]
  cases hasMainLoop <;> rfl

/-- What follows the constructor begins with an empty line. -/
lemma head?_sections (listing : Listing) (parts : List Section) :
    (parts.flatMap (sectionLines listing) ++ closingLines).head? = some "" := by
  induction parts with
  | nil => rfl
  | cons part parts ih =>
    rw [List.flatMap_cons, List.append_assoc, sectionLines]
    split
    · exact ih
    · rfl

/-- The constructor stands between the functions and the sections. -/
lemma lines_eq (primed : ∀ x ∈ s.table.entries.toList, x.isPrimed) :
    lines s = titleLines s.headers ++ importLines s.imports ++
      ["", "", s!"class {className}(AwkpyRuntimeWrapper):"] ++
      s.listing.functions.toList.map (atDepth 1) ++
      constructor s.hasMainLoop s.table.entries.toList ++
      (Section.all.flatMap (sectionLines s.listing) ++ closingLines) := by
  rw [lines, constructorLines_eq primed, List.append_assoc _ _ closingLines]

end Program

namespace Call

open Session

variable {s : Session}

/-- Some call presets a variable with success. -/
def Sets (s : Session) (calls : List Call) (id : SymbolId) : Prop :=
  ∃ step ∈ trace s calls, succeeds (step.2.run step.1) = true ∧ step.2.target step.1 = some id

lemma builtIn_run (call : Call) (good : s.table.Good) (id : SymbolId) :
    ((after (call.run s)).table.symbol id).isBuiltIn =
      ((s.table.symbol id).isBuiltIn && !(succeeds (call.run s) && call.target s = some id)) := by
  cases call with
  | preset assignment => exact preset_builtIn assignment good id
  | source input =>
    rw [target, Call.run, (addSource_preserves input good).builtIn]
    simp

lemma sets_cons {call : Call} {calls : List Call} {id : SymbolId} : Sets s (call :: calls) id ↔
      succeeds (call.run s) ∧ call.target s = some id ∨ Sets (after (call.run s)) calls id := by
  simp only [Sets, trace, List.mem_cons, or_and_right, exists_or, exists_eq_left]

/-- What the support module provides stays so until it is preset. -/
lemma builtIn_last (calls : List Call) (good : s.table.Good) (id : SymbolId) :
    ((last s calls).table.symbol id).isBuiltIn ↔
      (s.table.symbol id).isBuiltIn ∧ ¬Sets s calls id := by
  induction calls generalizing s with
  | nil => simp [last, Sets, trace]
  | cons call calls ih =>
    have later := ih ((returns_run call good).table.good good)
    rw [builtIn_run call good id, Bool.and_eq_true, Bool.not_eq_true'] at later
    refine later.trans ?_
    rw [and_assoc, sets_cons, not_or, not_and_or, Bool.not_eq_true, Bool.and_eq_false_iff,
      decide_eq_false_iff_not]

lemma primes_last (options : Options) (calls : List Call) :
    Table.initial.Primes (last { options } calls).table :=
  (returns_last (s := { options }) calls Table.initial_good).primes

lemma orderly_last (options : Options) (calls : List Call) :
    (last { options } calls).table.Orderly :=
  (primes_last options calls).orderly Table.initial_orderly

/-- Initialisers are complete, and none is too much. -/
theorem initialisers_are_complete (options : Options) (calls : List Call) :
    let s := last { options } calls
    s.table.Complete ∧
    (∀ id, (s.table.symbol id).isBuiltIn = true ↔
      (Table.initial.symbol id).isBuiltIn = true ∧ ¬Sets { options } calls id) ∧
    ∀ program, s.finish = .ok program → ∃ front back : List String,
      program = Text.join "\n" (front ++ Program.constructor s.hasMainLoop s.table.entries.toList ++
        back) ++ "\n" ∧ back.head? = some "" := by
  intro s
  have primed := (primes_last options calls).all Table.initial_primed
  have listed : ∀ x ∈ s.table.entries.toList, x.isPrimed = true := by
    intro x mem
    obtain ⟨id, found⟩ := List.mem_iff_getElem?.mp mem
    have symbol := primed id
    rwa [Table.symbol, Array.getD_eq_getD_getElem?, ← Array.getElem?_toList, found] at symbol
  refine ⟨Table.complete_of_orderly primed (orderly_last options calls),
    builtIn_last calls Table.initial_good, fun program done => ?_⟩
  rw [Session.finish] at done
  split at done
  · cases done
  · cases done
    rw [Program.text, Program.lines_eq listed]
    exact ⟨_, _, rfl, Program.head?_sections s.listing Section.all⟩

/-- A built-in variable that is preset, a parameter that hides a variable and is an
array, a function, both kinds of regexes, a range and an array. -/
def primed : List Call :=
  [.preset "OFS=-", .source (.program
    "function f(a) \x7b a[1] = x \x7d\n/b/, $1 ~ \"c\" \x7b f(y); z[1] \x7d")]

theorem initialisers_are_complete_primed :
    (last {} primed).finish = .ok (Program.text (last {} primed)) ∧
    ((last {} primed).table.entries.toList.filter Symbol.isOwn).map Program.initialLine =
      ["        self.OFS = \"-\"", "        self.a = AwkEmptyVarInstance",
       "        self.x = AwkEmptyVarInstance", "        self._re_0 = re.compile(r\"(?:b)\")",
       "        self.y = AwkEmptyVarInstance", "        self.z = defaultdict(AwkEmptyVar.instance)",
       "        self._re_1 = re.compile(\"(?:\" + \"c\" + \")\")",
       "        self._range_0 = False"] ∧
    ∃ front back : List String,
      Program.text (last {} primed) = Text.join "\n" (front ++
        Program.constructor (last {} primed).hasMainLoop (last {} primed).table.entries.toList ++
        back) ++ "\n" ∧ back.head? = some "" := by
  have checked : (last {} primed).missingFunction? = none := by decide +kernel
  have finished : (last {} primed).finish = .ok (Program.text (last {} primed)) := by
    rw [Session.finish, checked]
  exact ⟨finished, by decide +kernel, (initialisers_are_complete {} primed).2.2 _ finished⟩

end Call

end AwkToPython
