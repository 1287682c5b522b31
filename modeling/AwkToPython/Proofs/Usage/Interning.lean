import AwkToPython.Proofs.Token.Entry
import AwkToPython.Proofs.Usage.Source

/-!
# One table for all texts

Texts are read into one table, and between them the table is used and changed.
Whatever is done in whatever order, a position that was handed out stays the one of
its key: so two names, in one text or in two, have the same key if they have the same
position. They have the same position if they have the same key, unless an entry is
inserted under a key that has one already: the key then leads to the new entry.
-/
namespace AwkToPython

variable {key : String} {step : Step} {t : Table} {id : SymbolId}

open Reading (Entry Made)

/-- The key of a name and the position that it got. -/
def Reading.Entry.name? (e : Entry) : Option (String × SymbolId) :=
  match e.lexeme with
  | .word text _ _ =>
    if Name.isName text then some (e.known.effectiveKey text, e.token.symbol) else none
  | _ => none

lemma Reading.Made.find?_name {e : Entry}
    (made : Made e.known t e.lexeme e.token) (named : e.name? = some (key, id)) :
    t.find? key = some id := by
  obtain ⟨l, known, token⟩ := e
  simp only [Entry.name?] at made named
  cases made with
  | name is found =>
    simp only [is, if_true, Option.some.injEq, Prod.mk.injEq] at named
    rw [← named.1, ← named.2]
    exact found
  | literal other found | regex other slash unknown bound key => simp [other] at named
  | comment bound key | lineEnd => cases named

lemma Reading.Made.lt_size
    (made : Made known t l token) (indexed : t.Indexed) (lines : Table.newline < t.size) :
    token.symbol < t.size := by
  cases made with
  | name named found | literal other found => exact (indexed.keyed _ _ found).1
  | regex other slash unknown bound key | comment bound key => exact bound
  | lineEnd => exact lines

namespace Vocabulary

variable {steps : List Step} {id : SymbolId}

variable {v : Vocabulary}

/-! ### Texts -/

/-- The entries of a text that is read, and of the files that are read in place. -/
def entries (v : Vocabulary) (library : Library) (text : String) : List Entry :=
  Reading.sourceEntries library (Reading.depthBound library) text v.opening

/-- The tokens of a text are those of its entries; the table has what they need. -/
lemma tokens_entries (v : Vocabulary) (library : Library) (text : String) :
    v.table.Keeps (v.tokens library text).2.table ∧
      (∀ e ∈ v.entries library text,
        Made e.known (v.tokens library text).2.table e.lexeme e.token) ∧
      ∀ ts, (v.tokens library text).1 = .ok ts → ∃ line,
        ts = (v.entries library text).map (·.token) ++
          List.replicate endPadding (Token.endOfInput line) := by
  have logs := Reading.logged_source library (Reading.depthBound library) text v.opening
  rw [Compile.tokens_run]
  split <;> rename_i run <;> rw [run] at logs
  · exact ⟨logs.keeps, fun e mem => (logs.made e mem).2, nofun⟩
  · refine ⟨logs.keeps, fun e mem => (logs.made e mem).2, fun ts same => ?_⟩
    cases same
    exact ⟨_, congrArg (· ++ _) logs.tokens⟩

/-! ### Steps -/

/-- What is done with one table: a text is read, or the table is used. -/
inductive Step where
  | segment (library : Library) (text : String)
  | operation (operation : Table.Operation)

namespace Step

def run (v : Vocabulary) : Step → Vocabulary
  | segment library text => (v.tokens library text).2
  | operation change => { v with table := (change.apply v.table).2 }

/-- The positions that a step hands out. -/
def handed (v : Vocabulary) : Step → List SymbolId
  | segment library text => (v.entries library text).map (·.token.symbol)
  | operation change => (change.apply v.table).1.toList

/-- The names that a step reads. -/
def names (v : Vocabulary) : Step → List (String × SymbolId)
  | segment library text => (v.entries library text).filterMap Entry.name?
  | operation _ => []

/-- Nothing is inserted under a key that has an entry already. -/
def IsFresh (v : Vocabulary) : Step → Prop
  | segment _ _ => True
  | operation change => change.IsFresh v.table

lemma keeps_run (fresh : step.IsFresh v) : v.table.Keeps (step.run v).table := by
  cases step with
  | segment library text => exact (tokens_entries v library text).1
  | operation change => exact Table.Operation.keeps_apply fresh

lemma retains_run (v : Vocabulary) (step : Step) : v.table.Retains (step.run v).table := by
  cases step with
  | segment library text => exact (tokens_entries v library text).1.toRetains
  | operation change => exact change.retains_apply v.table

lemma lt_size_of_handed (indexed : v.table.Indexed) (lines : Table.newline < v.table.size) :
    ∀ id ∈ step.handed v, id < (step.run v).table.size := by
  intro id mem
  have retains := retains_run v step
  cases step with
  | segment library text =>
    obtain ⟨e, from_, rfl⟩ := List.mem_map.mp mem
    exact ((tokens_entries v library text).2.1 e from_).lt_size (retains.indexed indexed)
      (Nat.lt_of_lt_of_le lines retains.size)
  | operation change => exact change.lt_size_apply indexed id (by simpa [handed] using mem)

lemma find?_of_mem_names
    (mem : (key, id) ∈ step.names v) : (step.run v).table.find? key = some id := by
  cases step with
  | segment library text =>
    obtain ⟨e, mem, named⟩ := List.mem_filterMap.mp mem
    exact ((tokens_entries v library text).2.1 e mem).find?_name named
  | operation change => cases mem

end Step

/-! ### Runs -/

/-- What is known after some steps. -/
def after (v : Vocabulary) (steps : List Step) : Vocabulary :=
  steps.foldl (fun v step => step.run v) v

/-- Steps with what is known before each. -/
def trace : Vocabulary → List Step → List (Vocabulary × Step)
  | _, [] => []
  | v, step :: steps => (v, step) :: trace (step.run v) steps

/-- The positions that are handed out in a run. -/
def handed (v : Vocabulary) (steps : List Step) : List SymbolId :=
  (trace v steps).flatMap fun at_ => at_.2.handed at_.1

/-- The names that are read in a run. -/
def names (v : Vocabulary) (steps : List Step) : List (String × SymbolId) :=
  (trace v steps).flatMap fun at_ => at_.2.names at_.1

lemma retains_after (v : Vocabulary) (steps : List Step) :
    v.table.Retains (v.after steps).table := by
  induction steps generalizing v with
  | nil => exact .refl _
  | cons step steps ih => exact (step.retains_run v).trans (ih (step.run v))

lemma keeps_after (fresh : ∀ at_ ∈ v.trace steps, at_.2.IsFresh at_.1) :
    v.table.Keeps (v.after steps).table := by
  induction steps generalizing v with
  | nil => exact .refl _
  | cons step steps ih =>
    have first := Step.keeps_run (fresh (v, step) List.mem_cons_self)
    exact first.trans (ih fun at_ mem => fresh at_ (List.mem_cons_of_mem _ mem))

/-- Each step of a run comes after some steps and before others. -/
lemma mem_trace (mem : at_ ∈ v.trace steps) :
    ∃ before behind, steps = before ++ at_.2 :: behind ∧ at_.1 = v.after before ∧
      v.after steps = (at_.2.run at_.1).after behind ∧
      ∀ later ∈ (at_.2.run at_.1).trace behind, later ∈ v.trace steps := by
  induction steps generalizing v with
  | nil => cases mem
  | cons step steps ih =>
    rcases List.mem_cons.mp mem with rfl | mem
    · exact ⟨[], steps, rfl, rfl, rfl, fun later => List.mem_cons_of_mem _⟩
    · obtain ⟨before, behind, same, at_before, last, later⟩ := ih mem
      exact ⟨step :: before, behind, by rw [same]; rfl, at_before, last,
        fun other mem => List.mem_cons_of_mem _ (later other mem)⟩

/-- In a run, keys lead to their own entries, entries stay with their keys, what is
handed out stays valid, and names with one position have one key. Names with one key
have one position if nothing is inserted under a key that has an entry already. -/
structure Interns (v : Vocabulary) (steps : List Step) : Prop where
  indexed : ∀ key id, (v.after steps).table.find? key = some id →
    id < (v.after steps).table.size ∧ ((v.after steps).table.symbol id).key = key
  retained : ∀ n id, id < (v.after (steps.take n)).table.size →
    id < (v.after steps).table.size ∧
      ((v.after steps).table.symbol id).key = ((v.after (steps.take n)).table.symbol id).key
  valid : ∀ id ∈ v.handed steps, id < (v.after steps).table.size
  /-- The tokens of a text are those of its entries. -/
  read : ∀ v' library text ts, (v', .segment library text) ∈ v.trace steps →
    (v'.tokens library text).1 = .ok ts → ∃ line,
      ts = (v'.entries library text).map (·.token) ++
        List.replicate endPadding (Token.endOfInput line)
  key_of_id : ∀ name ∈ v.names steps, ∀ name' ∈ v.names steps, name.2 = name'.2 → name.1 = name'.1
  id_of_key : (∀ at_ ∈ v.trace steps, at_.2.IsFresh at_.1) →
    ∀ name ∈ v.names steps, ∀ name' ∈ v.names steps, name.1 = name'.1 → name.2 = name'.2

/-- A name keeps its key as long as entries stay. -/
lemma key_of_mem_names (indexed : v.table.Indexed) (mem : (key, id) ∈ v.names steps) :
    ((v.after steps).table.symbol id).key = key := by
  obtain ⟨at_, mem, named⟩ := List.mem_flatMap.mp mem
  obtain ⟨before, behind, -, start, last, -⟩ := mem_trace mem
  have found := Step.find?_of_mem_names named
  have indexed' : at_.1.table.Indexed := start ▸ (retains_after v before).indexed indexed
  obtain ⟨bound, same⟩ := ((at_.2.retains_run at_.1).indexed indexed').keyed key id found
  rw [last, (retains_after _ behind).key id bound, same]

/-- A name is found where it was found when it was read. -/
lemma find?_of_mem_names (fresh : ∀ at_ ∈ v.trace steps, at_.2.IsFresh at_.1)
    (mem : (key, id) ∈ v.names steps) : (v.after steps).table.find? key = some id := by
  obtain ⟨at_, mem, named⟩ := List.mem_flatMap.mp mem
  obtain ⟨before, behind, -, -, last, later⟩ := mem_trace mem
  rw [last]
  exact (keeps_after fun other mem => fresh other (later other mem)).find key id
    (Step.find?_of_mem_names named)

lemma lt_size_of_mem_handed (indexed : v.table.Indexed)
    (lines : Table.newline < v.table.size) (mem : id ∈ v.handed steps) :
    id < (v.after steps).table.size := by
  obtain ⟨at_, mem, handed⟩ := List.mem_flatMap.mp mem
  obtain ⟨before, behind, -, start, last, -⟩ := mem_trace mem
  have retains : v.table.Retains at_.1.table := start ▸ retains_after v before
  have bound := Step.lt_size_of_handed (retains.indexed indexed)
    (Nat.lt_of_lt_of_le lines retains.size) id handed
  rw [last]
  exact Nat.lt_of_lt_of_le bound (retains_after _ behind).size

/-- Whatever texts are read and however the table is used in between, names are
interned exactly, and for good. -/
theorem names_share_positions (registry : Registry) (files : SourceFiles) (steps : List Step) :
    Interns { registry, files } steps := by
  have indexed := Table.initial_indexed
  refine ⟨((retains_after _ steps).indexed indexed).keyed, fun n id bound => ?_, fun id mem => ?_,
    fun v' library text ts _ read => (tokens_entries v' library text).2.2 ts read,
    fun name mem name' mem' same => ?_, fun fresh name mem name' mem' same => ?_⟩
  · -- the steps after the first `n` remove no entry and change no key
    have rest : after { registry, files } steps =
        (after { registry, files } (steps.take n)).after (steps.drop n) := by
      rw [after, after, after, ← List.foldl_append, List.take_append_drop]
    have retains := retains_after (after { registry, files } (steps.take n)) (steps.drop n)
    rw [rest]
    exact ⟨Nat.lt_of_lt_of_le bound retains.size, retains.key id bound⟩
  · exact lt_size_of_mem_handed indexed Table.initial_good.size mem
  · rw [← key_of_mem_names indexed mem, ← key_of_mem_names indexed mem', same]
  · have found := find?_of_mem_names fresh mem
    rw [same, find?_of_mem_names fresh mem'] at found
    exact (Option.some.inj found).symm

/-- If another entry is inserted under the key of `x` between two texts, the name has
another position in the second. -/
theorem name_moves_after_insert :
    let other : Symbol := { key := "x", kind := .string, python := "" }
    names {} [.segment {} "x = 1", .operation (.insert other), .segment {} "x = 2"] =
      [("x", 112), ("x", 114)] := by
  decide +kernel

end Vocabulary

end AwkToPython
