import AwkToPython.Proofs.Table

/-!
# Interning

A key that can be looked up leads to the entry with that key. Entries are only
added, under the next position, and no change of an entry touches its key. So a
position once handed out stays the one of its key, unless an entry is inserted
under a key that has one already.
-/
namespace AwkToPython.Table

variable {t t' t'' : Table}

/-- Keys lead to their own entries, and strings used as regexes to entries. -/
structure Indexed (t : Table) : Prop where
  keyed : ∀ key id, t.find? key = some id → id < t.size ∧ (t.symbol id).key = key
  regexes : ∀ e ∈ t.stringRegexes, e.2 < t.size

lemma initial_indexed : initial.Indexed := by
  have all : ∀ e ∈ initial.index, e.2 < initial.size ∧ (initial.symbol e.2).key = e.1 := by
    decide +kernel
  refine ⟨fun key id found => ?_, nofun⟩
  obtain ⟨before, behind, same, -⟩ := List.lookup_eq_some_iff.mp found
  exact all (key, id) (by rw [same]; simp)

/-- No entry is removed or gets another key. A key leads where it led before or
to a new entry of its own, and goes on leading somewhere. -/
structure Retains (t t' : Table) : Prop where
  size : t.size ≤ t'.size
  key : ∀ id < t.size, (t'.symbol id).key = (t.symbol id).key
  known : ∀ key, (t.find? key).isSome = true → (t'.find? key).isSome = true
  found : ∀ key id, t'.find? key = some id →
    t.find? key = some id ∨ t.size ≤ id ∧ id < t'.size ∧ (t'.symbol id).key = key
  regexes : ∀ e ∈ t'.stringRegexes, e ∈ t.stringRegexes ∨ e.2 < t'.size

/-- Besides, a key that leads to an entry goes on leading there. -/
structure Keeps (t t' : Table) : Prop extends t.Retains t' where
  find : ∀ key id, t.find? key = some id → t'.find? key = some id

namespace Retains

lemma refl (t : Table) : t.Retains t :=
  ⟨Nat.le_refl _, fun _ _ => rfl, fun _ => id, fun _ _ => .inl, fun _ => .inl⟩

lemma trans (h : t.Retains t') (h' : t'.Retains t'') : t.Retains t'' := by
  refine ⟨Nat.le_trans h.size h'.size, fun id bound =>
    (h'.key id (Nat.lt_of_lt_of_le bound h.size)).trans (h.key id bound),
    fun key => h'.known key ∘ h.known key, fun key id found => ?_, fun e mem => ?_⟩
  · rcases h'.found key id found with found | ⟨above, below, same⟩
    · rcases h.found key id found with found | ⟨above, below, same⟩
      · exact .inl found
      · exact .inr ⟨above, Nat.lt_of_lt_of_le below h'.size, (h'.key id below).trans same⟩
    · exact .inr ⟨Nat.le_trans h.size above, below, same⟩
  · rcases h'.regexes e mem with mem | bound
    · exact (h.regexes e mem).imp_right fun bound => Nat.lt_of_lt_of_le bound h'.size
    · exact .inr bound

lemma indexed (h : t.Retains t') (indexed : t.Indexed) : t'.Indexed := by
  refine ⟨fun key id found => ?_, fun e mem => ?_⟩
  · rcases h.found key id found with found | ⟨-, below, same⟩
    · obtain ⟨bound, same⟩ := indexed.keyed key id found
      exact ⟨Nat.lt_of_lt_of_le bound h.size, (h.key id bound).trans same⟩
    · exact ⟨below, same⟩
  · rcases h.regexes e mem with mem | bound
    · exact Nat.lt_of_lt_of_le (indexed.regexes e mem) h.size
    · exact bound

lemma unkeyed (h : t.Retains t') {id : SymbolId} (bound : id < t.size)
    (unkeyed : ∀ key, t.find? key ≠ some id) (key : String) : t'.find? key ≠ some id := by
  intro found
  rcases h.found key id found with found | ⟨above, -⟩
  · exact unkeyed key found
  · exact absurd bound (Nat.not_lt.mpr above)

end Retains

namespace Keeps

lemma refl (t : Table) : t.Keeps t := ⟨.refl t, fun _ _ => id⟩

lemma trans (h : t.Keeps t') (h' : t'.Keeps t'') : t.Keeps t'' :=
  ⟨h.toRetains.trans h'.toRetains, fun key id found => h'.find key id (h.find key id found)⟩

/-- Counts say nothing about entries. -/
lemma count (h : t.Keeps t') (entries : t''.entries = t'.entries)
    (index : t''.index = t'.index) (regexes : t''.stringRegexes = t'.stringRegexes) :
    t.Keeps t'' := by
  have size : t''.size = t'.size := by rw [Table.size, entries, Table.size]
  have symbol : ∀ id, t''.symbol id = t'.symbol id := fun id => by
    rw [Table.symbol, entries, Table.symbol]
  have find : ∀ key, t''.find? key = t'.find? key := fun key => by rw [find?, index, find?]
  refine ⟨⟨size ▸ h.size, fun id bound => symbol id ▸ h.key id bound,
    fun key known => find key ▸ h.known key known, fun key id found => ?_,
    fun e mem => ?_⟩, fun key id found => find key ▸ h.find key id found⟩
  · rw [symbol, size]
    exact h.found key id (find key ▸ found)
  · rw [size]
    exact h.regexes e (regexes ▸ mem)

end Keeps

lemma lt_size_push (t : Table) (s : Symbol) : t.size < (t.push s).2.size := by
  simp [push, Table.size]

lemma keeps_push (t : Table) (s : Symbol) : t.Keeps (t.push s).2 := by
  refine ⟨⟨Nat.le_of_lt (lt_size_push t s), fun id bound => ?_, fun _ => id, fun _ _ => .inl,
    fun _ => .inl⟩, fun _ _ => id⟩
  rw [symbol_push, if_neg (Nat.ne_of_lt bound)]

lemma find?_insert (t : Table) (s : Symbol) (key : String) :
    (t.insert s).2.find? key = if key = s.key then some t.size else t.find? key := by
  simp only [find?, insert, List.lookup_cons]
  by_cases same : key = s.key
  · simp [same]
  · simp [same, beq_eq_false_iff_ne.mpr same]

/-- The entries after an insertion are those after a push. -/
lemma symbol_insert (t : Table) (s : Symbol) (id : SymbolId) :
    (t.insert s).2.symbol id = if id = t.size then s else t.symbol id := symbol_push t s id

lemma retains_insert (t : Table) (s : Symbol) : t.Retains (t.insert s).2 := by
  have pushed := keeps_push t s
  refine ⟨pushed.size, pushed.key, fun key known => ?_, fun key id found => ?_, pushed.regexes⟩
  · rw [find?_insert]
    split
    · rfl
    · exact known
  · rw [find?_insert] at found
    split at found
    case isTrue same =>
      cases found
      exact .inr ⟨Nat.le_refl _, lt_size_push t s, by rw [symbol_insert, if_pos rfl, same]⟩
    case isFalse => exact .inl found

lemma keeps_insert (unknown : t.find? s.key = none) : t.Keeps (t.insert s).2 := by
  refine ⟨retains_insert t s, fun key id found => ?_⟩
  rw [find?_insert, if_neg, found]
  rintro rfl
  rw [unknown] at found
  cases found

lemma keeps_set {id : SymbolId} (same : s.key = (t.symbol id).key) : t.Keeps (t.set id s) := by
  have key : ∀ other, ((t.set id s).symbol other).key = (t.symbol other).key := by
    intro other
    rw [symbol_set]
    split
    case isTrue here => rw [same, here.1]
    case isFalse => rfl
  exact ⟨⟨Nat.le_of_eq (size_set t id s).symm, fun other _ => key other, fun _ known => known,
    fun _ _ => .inl, fun _ => .inl⟩, fun _ _ found => found⟩

lemma keeps_addRegex (t : Table) (key initial : String) : t.Keeps (t.addRegex key initial).2 :=
  (keeps_push t _).count rfl rfl rfl

lemma keeps_rangeFlag (t : Table) : t.Keeps t.rangeFlag.2 := (keeps_push t _).count rfl rfl rfl

lemma lt_size_addRegex (t : Table) (key initial : String) :
    (t.addRegex key initial).1 < (t.addRegex key initial).2.size := lt_size_push t _

lemma keeps_internVariable (t : Table) (key lead name : String) :
    t.Keeps (t.internVariable key lead name).2 := by
  rw [internVariable]
  split
  · exact .refl t
  case h_2 unknown => exact keeps_insert unknown

/-- The entry that a name gets is the one that its key leads to from then on. -/
lemma find?_internVariable (t : Table) (key lead name : String) :
    (t.internVariable key lead name).2.find? key = some (t.internVariable key lead name).1 := by
  rw [internVariable]
  split
  case h_1 found => exact found
  case h_2 => rw [find?_insert, if_pos rfl]; rfl

lemma keeps_regexForString (t : Table) (id : SymbolId) : t.Keeps (t.regexForString id).2 := by
  rw [regexForString]
  split
  · exact .refl t
  · have added := keeps_addRegex t (t.symbol id).python
      (Literal.compiledString (t.symbol id).python)
    refine ⟨⟨added.size, added.key, added.known, added.found, fun e mem => ?_⟩, added.find⟩
    rcases List.mem_cons.mp mem with rfl | mem
    · exact .inr (lt_size_addRegex t _ _)
    · exact added.regexes e mem

lemma keeps_markArray {id : SymbolId} (run : t.markArray id line = .ok t') : t.Keeps t' := by
  simp only [markArray] at run
  split at run
  · split at run
    · cases run
    · split at run <;> cases run
      · exact .refl t
      · exact keeps_set rfl
  · cases run
    exact .refl t

lemma keeps_markScalar {id : SymbolId} (run : t.markScalar id line = .ok t') : t.Keeps t' := by
  simp only [markScalar] at run
  split at run
  · split at run <;> cases run
    exact keeps_set rfl
  · cases run
    exact .refl t

/-! ### Operations -/

/-- What is done with a table besides reading texts. All that compiling changes in
place is of the last form: the key stays. -/
inductive Operation where
  | push (symbol : Symbol)
  | insert (symbol : Symbol)
  | intern (key lead name : String)
  | comment (text : String) (ownLine : Bool)
  | regex (body : String)
  | regexForString (string : SymbolId)
  | rangeFlag
  | markArray (id : SymbolId) (line : Nat)
  | markScalar (id : SymbolId) (line : Nat)
  | reclassify (id : SymbolId) (kind : SymbolKind) (python initial : String)
deriving DecidableEq, Repr

namespace Operation

/-- The position that an operation hands out, and the table after it. What is
refused changes nothing. -/
def apply (t : Table) : Operation → Option SymbolId × Table
  | push symbol => Prod.map some id (t.push symbol)
  | insert symbol => Prod.map some id (t.insert symbol)
  | intern key lead name => Prod.map some id (t.internVariable key lead name)
  | comment text ownLine => Prod.map some id (t.comment text ownLine)
  | regex body => Prod.map some id (t.regex body)
  | regexForString string => Prod.map some id (t.regexForString string)
  | rangeFlag => Prod.map some id t.rangeFlag
  | markArray id line => (none, (t.markArray id line).toOption.getD t)
  | markScalar id line => (none, (t.markScalar id line).toOption.getD t)
  | reclassify id kind python initial =>
    (none, t.modify id fun s => { s with kind, python, initial })

/-- Nothing is inserted under a key that has an entry already. -/
def IsFresh (t : Table) : Operation → Prop
  | insert symbol => t.find? symbol.key = none
  | _ => True

lemma keeps_apply {operation : Operation} (fresh : operation.IsFresh t) :
    t.Keeps (operation.apply t).2 := by
  cases operation with
  | push symbol => exact keeps_push t symbol
  | insert symbol => exact keeps_insert fresh
  | intern key lead name => exact keeps_internVariable t key lead name
  | comment text ownLine => exact keeps_push t _
  | regex body => exact keeps_addRegex t _ _
  | regexForString string => exact keeps_regexForString t string
  | rangeFlag => exact keeps_rangeFlag t
  | markArray id line =>
    rw [apply]
    cases run : t.markArray id line with
    | ok t' => exact keeps_markArray run
    | error e => exact .refl t
  | markScalar id line =>
    rw [apply]
    cases run : t.markScalar id line with
    | ok t' => exact keeps_markScalar run
    | error e => exact .refl t
  | reclassify id kind python initial => exact keeps_set rfl

lemma retains_apply (t : Table) (operation : Operation) : t.Retains (operation.apply t).2 := by
  cases operation with
  | insert symbol => exact retains_insert t symbol
  | _ => exact (keeps_apply (by trivial)).toRetains

lemma lt_size_apply (indexed : t.Indexed) (operation : Operation) :
    ∀ id ∈ (operation.apply t).1, id < (operation.apply t).2.size := by
  intro id handed
  cases operation with
  | push symbol | insert symbol =>
    cases handed
    exact lt_size_push t symbol
  | intern key lead name =>
    cases handed
    exact (((keeps_internVariable t key lead name).indexed indexed).keyed key _
      (find?_internVariable t key lead name)).1
  | comment text ownLine | regex body | rangeFlag =>
    cases handed
    exact lt_size_push t _
  | regexForString string =>
    cases handed
    change (t.regexForString string).1 < (t.regexForString string).2.size
    rw [Table.regexForString]
    split
    case h_1 regex known =>
      obtain ⟨before, behind, same, -⟩ := List.lookup_eq_some_iff.mp known
      exact indexed.regexes (string, regex) (by rw [same]; simp)
    case h_2 => exact lt_size_addRegex t _ _
  | markArray id line | markScalar id line | reclassify id kind python initial => cases handed

end Operation

end AwkToPython.Table
