import AwkToPython.Namespace
import Mathlib.Data.List.Nodup

/-!
# Isolation of namespaces

A key is a bare name behind the lead of its namespace. Names of namespaces are
arbitrary texts, so a lead may hold anything, but it is empty or ends with a colon,
and a bare name holds none. So a key tells its bare name and its namespace.

A registry is asked for namespaces in any order and grows on the way. What it has
handed out stays where it is.
-/
namespace AwkToPython

open List Name

/-! ### Names -/

namespace Name

variable {s : String}

lemma isInner_of_isStart (h : isStart c) : isInner c := by
  simp only [isStart, isInner, Char.isAlphanum, Bool.or_eq_true] at h ⊢
  rcases h with h | h
  · exact .inl (.inl h)
  · exact .inr h

lemma isInner_of_mem (h : isIdentifier s) : ∀ c ∈ s.toList, isInner c := by
  intro c mem
  rw [isIdentifier] at h
  cases text : s.toList with
  | nil =>
    rw [text] at mem
    cases mem
  | cons first rest =>
    rw [text, isIdentifierChars, Bool.and_eq_true] at h
    rw [text] at mem
    rcases mem_cons.mp mem with rfl | mem
    · exact isInner_of_isStart h.1
    · exact all_eq_true.mp h.2 c mem

lemma colon_not_mem (h : isIdentifier s) : ':' ∉ s.toList := by
  intro mem
  exact absurd (isInner_of_mem h ':' mem) (by decide)

lemma qualified?_some (h : qualified? s = some (scope, name)) :
    isIdentifier scope ∧ isIdentifier name := by
  rw [qualified?, Option.filter_eq_some_iff, Bool.and_eq_true] at h
  exact h.2

lemma isIdentifier_bare (h : isName s) : isIdentifier (bare s) := by
  rw [isName, Bool.or_eq_true] at h
  rw [bare]
  cases split : qualified? s with
  | some parts => exact (qualified?_some split).2
  | none =>
    rw [split] at h
    exact h.resolve_right (by simp)

end Name

/-! ### Keys -/

/-- Texts without a mark are told from what stands before them, if that is nothing
or ends with the mark. -/
lemma append_inj_of_mark {α : Type} {mark : α} {xs ys us vs : List α}
    (hx : ∀ x ∈ xs.getLast?, x = mark) (hy : ∀ y ∈ ys.getLast?, y = mark)
    (hu : mark ∉ us) (hv : mark ∉ vs) (h : xs ++ us = ys ++ vs) : xs = ys ∧ us = vs := by
  -- one of the leads goes on where the other ends
  have longer : ∀ {xs ys us vs as : List α}, (∀ y ∈ ys.getLast?, y = mark) → mark ∉ us →
      ys = xs ++ as → us = as ++ vs → xs = ys ∧ us = vs := by
    intro xs ys us vs as hy hu lead tail
    rcases eq_nil_or_concat' as with rfl | ⟨front, last, rfl⟩
    · exact ⟨by rw [lead, append_nil], by rw [tail, nil_append]⟩
    · have same : last = mark := hy last (by rw [lead, ← append_assoc, getLast?_concat]; rfl)
      exact absurd (by simp [tail, same]) hu
  rcases append_eq_append_iff.mp h with ⟨as, lead, tail⟩ | ⟨as, lead, tail⟩
  · exact longer hy hu lead tail
  · obtain ⟨lead, tail⟩ := longer hx hv lead tail
    exact ⟨lead.symm, tail.symm⟩

namespace Namespace

lemma keyLead_last (space : Namespace) : ∀ c ∈ space.keyLead.toList.getLast?, c = ':' := by
  intro c last
  rw [keyLead] at last
  split at last
  · cases last
  · rw [String.toList_append, separator, getLast?_append] at last
    simpa using last.symm

lemma keyLead_inj {space space' : Namespace} (h : space.keyLead = space'.keyLead) :
    space = space' := by
  have nonempty : ∀ {n : Namespace}, n.isDefault = false → n.keyLead ≠ "" := by
    intro n other empty
    rw [keyLead, other] at empty
    have length := congrArg (fun s => s.toList.length) empty
    simp [separator] at length
  have isDefault : ∀ {n : Namespace}, n.isDefault → n.keyLead = "" := by
    intro n same
    rw [keyLead, same]
    rfl
  cases hs : space.isDefault with
  | true =>
    cases hs' : space'.isDefault with
    | true => exact (of_decide_eq_true hs).trans (of_decide_eq_true hs').symm
    | false => exact absurd (h ▸ isDefault hs) (nonempty hs')
  | false =>
    cases hs' : space'.isDefault with
    | true => exact absurd (h ▸ isDefault hs') (nonempty hs)
    | false =>
      rw [keyLead, keyLead, hs, hs'] at h
      have text := congrArg String.toList h
      simp only [Bool.false_eq_true, if_false, String.toList_append, append_cancel_right_eq] at text
      obtain ⟨name⟩ := space
      obtain ⟨name'⟩ := space'
      exact congrArg Namespace.mk (String.toList_inj.mp text)

lemma key_inj {space space' : Namespace} {bare bare' : String}
    (h : isIdentifier bare) (h' : isIdentifier bare') :
    space.key bare = space'.key bare' ↔ space = space' ∧ bare = bare' := by
  constructor
  · intro same
    have text := congrArg String.toList same
    rw [key, key, String.toList_append, String.toList_append] at text
    obtain ⟨lead, tail⟩ := append_inj_of_mark space.keyLead_last space'.keyLead_last
      (colon_not_mem h) (colon_not_mem h') text
    exact ⟨keyLead_inj (String.toList_inj.mp lead), String.toList_inj.mp tail⟩
  · rintro ⟨rfl, rfl⟩
    rfl

end Namespace

/-! ### Registries -/

namespace Registry

/-- What a registry is asked for. A namespace is known by the position at which it
was handed out. -/
inductive Query where
  | get (name : String)
  | enter (position : Nat)
  | enterNamed (name : String)
  | find (written : String)
  | resolve (written : String)
deriving DecidableEq, Repr

variable {r r' : Registry}

/-- The namespace that a query is answered with; entering one gives back the one
that was left. -/
def answer (r : Registry) : Query → Namespace
  | .get name => ⟨name⟩
  | .enter _ => r.current
  | .enterNamed _ => r.current
  | .find written => r.namespaceFor written
  | .resolve written => (r.resolve written).1

/-- What a query makes of a registry. -/
def ask (r : Registry) : Query → Registry
  | .get name => r.meet ⟨name⟩
  | .enter position => { r with current := r.spaces.getD position r.current }
  | .enterNamed name => r.setCurrent ⟨name⟩
  | .find written => r.meet (r.namespaceFor written)
  | .resolve written => r.meet (r.resolve written).1

def askAll (r : Registry) (queries : List Query) : Registry := queries.foldl ask r

/-- Every namespace is handed out once, and the current one is among them. -/
structure Regular (r : Registry) : Prop where
  nodup : r.spaces.Nodup
  current : r.current ∈ r.spaces

lemma spaces_meet (r : Registry) (space : Namespace) :
    r.spaces <+: (r.meet space).spaces ∧ space ∈ (r.meet space).spaces ∧
      (r.meet space).current = r.current := by
  rw [meet]
  split
  case isTrue known => exact ⟨prefix_refl _, contains_iff_mem.mp known, rfl⟩
  case isFalse => exact ⟨prefix_append _ _, by simp, rfl⟩

lemma Regular.meet (h : r.Regular) (space : Namespace) : (r.meet space).Regular := by
  obtain ⟨kept, -, same⟩ := spaces_meet r space
  refine ⟨?_, same ▸ kept.subset h.current⟩
  rw [Registry.meet]
  split
  · exact h.nodup
  case isFalse other =>
    have fresh : space ∉ r.spaces := fun mem => other (contains_iff_mem.mpr mem)
    exact nodup_append.mpr ⟨h.nodup, nodup_singleton _, fun a ha b hb same =>
      fresh (mem_singleton.mp hb ▸ same ▸ ha)⟩

lemma initial_regular : initial.Regular := ⟨by decide, by decide⟩

lemma ask_keeps (h : r.Regular) (query : Query) :
    (r.ask query).Regular ∧ r.spaces <+: (r.ask query).spaces ∧
      r.answer query ∈ (r.ask query).spaces := by
  cases query with
  | get name =>
    obtain ⟨kept, known, -⟩ := spaces_meet r ⟨name⟩
    exact ⟨h.meet _, kept, known⟩
  | enter position =>
    refine ⟨⟨h.nodup, ?_⟩, prefix_refl _, h.current⟩
    change r.spaces.getD position r.current ∈ r.spaces
    rw [getD_eq_getElem?_getD]
    cases found : r.spaces[position]? with
    | none => exact h.current
    | some space => exact mem_of_getElem? found
  | enterNamed name =>
    obtain ⟨kept, known, -⟩ := spaces_meet r ⟨name⟩
    exact ⟨⟨(h.meet _).nodup, known⟩, kept, kept.subset h.current⟩
  | find written =>
    obtain ⟨kept, known, -⟩ := spaces_meet r (r.namespaceFor written)
    exact ⟨h.meet _, kept, known⟩
  | resolve written =>
    obtain ⟨kept, known, -⟩ := spaces_meet r (r.resolve written).1
    exact ⟨h.meet _, kept, known⟩

lemma askAll_keeps (h : r.Regular) (queries : List Query) :
    (r.askAll queries).Regular ∧ r.spaces <+: (r.askAll queries).spaces := by
  induction queries generalizing r with
  | nil => exact ⟨h, prefix_refl _⟩
  | cons query queries ih =>
    obtain ⟨regular, kept, -⟩ := ask_keeps h query
    obtain ⟨regular', kept'⟩ := ih regular
    exact ⟨regular', kept.trans kept'⟩

/-! ### Resolution -/

/-- The namespace in which a written name counts: the default one for a name
without lower-case letters, else the one written before it, else the current one. -/
def effective (current : Namespace) (written : String) : Namespace :=
  if Name.isAllUpper (Name.bare written) then Namespace.default
  else ((Name.qualified? written).map fun parts => (⟨parts.1⟩ : Namespace)).getD current

/-- The key of a written name. -/
def keyOf (r : Registry) (written : String) : String :=
  (r.resolve written).1.key (r.resolve written).2

lemma resolve_eq (r : Registry) (written : String) :
    r.resolve written = (effective r.current written, bare written) := by
  rw [resolve, effective, namespaceFor, bare]
  cases qualified? written <;> rfl

lemma isIdentifier_resolve (r : Registry) (named : isName written) :
    isIdentifier (r.resolve written).2 := by
  rw [resolve_eq]
  exact isIdentifier_bare named

/-- Names in different namespaces never share a key, and a registry never takes back
what it has handed out. -/
theorem resolve_isolates (asked later : List Query) :
    let r := initial.askAll asked
    let r' := r.askAll later
    (∀ (current current' : Namespace) (a b : String), Name.isName a = true → Name.isName b = true →
      (({ r with current }.keyOf a = { r' with current := current' }.keyOf b) ↔
        Name.bare a = Name.bare b ∧
          (effective current a).name = (effective current' b).name)) ∧
    (∀ (current current' : Namespace) (a : String),
      (Name.qualified? a).isSome = true ∨ Name.isAllUpper a = true →
      { r with current }.resolve a = { r with current := current' }.resolve a) ∧
    (∀ query : Query, r.answer query ∈ (r.ask query).spaces) ∧
    (r'.spaces.map Namespace.name).Nodup ∧
    ∀ (position : Nat) (space : Namespace), r.spaces[position]? = some space →
      r'.spaces[position]? = some space := by
  intro r r'
  obtain ⟨regular, -⟩ := askAll_keeps initial_regular asked
  obtain ⟨regular', kept⟩ := askAll_keeps regular later
  refine ⟨fun current current' a b ha hb => ?_, fun current current' a settled => ?_,
    fun query => (ask_keeps regular query).2.2, ?_, fun position space found => ?_⟩
  · rw [keyOf, keyOf, resolve_eq, resolve_eq,
      Namespace.key_inj (Name.isIdentifier_bare ha) (Name.isIdentifier_bare hb), and_comm]
    have named : ∀ {n n' : Namespace}, n = n' ↔ n.name = n'.name := by
      rintro ⟨name⟩ ⟨name'⟩
      exact Namespace.mk.injEq name name' ▸ Iff.rfl
    rw [named]
  · rw [resolve_eq, resolve_eq, effective, effective]
    cases split : Name.qualified? a with
    | some parts => rfl
    | none =>
      have whole : Name.bare a = a := by rw [Name.bare, split]; rfl
      have upper : Name.isAllUpper a = true := settled.resolve_left (by simp [split])
      rw [whole, upper]
      rfl
  · exact regular'.nodup.map fun n n' same => by
      obtain ⟨name⟩ := n
      exact congrArg Namespace.mk same
  · obtain ⟨rest, whole⟩ := kept
    have bound : position < r.spaces.length := (List.getElem?_eq_some_iff.mp found).1
    rw [← whole, List.getElem?_append_left bound]
    exact found

/-- A name with a scope and one in the current namespace share a key if both count
in the same namespace, whatever text names the other ones. -/
theorem resolve_isolates_scoped :
    let r := initial.askAll [.enterNamed "a::b", .resolve "x"]
    let r' := r.askAll [.enterNamed "lib", .find "a::x"]
    Name.isName "lib::x" = true ∧ Name.isName "x" = true ∧
      r.keyOf "lib::x" = r'.keyOf "x" ∧ r.keyOf "x" ≠ r'.keyOf "x" := by
  intro r r'
  obtain ⟨keys, -⟩ := resolve_isolates [.enterNamed "a::b", .resolve "x"]
    [.enterNamed "lib", .find "a::x"]
  have qualified := keys r.current r'.current "lib::x" "x" (by decide) (by decide)
  have plain := keys r.current r'.current "x" "x" (by decide) (by decide)
  exact ⟨by decide, by decide, qualified.mpr (by decide),
    fun same => absurd (plain.mp same) (by decide)⟩

end Registry

end AwkToPython
