import AwkToPython.Proofs.Usage.Source

/-!
# What a source puts back

While a source is compiled, the current namespace, the place where lines go and the
symbols of parameters are other ones for a while. Whether the source is compiled or
fails at some token, all of them are put back. The symbols of parameters are put
back right after the body of their function: what comes later in the same source
may use the variables that they hid.
-/
namespace AwkToPython

open Compile Session Item

variable {s : Session} {b : Session} {input : Source}

namespace Item

/-- A function that is defined by an item: its parameters and the session right
before its body. -/
def Defines (b : Session) (params : List Parameter) (b' : Session) : Prop :=
  b.symbol.kind = .keyword .function ∧ ∃ method, opening b = .ok (method, params) b'

lemma items_of_error (mem : b ∈ starts fuel s)
    (run : item b = .error e b') : items fuel s = .error e b' := by
  induction fuel generalizing s with
  | zero => cases mem
  | succ fuel ih =>
    rw [starts] at mem
    rw [items_succ]
    split at mem
    · cases mem
    case isFalse more =>
      rw [if_neg more]
      rcases List.mem_cons.mp mem with rfl | mem
      · simp [Bind.bind, EStateM.bind, run]
      · cases first : item (next s) with
        | ok a s1 =>
          rw [first] at mem
          rw [bind_of_ok first]
          exact ih mem
        | error e s1 =>
          rw [first] at mem
          cases mem

end Item

/-- The sessions in which the items of a source start, up to the first that fails. -/
def Source.starts (s : Session) (input : Source) : List Session :=
  match load input s with
  | .ok true s1 => Item.starts (itemFuel s1) s1
  | _ => []

/-- A session from which items of a source start, with the rest of the call. -/
lemma Source.start_cases (good : s.table.Good) (mem : b ∈ input.starts s) :
    b.Sound ∧ (after (item b)).Keeps (after (addSource input s)) ∧
      ∀ e b', item b = .error e b' → addSource input s = .error e b' := by
  rw [starts] at mem
  rcases addSource_cases input good with
    ⟨s1, read, -, sound, step⟩ | ⟨read, -⟩ | ⟨e, s1, read, -⟩
  · rw [read] at mem
    obtain ⟨sound', keeps⟩ := keeps_of_mem_starts sound mem
    rw [step]
    exact ⟨sound', keeps, fun e b' run => items_of_error mem run⟩
  all_goals
    rw [read] at mem
    cases mem

/-- Whatever comes of a source, what was swapped for a while is put back. -/
theorem addSource_restores (options : Options) (calls : List Call) (input : Source) :
    let s := Call.last { options } calls
    let s' := after (addSource input s)
    s'.registry.current = s.registry.current ∧
    s'.listing.bucket = s.listing.bucket ∧ s'.listing.depth = s.listing.depth ∧
    (∀ id, Text.startsWith "_locals." (s'.table.symbol id).python = false) ∧
    ∀ b ∈ input.starts s, ∀ params b', Item.Defines b params b' →
      (∀ p ∈ params, (after (Item.item b)).table.symbol p.id = b'.table.symbol p.id) ∧
      (after (Item.item b)).table.Evolves s'.table ∧
      ∀ e b1, Item.item b = .error e b1 → addSource input s = .error e b1 := by
  intro s s'
  have good : s.table.Good := Call.good_last options calls
  have returns : s.Returns s' := Call.returns_run (.source input) good
  refine ⟨returns.space, congrArg Position.bucket returns.position,
    congrArg Position.depth returns.position, fun id => ?_, ?_⟩
  · have global := ((returns.table.good good).coined id).global
    rwa [Symbol.isGlobal, Bool.not_eq_true'] at global
  · rintro b mem params b' ⟨kind, method, opened⟩
    obtain ⟨sound, keeps, fails⟩ := Source.start_cases good mem
    exact ⟨Item.item_parameters sound kind opened, keeps.table, fails⟩

/-- Whether the first item of a source opens a function with a parameter. -/
def Source.opensWith (input : Source) (s : Session) (id : SymbolId) : Bool :=
  match input.starts s with
  | b :: _ => b.symbol.kind = .keyword .function &&
    match Item.opening b with
    | .ok (_, params) _ => (params.map (·.id)).contains id
    | .error _ _ => false
  | [] => false

lemma Source.defines_first {id : SymbolId} (h : input.opensWith s id = true) :
    ∃ b rest params, input.starts s = b :: rest ∧ Defines b params (after (opening b)) ∧
      ∃ p ∈ params, p.id = id := by
  rw [opensWith] at h
  split at h
  case h_1 b rest starts =>
    rw [Bool.and_eq_true, decide_eq_true_eq] at h
    obtain ⟨kind, opens⟩ := h
    split at opens
    case h_1 method params b' run =>
      obtain ⟨p, mem, name⟩ := List.mem_map.mp (List.contains_iff_mem.mp opens)
      exact ⟨b, rest, params, starts, ⟨kind, method, by rw [run]; rfl⟩, p, mem, name⟩
    case h_2 => cases opens
  case h_2 => cases h

/-- A body that fails behind the use of its parameter as an array leaves it as it
was. -/
theorem addSource_restores_failed :
    let input := Source.program "function f(a) \x7b a[1] = 2; ( \x7d"
    let s' := after (addSource input {})
    succeeds (addSource input {}) = false ∧ ∃ b ∈ input.starts {}, ∃ params b',
      Item.Defines b params b' ∧ ∃ p ∈ params,
        (after (Item.item b)).table.symbol p.id = b'.table.symbol p.id ∧
        Text.startsWith "_locals." (s'.table.symbol p.id).python = false := by
  intro input s'
  obtain ⟨b, rest, params, starts, defines, p, inside, -⟩ :=
    Source.defines_first (show input.opensWith {} 113 = true by decide +kernel)
  have mem : b ∈ input.starts {} := starts ▸ List.mem_cons_self
  obtain ⟨-, -, -, global, all⟩ := addSource_restores {} [] input
  exact ⟨by decide +kernel, b, mem, params, _, defines, p, inside,
    (all b mem params _ defines).1 p inside, global p.id⟩

/-- In `function f(a) { } BEGIN { a = 1 }` the parameter is found to be a scalar
after the function, so it is not what it was right before the body. -/
theorem parameter_used_later :
    let input := Source.program "function f(a) \x7b \x7d\nBEGIN \x7b a = 1 \x7d"
    let s' := after (addSource input {})
    succeeds (addSource input {}) = true ∧ ∃ b ∈ input.starts {}, ∃ params b',
      Item.Defines b params b' ∧ ∃ p ∈ params, s'.table.symbol p.id ≠ b'.table.symbol p.id := by
  intro input s'
  obtain ⟨b, rest, params, starts, defines, p, inside, name⟩ :=
    Source.defines_first (show input.opensWith {} 113 = true by decide +kernel)
  refine ⟨by decide +kernel, b, starts ▸ List.mem_cons_self, params, _, defines, p, inside, ?_⟩
  -- nothing is known of the parameter before the body
  have before : ((input.starts {}).head?.map fun b =>
      (after (Item.opening b)).table.isScalar 113) = some false := by decide +kernel
  have later : s'.table.isScalar 113 = true := by decide +kernel
  rw [starts, List.head?_cons, Option.map_some, Option.some.injEq] at before
  intro same
  rw [name] at same
  rw [Table.isScalar, same] at later
  exact Bool.false_ne_true (before.symm.trans later)

/-! ### Where expressions are compiled -/

namespace Item

/-- A session while the item is compiled that started from another one, with the
parameters that hide variables there. -/
inductive Point (b : Session) : Session → List SymbolId → Prop where
  | item {s : Session} (sound : s.Sound) (grows : b.table.Grows s.table) : Point b s []
  | body {s b' : Session} {params : List Parameter} (sound : s.Sound)
      (defines : Defines b params b') (grows : (redirected params b'.table).Grows s.table) :
      Point b s (params.map (·.id))

variable {s b b' : Session} {ids : List SymbolId}

lemma Point.sound (h : Point b s ids) : s.Sound := by
  cases h <;> assumption

/-- What the head of a function does to the table. -/
lemma Defines.keeps (h : Defines b params b') (sound : b.Sound) :
    b.table.Evolves b'.table ∧ Held b'.table params := by
  obtain ⟨kind, method, run⟩ := h
  rcases opening_cases sound kind with ⟨e, s1, failed, -⟩ |
    ⟨name, found, s1, opened, crosses, held, -⟩
  · rw [failed] at run
    cases run
  · rw [opened] at run
    cases run
    exact ⟨crosses.table, held⟩

lemma Point.spelled (h : Point b s ids) (sound : b.Sound) (spelled : b.table.Spelled) :
    s.table.Spelled := by
  cases h with
  | item _ grows => exact grows.spelled spelled
  | body _ defines grows =>
    exact grows.spelled (spelled_redirected ((defines.keeps sound).1.spelled spelled) _)

lemma keeps_start (sound : s.Sound) (mem : b ∈ starts fuel s) : s.Keeps b := by
  induction fuel generalizing s with
  | zero => cases mem
  | succ fuel ih =>
    rw [starts] at mem
    split at mem
    · cases mem
    case isFalse more =>
      have moved : s.Keeps (next s) := (Session.Trip.refl sound).pastTerminators.toStays.keeps
      rcases List.mem_cons.mp mem with rfl | mem
      · exact moved
      · cases first : item (next s) with
        | ok a s1 =>
          rw [first] at mem
          have crossed := (leaves_item moved.sound).keeps
          rw [first] at crossed
          exact (moved.trans crossed).trans (ih crossed.sound mem)
        | error e s1 =>
          rw [first] at mem
          cases mem

end Item

lemma Table.initial_spelled : initial.Spelled := by
  have strings : ∀ e ∈ Symbol.initialEntries, e.symbol.kind ≠ .string := by decide +kernel
  have bare : ∀ e ∈ Symbol.initialEntries, e.symbol.python.toList.head? ≠ some '"' := by
    decide +kernel
  exact initial_symbol (P := Symbol.Spelled) fun e mem =>
    ⟨fun string => absurd string (strings e mem), fun _ _ => bare e mem⟩

namespace Source

variable {s b : Session} {input : Source}

lemma returns_start (good : s.table.Good) (mem : b ∈ input.starts s) : b.Sound ∧ s.Returns b := by
  refine ⟨(start_cases good mem).1, ?_⟩
  rw [starts] at mem
  rcases addSource_cases input good with ⟨s1, read, returns, sound, -⟩ | ⟨read, -⟩ |
    ⟨e, s1, read, -⟩
  · rw [read] at mem
    exact returns.trans (Item.keeps_start sound mem).returns
  all_goals
    rw [read] at mem
    cases mem

lemma evolves_of_mem_starts (good : s.table.Good) (mem : b ∈ input.starts s) :
    b.Sound ∧ s.table.Evolves b.table :=
  ⟨(returns_start good mem).1, (returns_start good mem).2.table⟩

end Source

namespace Call

lemma spelled_last (options : Options) (calls : List Call) :
    (last { options } calls).table.Spelled :=
  (returns_last calls Table.initial_good).table.spelled Table.initial_spelled

end Call

end AwkToPython
