import AwkToPython.Proofs.Usage.Source

/-!
# Arrays and scalars

No variable is both an array and a scalar, whatever calls were made and whether
they succeeded, and what is known of a variable is never forgotten. If all calls
succeed, what their tokens say of a variable is known, so no variable is
subscripted in one place and assigned or preset in another.
-/
namespace AwkToPython

open Compile Session

variable {s s' : Session}

lemma Item.items_end (run : Item.items fuel s = .ok () s') : s'.symbol.isEnd := by
  induction fuel generalizing s with
  | zero => cases run
  | succ fuel ih =>
    rw [items_succ] at run
    split at run
    case isTrue ended =>
      cases run
      exact ended
    case isFalse =>
      obtain ⟨_, _, -, run⟩ := bind_ok.mp run
      exact ih run

namespace Call

variable {calls : List Call} {id : SymbolId}

/-- The labels of a call are those of all tokens of its source, up to the end. -/
def Covers (s : Session) (call : Call) : Prop :=
  ∀ input s1, call = .source input → load input s = .ok true s1 →
    s1.cursor.shown = (call.labels s).map (·.1) ++ (after (call.run s)).cursor.shown ∧
      (after (call.run s)).symbol.isEnd = true

/-- Some call reads a variable right before a token of a kind, where it is no
parameter. -/
def Followed (s : Session) (calls : List Call) (kind : SymbolKind → Bool) (id : SymbolId) : Prop :=
  ∃ step ∈ trace s calls, ∃ a b : Label, [a, b] <:+: step.2.labels step.1 ∧
    a.1.symbol = id ∧ id ∉ a.2 ∧ kind ((last s calls).table.symbol b.1.symbol).kind = true

/-- Some call presets a variable. -/
def Presets (s : Session) (calls : List Call) (id : SymbolId) : Prop :=
  ∃ step ∈ trace s calls, step.2.target step.1 = some id

/-- What a call that succeeds leaves behind, with its labels. -/
lemma crosses_run (good : s.table.Good)
    (read : load input s = .ok true s1) (run : (Call.source input).run s = .ok () s') :
    s1.Crosses s' ((Call.source input).labels s) ∧ s'.symbol.isEnd := by
  rcases addSource_cases input good with
    ⟨s2, read', -, sound, step⟩ | ⟨read', -⟩ | ⟨e, s2, read', -⟩
  · cases read.symm.trans read'
    rw [Call.run, step] at run
    have leaves := Item.leaves_items (itemFuel s1) sound
    rw [run] at leaves
    rw [labels, read]
    exact ⟨leaves, Item.items_end run⟩
  all_goals cases read.symm.trans read'

lemma covers_run {call : Call} (good : s.table.Good) (run : call.run s = .ok () s') :
    call.Covers s := by
  rintro input s1 rfl read
  obtain ⟨crosses, ended⟩ := crosses_run good read run
  rw [run]
  exact ⟨crosses.shown, ended⟩

/-- What the labels of a call say is known after it. -/
lemma scoped_run {call : Call} (good : s.table.Good)
    (run : call.run s = .ok () s') (near : [a, b] <:+: call.labels s) :
    Scoped s'.table a b ∧ a.1.symbol < s'.table.size ∧ b.1.symbol < s'.table.size := by
  cases call with
  | preset assignment => cases List.eq_nil_of_infix_nil near
  | source input =>
    cases read : load input s with
    | error e s1 =>
      rw [labels, read] at near
      cases List.eq_nil_of_infix_nil near
    | ok more s1 =>
      cases more with
      | false =>
        rw [labels, read] at near
        cases List.eq_nil_of_infix_nil near
      | true =>
        obtain ⟨crosses, -⟩ := crosses_run good read run
        obtain ⟨-, chain, -⟩ := List.isChain_append.mp crosses.links
        have valid : ∀ x ∈ (Call.source input).labels s, x.1.symbol < s'.table.size := by
          intro x mem
          have shown : x.1 ∈ s1.cursor.shown := by
            rw [crosses.shown]
            exact List.mem_append_left _ (List.mem_map_of_mem mem)
          exact Nat.lt_of_lt_of_le (crosses.start.shown_sound shown).valid crosses.table.size
        have pair := List.IsChain.infix chain near
        exact ⟨List.isChain_pair.mp pair, valid a (near.subset (by simp)),
          valid b (near.subset (by simp))⟩

/-- What tokens say of a variable is known at the end. -/
lemma known_last {kind : SymbolKind → Bool}
    (good : s.table.Good) (ok : ∀ step ∈ trace s calls, ∃ s', step.2.run step.1 = .ok () s')
    (h : Followed s calls kind id) :
    ∃ a b : Token, a.symbol = id ∧ Token.Linked (last s calls).table a b ∧
      kind ((last s calls).table.symbol b.symbol).kind := by
  obtain ⟨step, mem, a, b, near, rfl, outside, follows⟩ := h
  obtain ⟨good', returns⟩ := returns_of_mem_trace good mem
  obtain ⟨s', run⟩ := ok step mem
  obtain ⟨linked, inside, inside'⟩ := scoped_run good' run near
  rw [run] at returns
  exact ⟨a.1, b.1, rfl, (linked outside).evolves returns.table inside inside', follows⟩

lemma isArray_last (good : s.table.Good)
    (ok : ∀ step ∈ trace s calls, ∃ s', step.2.run step.1 = .ok () s')
    (var : ((last s calls).table.symbol id).isVariable)
    (h : Followed s calls SymbolKind.isSubscript id) : (last s calls).table.isArray id := by
  obtain ⟨a, b, rfl, linked, subscript⟩ := known_last good ok h
  exact (linked var).1 subscript

lemma isScalar_last (good : s.table.Good)
    (ok : ∀ step ∈ trace s calls, ∃ s', step.2.run step.1 = .ok () s')
    (var : ((last s calls).table.symbol id).isVariable)
    (h : Presets s calls id ∨ Followed s calls SymbolKind.isAssign id) :
    (last s calls).table.isScalar id := by
  rcases h with ⟨step, mem, target⟩ | h
  · obtain ⟨good', returns⟩ := returns_of_mem_trace good mem
    obtain ⟨s1, call⟩ := step
    cases call with
    | source input => cases target
    | preset assignment =>
      obtain ⟨s', run⟩ := ok _ mem
      rcases preset_cases assignment good' with ⟨s2, run', -, -, scalar⟩ | ⟨e, s2, run', -⟩
      · have after_eq : after ((Call.preset assignment).run s1) = s2 := by
          rw [Call.run, run']
          rfl
        rw [after_eq] at returns
        exact returns.table.isScalar (scalar id target)
      · cases run.symm.trans run'
  · obtain ⟨a, b, rfl, linked, assign⟩ := known_last good ok h
    exact (linked var).2 assign

/-- Arrays and scalars are never the same variables. -/
theorem arrays_are_no_scalars (options : Options) (calls : List Call) :
    (∀ id, ¬((last { options } calls).table.isArray id = true ∧
      (last { options } calls).table.isScalar id = true)) ∧
    (∀ more id,
      ((last { options } calls).table.isArray id = true →
        (last { options } (calls ++ more)).table.isArray id = true) ∧
      ((last { options } calls).table.isScalar id = true →
        (last { options } (calls ++ more)).table.isScalar id = true)) ∧
    ((∀ step ∈ trace { options } calls, ∃ s', step.2.run step.1 = .ok () s') →
      (∀ step ∈ trace { options } calls, step.2.Covers step.1) ∧
      ∀ id, ((last { options } calls).table.symbol id).isVariable = true →
        ¬(Followed { options } calls SymbolKind.isSubscript id ∧
          (Presets { options } calls id ∨ Followed { options } calls SymbolKind.isAssign id))) := by
  have good := good_last options calls
  refine ⟨fun id both => good.proper.not_both both.1 both.2, fun more id => ?_, fun ok => ⟨?_, ?_⟩⟩
  · have later := (returns_last more good).table
    rw [last, last, List.foldl_append]
    exact ⟨later.isArray, later.isScalar⟩
  · intro step mem
    obtain ⟨s', run⟩ := ok step mem
    exact covers_run (returns_of_mem_trace Table.initial_good mem).1 run
  · intro id var both
    exact good.proper.not_both (isArray_last Table.initial_good ok var both.1)
      (isScalar_last Table.initial_good ok var both.2)

/-- The preset variable is an array in the body of a function that has a parameter
of its name, and a scalar everywhere else. -/
theorem arrays_are_no_scalars_hidden :
    let calls := [Call.preset "x=1",
      .source (.program "function f(x) \x7b x[1] = 2 \x7d\nBEGIN \x7b x = z[1] \x7d")]
    (∀ step ∈ trace {} calls, ∃ s', step.2.run step.1 = .ok () s') ∧ Presets {} calls 112 ∧
      ((last {} calls).table.symbol 112).isVariable = true ∧
      ¬Followed {} calls SymbolKind.isSubscript 112 := by
  intro calls
  have all : (trace {} calls).all (fun step => succeeds (step.2.run step.1)) = true := by
    decide +kernel
  have ok : ∀ step ∈ trace {} calls, ∃ s', step.2.run step.1 = .ok () s' := fun step mem =>
    ⟨_, ok_after (List.all_eq_true.mp all step mem)⟩
  have presets : Presets {} calls 112 := ⟨_, List.mem_cons_self, by decide +kernel⟩
  have var : ((last {} calls).table.symbol 112).isVariable = true := by decide +kernel
  exact ⟨ok, presets, var, fun subscripted =>
    ((arrays_are_no_scalars {} calls).2.2 ok).2 112 var ⟨subscripted, .inl presets⟩⟩

end Call

end AwkToPython
