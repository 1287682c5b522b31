import AwkToPython.Proofs.Progress.Statement
import AwkToPython.Proofs.Usage.Loading

/-!
# Whole streams are read to their end

Items are taken one after the other until the input ends, and each passes a token.
So whatever tokens stand before the end of input, compiling them comes to an end:
with a program or with a report of what is wrong, but never because a budget is
used up.
-/
namespace AwkToPython

variable {s s' : Session}

open Compile Table

variable {r n : Nat}

/-! ### Tables -/

namespace Table.HasEnd

variable {t : Table} {params : List Item.Parameter}

lemma sets (h : t.HasEnd) (others : ∀ p ∈ params, p.id ≠ endOfInput)
    (new : Item.Parameter → Table → Symbol) :
    (params.foldl (fun table p => table.set p.id (new p table)) t).HasEnd := by
  induction params generalizing t with
  | nil => exact h
  | cons p params ih =>
    obtain ⟨other, rest⟩ := List.forall_mem_cons.mp others
    exact ih (h.set other _) rest

end Table.HasEnd

lemma Table.Good.hasEnd {t : Table} (h : t.Good) : t.HasEnd :=
  ⟨Nat.lt_of_le_of_lt (show Table.endOfInput ≤ Table.newline by decide) h.size, h.ends⟩

namespace Item

/-! ### Rules -/

instance still_rangeFlag : Still (intern rangeFlag) := still_intern fun _ h => h.rangeFlag

instance below_inBucket (bucket : Bucket) {x : Compile Unit} [Below r n x] :
    Below r n (inBucket bucket x) := by
  refine .andThen fun _ => .andThen fun _ => ?_
  exact Statement.Below.restoring (fun _ => rfl) fun _ => rfl

instance below_rangeHead (start : Fragment) : Below r 0 (rangeHead start) := by
  unfold rangeHead
  infer_instance

instance below_patternHead (pattern : Fragment) : Below r 0 (patternHead pattern) := by
  unfold patternHead
  infer_instance

instance below_ruleAction : Below r 0 ruleAction := by
  unfold ruleAction
  infer_instance

instance below_rule : Below r 1 rule := by
  have action : Below r 0 (restoring ruleAction fun s => { s with listing := s.listing.dedent }) :=
    Statement.Below.restoring (fun _ => rfl) fun _ => rfl
  unfold rule
  infer_instance

/-! ### Definitions -/

instance below_defineFunction : Below r 0 defineFunction := by
  refine ⟨fun {s} closed few => .congr (current_bind _ _) (.congr (symbol_bind _ _) ?_)⟩
  dsimp only
  split
  case h_1 use kind =>
    have other : s.cursor.current.symbol ≠ endOfInput :=
      closed.table.ne_of_kind (by rw [kind]; simp)
    have set : ∀ symbol, Still (changeTable fun table =>
        .ok (table.set s.cursor.current.symbol symbol)) := fun symbol =>
      still_changeTable (fun t t' h changed => by cases changed; exact h.set other symbol) (by simp)
    split
    · exact passes_throw (by simp)
    · exact (Below.bind (r := r) (n := 0)).passes closed few
  · exact passes_throw (by simp)
  · exact passes_unexpected _

/-- One pass of the loop over parameters; `none` ends the loop. -/
def nextParameter : Compile (Option Token) := do
  if ← atBracket .closeParen then return none
  if !(← symbol).isVariable then unexpected .parameterName
  let token ← current
  advance
  skipNewlines
  if ← atKind .comma then
    advance
    skipNewlines
  else if !(← atBracket .closeParen) then unexpected .nextArgument
  return some token

lemma parameters_succ (fuel : Nat) (found : List Token) :
    parameters (fuel + 1) found = nextParameter >>=
      (·.elim (pure found) fun token => parameters fuel (found ++ [token])) := by
  funext s
  rw [parameters, nextParameter]
  simp only [bind_assoc, atBracket_bind]
  split
  · rfl
  · simp only [bind_assoc, symbol_bind]
    split
    · rfl
    · simp only [bind_assoc, current_bind, advance_bind, skipNewlines_bind, atKind_bind]
      split
      · simp
      · simp only [bind_assoc, atBracket_bind]
        split
        · rfl
        · simp

lemma below_nextParameter : Below r 0 nextParameter := by
  refine .andThen fun closing => ?_
  split
  · infer_instance
  · refine .andThen fun s => ?_
    split <;> infer_instance

/-- A pass that does not end the loop passes a variable. -/
lemma nextParameter_reads (closed : s.Closed) (run : nextParameter s = .ok (some token) s') :
    s.Reads 1 s' ∧ token.symbol ≠ endOfInput := by
  rw [nextParameter, atBracket_bind] at run
  split at run
  · cases run
  · rw [symbol_bind] at run
    split at run
    · exact absurd run unexpected_ne_ok
    case isFalse.isFalse var =>
      have other : s.symbol.kind ≠ .endOfInput := by
        intro same
        simp [Symbol.isVariable, Symbol.variableUse?, same] at var
      have rest : Before s.cursor.remaining 1 (do
          advance
          skipNewlines
          if ← atKind .comma then
            advance
            skipNewlines
          else if !(← atBracket .closeParen) then unexpected .nextArgument
          return some s.cursor.current) := before_advance
      have reads := (rest.passes closed (closed.more other) (Nat.le_refl _)).ok run
      refine ⟨reads, ?_⟩
      have same : token = s.cursor.current := by
        obtain ⟨_, s0, here, run⟩ := bind_ok.mp run
        cases here
        obtain ⟨_, s1, -, run⟩ := bind_ok.mp run
        obtain ⟨_, s2, -, run⟩ := bind_ok.mp run
        rw [atKind_bind] at run
        split at run
        · obtain ⟨_, s3, -, run⟩ := bind_ok.mp run
          obtain ⟨_, s4, -, run⟩ := bind_ok.mp run
          cases run
          rfl
        · rw [atBracket_bind] at run
          split at run
          · exact absurd run unexpected_ne_ok
          · cases run
            rfl
      rw [same]
      exact closed.table.ne_of_kind other

lemma passes_parameters (fuel : Nat) (found : List Token) (closed : s.Closed)
    (enough : s.cursor.remaining < fuel) : Passes 0 (parameters fuel found) s :=
  passes_loop parameters (fun found token => found ++ [token]) id below_nextParameter
    parameters_succ (fun closed _ run => (nextParameter_reads closed run).1) fuel found closed
    (Nat.lt_succ_self _) enough

lemma parameters_ne (closed : s.Closed)
    (old : ∀ t ∈ found, t.symbol ≠ endOfInput) (run : parameters fuel found s = .ok ts s') :
    ∀ t ∈ ts, t.symbol ≠ endOfInput := by
  induction fuel generalizing s found with
  | zero => cases run
  | succ fuel ih =>
    rw [parameters_succ] at run
    obtain ⟨a, s1, first, run⟩ := bind_ok.mp run
    have closed1 := closed.reads ((below_nextParameter.passes closed (Nat.lt_succ_self _)).ok first)
    cases a with
    | none =>
      cases run
      exact old
    | some token =>
      refine ih closed1 (fun t mem => ?_) run
      rcases List.mem_append.mp mem with mem | mem
      · exact old t mem
      · exact List.mem_singleton.mp mem ▸ (nextParameter_reads closed first).2

lemma below_functionBody (method : String)
    (others : ∀ p ∈ params, p.id ≠ endOfInput) : Below r 0 (functionBody method params) := by
  have redirect : Still (changeTable fun table =>
      .ok (params.foldl (fun table p => p.redirect table) table)) :=
    still_changeTable (fun t t' h changed => by cases changed; exact h.sets others _) (by simp)
  refine .andThen fun _ => .andThen fun _ => .andThen fun _ => .andThen fun first =>
    .andThen fun _ => .andThen fun _ => ⟨fun {s} closed few => ?_⟩
  have passes := below_action.passes closed few
  rw [Passes] at passes
  rw [Passes, restoring]
  cases run : action s with
  | ok a s' =>
    rw [run] at passes
    exact ⟨passes.buffer, passes.table.sets others _,
      Nat.le_trans (Nat.le_add_right _ _) passes.position⟩
  | error e s' =>
    rw [run] at passes
    exact passes

lemma before_definition : Before r 1 definition := by
  refine .advancing fun _ => .andThen fun method => .andThen fun _ => .andThen fun _ =>
    ⟨fun {s} closed few => .congr (remaining_bind _ _) ?_⟩
  refine (passes_parameters (s.cursor.remaining + 1) [] closed (Nat.lt_succ_self _)).bind (n := 0)
    fun tokens s' run reads => ?_
  have body : ∀ table, Below r 0 (functionBody method (tokens.map (Parameter.ofToken table))) := by
    refine fun table => below_functionBody method fun p mem => ?_
    obtain ⟨t, inside, rfl⟩ := List.mem_map.mp mem
    exact parameters_ne closed (by simp) run t inside
  exact (Below.bind (r := r) (n := 0)).passes (closed.reads reads)
    (by have := reads.remaining; omega)

/-! ### Items -/

lemma before_part (part : Section) : Before r 1 (Item.part part) := by
  unfold Item.part
  infer_instance

lemma below_item : Below r 1 item := by
  refine ⟨fun {s} closed few => .congr (kind_bind _ _) ?_⟩
  have ruled : Below r 1 (do
      needMainLoop
      inBucket (.part .record) rule) := inferInstance
  have acted : Below r 1 (do
      needMainLoop
      inBucket (.part .record) action) := inferInstance
  split
  case h_1 heading kind =>
    exact (before_part heading).passes closed (closed.more (by rw [kind]; simp)) (Nat.le_refl _)
  · exact acted.passes closed few
  case h_3 kind =>
    exact before_definition.passes closed (closed.more (by rw [kind]; simp)) (Nat.le_refl _)
  · exact ruled.passes closed few

/-- One pass of the loop over items; `none` ends the loop. -/
def nextItem : Compile (Option Unit) := do
  skipTerminators
  if !(← symbol).isEnd then some <$> item else return none

lemma items_pass (fuel : Nat) :
    items (fuel + 1) = nextItem >>= (·.elim (pure ()) fun _ => items fuel) := by
  funext s
  rw [items, nextItem]
  simp only [bind_assoc, skipTerminators_bind, symbol_bind]
  split
  · simp
  · rfl

lemma below_nextItem : Below r 0 nextItem := by
  have := below_item (r := r)
  unfold nextItem
  infer_instance

/-- A pass that does not end the loop passes an item. -/
lemma nextItem_reads (closed : s.Closed) (run : nextItem s = .ok (some ()) s') : s.Reads 1 s' := by
  rw [nextItem] at run
  obtain ⟨a, s1, skipped, run⟩ := bind_ok.mp run
  have first : s.Reads 0 s1 := (below_skipTerminators.passes closed (Nat.lt_succ_self _)).ok skipped
  rw [symbol_bind] at run
  split at run
  · have := below_item (r := s1.cursor.remaining + 1)
    have second := ((Below.map (n := 1) (x := item) (g := some)).passes (closed.reads first)
      (Nat.lt_succ_self _)).ok run
    simpa using first.trans second
  · cases run

lemma passes_items (fuel : Nat) (closed : s.Closed)
    (enough : s.cursor.remaining < fuel) : Passes 0 (items fuel) s :=
  passes_loop (fun fuel _ => items fuel) (fun _ _ => ()) (fun _ => ()) below_nextItem
    (fun fuel _ => items_pass fuel) (fun closed _ run => nextItem_reads closed run) fuel () closed
    (Nat.lt_succ_self _) enough

end Item

namespace Compile

lemma passes_items (closed : s.Closed) : Passes 0 items s :=
  .congr (remaining_bind _ _) (Item.passes_items _ closed (Nat.lt_succ_self _))

/-- Whatever text is read into a good table, compiling it comes to an end. -/
lemma segment_going (good : s.table.Good) (text : String) (s' : Session) :
    segment text s ≠ .error .exhausted s' := by
  obtain ⟨after, -, -⟩ := Vocabulary.tokens_sound good s.options.library text
  have going := Vocabulary.tokens_ne_exhausted s.toVocabulary s.options.library text
  have padded : ∀ tokens, (s.toVocabulary.tokens s.options.library text).1 = .ok tokens →
      ∃ ts line, tokens = ts ++ List.replicate endPadding (Token.endOfInput line) := by
    rw [tokens_run]
    split
    · nofun
    · exact fun _ same => ⟨_, _, (Except.ok.inj same).symm⟩
  rw [segment_eq]
  change (reading text >>= fun _ => items : Compile Unit) s ≠ _
  simp only [Bind.bind, EStateM.bind]
  rw [reading_run]
  generalize s.toVocabulary.tokens s.options.library text = read at after going padded
  obtain ⟨result, v⟩ := read
  cases result with
  | error e =>
    intro failed
    cases failed
    exact going rfl
  | ok tokens =>
    obtain ⟨ts, line, rfl⟩ := padded tokens rfl
    cases s.options.debug <;>
    exact
    (passes_items (Session.closed_of_buffer after.hasEnd (Cursor.ofTokens_buffer ts line))).going

end Compile

/-! ### Progress -/

/-- What compiling does not fail to do at a place of a stream: what succeeds has moved
on, a pass of a loop that does not end the loop has moved on, and no budget is used
up. The depths are those that are given to the constructs at such a place. -/
structure Session.Progresses (s : Session) : Prop where
  expression : ∀ context f s', Compile.expression context s = .ok f s' →
    s.cursor.position < s'.cursor.position
  statement : ∀ depth s', s.cursor.remaining < depth →
    Statement.statementWithin depth s = .ok () s' →
    s.cursor.position < s'.cursor.position
  block : ∀ s', Compile.action s = .ok () s' → s.cursor.position < s'.cursor.position
  item : ∀ s', Item.item s = .ok () s' → s.cursor.position < s'.cursor.position
  nextItem : ∀ s', Item.nextItem s = .ok (some ()) s' → s.cursor.position < s'.cursor.position
  nextStatement : ∀ depth s', s.cursor.remaining < depth →
    Statement.nextStatement (Statement.statementWithin depth) s = .ok (some ()) s' →
      s.cursor.position < s'.cursor.position
  nextOperation : ∀ depth left context limit f s', 4 * s.cursor.remaining + 3 ≤ depth →
    Expression.extend (Expression.reachWithin depth) left context limit s = .ok (some f) s' →
      s.cursor.position < s'.cursor.position
  nextArgument : ∀ depth context f s', 4 * (s.cursor.remaining + 1) ≤ depth →
    Expression.nextItem skipNewlines (do
      let argument ← Expression.whole (Expression.reachWithin depth) context
      skipNewlines
      return argument) s = .ok (some f) s' → s.cursor.position < s'.cursor.position
  nextMember : ∀ depth context f s', 4 * (s.cursor.remaining + 1) ≤ depth →
    Expression.nextItem skipNewlines (Expression.whole (Expression.reachWithin depth) context) s =
      .ok (some f) s' → s.cursor.position < s'.cursor.position
  nextParameter : ∀ token s', Item.nextParameter s = .ok (some token) s' →
    s.cursor.position < s'.cursor.position
  ends : ∀ s', Compile.items s ≠ .error .exhausted s'

namespace Compile

open Expression in
/-- However malformed the tokens before the padding are, the cursor moves on wherever
something succeeds, every loop either ends or moves on, and so all comes to an end. -/
theorem malformed_streams_end {s : Session} (table : s.table.HasEnd) (ts : List Token) (line : Nat)
    (buffer : s.cursor.buffer = ts ++ List.replicate endPadding (Token.endOfInput line)) :
    s.Progresses ∧ ∀ text s', s.table.Good → segment text s ≠ .error .exhausted s' := by
  have closed := Session.closed_of_buffer table buffer
  have here : s.cursor.remaining < s.cursor.remaining + 1 := Nat.lt_succ_self _
  have served : ∀ {depth}, 4 * (s.cursor.remaining + 1) ≤ depth →
      Serves (s.cursor.remaining + 1) (reachWithin depth) := fun enough => serves_reachWithin enough
  refine ⟨⟨?_, ?_, ?_, ?_, ?_, ?_, ?_, ?_, ?_, ?_, fun s' => (passes_items closed).going⟩,
    fun text s' good => segment_going good text s'⟩
  · exact fun context f s' run => ((below_expression context).passes closed here).ok run |>.position
  · exact fun depth s' few run =>
      ((Statement.below_statementWithin depth).passes closed few).ok run |>.position
  · exact fun s' run => (below_action.passes closed here).ok run |>.position
  · exact fun s' run => (Item.below_item.passes closed here).ok run |>.position
  · exact fun s' run => (Item.nextItem_reads closed run).position
  · exact fun depth s' few run => (Statement.nextStatement_reads closed few run).position
  · intro depth left context limit f s' enough run
    have : Serves s.cursor.remaining (reachWithin depth) := serves_reachWithin (by omega)
    have : ∀ context limit, Below (s.cursor.remaining + 1) 1
        (reachWithin depth (.operation context limit)) := fun _ _ =>
      below_reachWithin_operation serves_reachWithin enough
    exact ((passes_extend left context limit closed (Nat.le_refl _)).2 f s' run).position
  · intro depth context f s' enough run
    have := served enough
    exact (nextItem_reads closed here run).position
  · intro depth context f s' enough run
    have := served enough
    exact (nextItem_reads closed here run).position
  · exact fun token s' run => (Item.nextParameter_reads closed run).1.position

/-- A stream of brackets that nothing closes. -/
theorem malformed_streams_end_brackets :
    let ts := (["BEGIN", "(", "(", "["].map Token.ofWord)
    let s : Session :=
      { cursor := Cursor.ofTokens (ts ++ List.replicate endPadding (Token.endOfInput 1)) }
    s.Progresses ∧ ∀ text s', s.table.Good → segment text s ≠ .error .exhausted s' :=
  malformed_streams_end Table.initial_hasEnd _ 1 (Cursor.ofTokens_buffer _ 1)

end Compile

end AwkToPython
