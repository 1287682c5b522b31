import AwkToPython.Proofs.Progress.Expression
import AwkToPython.Statement.Compound

/-!
# Statements come to an end

Every statement passes a token before it asks for one inside it. So the tokens that
are left bound how deep statements can be nested, and how many of them a block can
hold.
-/
namespace AwkToPython.Statement

open Compile Expression

variable {inner : Compile Unit} {r n : Nat} {α : Type}

/-! ### Simple statements -/

instance below_endSimple : Below r 0 endSimple := by
  unfold endSimple
  infer_instance

instance below_expressionStatement : Below r 1 expressionStatement := by
  unfold expressionStatement
  infer_instance

/-! ### Output -/

instance still_atOutputEnd : Still atOutputEnd := by
  unfold atOutputEnd
  infer_instance

instance below_moreOutput (context : Context) (first : Fragment) :
    Below r 0 (moreOutput context first) := by
  unfold moreOutput
  infer_instance

instance below_outputItems : Below r 0 outputItems := by
  refine .andThen fun ends => ?_
  split
  · infer_instance
  · refine .andThen fun paren => ?_
    split
    · refine .andThen fun group => .andThen fun ends => ?_
      split
      · infer_instance
      · split <;> infer_instance
    · infer_instance

instance below_redirection : Below r 0 redirection := by
  refine .andThen fun s => ?_
  split <;> infer_instance

instance below_writeCall (redirect : Option Redirection) (call : String) :
    Below r 0 (writeCall redirect call) := by
  cases redirect <;> unfold writeCall <;> infer_instance

instance before_print (withFormat : Bool) : Before r 1 (print withFormat) := by
  unfold print printfCall
  infer_instance

/-! ### Blocks -/

/-- One pass of the loop over the statements of a block; `none` ends the loop. -/
def nextStatement (inner : Compile Unit) : Compile (Option Unit) := do
  skipTerminators
  if ← atKey "\x7d" then
    advance
    return none
  else if (← symbol).isEnd then unexpected (.mark "\x7d")
  else some <$> inner

lemma statements_succ (inner : Compile Unit) (fuel : Nat) :
    statements inner (fuel + 1) = nextStatement inner >>=
      (·.elim (pure ()) fun _ => statements inner fuel) := by
  funext s
  rw [statements, nextStatement]
  simp only [bind_assoc, skipTerminators_bind, atKey_bind]
  split
  · simp
    rfl
  · simp only [bind_assoc, symbol_bind]
    split
    · rfl
    · simp

section Inner

variable [h : Below r 1 inner]

lemma below_nextStatement : Below r 0 (nextStatement inner) := by
  unfold nextStatement
  infer_instance

/-- A pass that does not end the loop passes a statement. -/
lemma nextStatement_reads (closed : s.Closed)
    (few : s.cursor.remaining < r) (run : nextStatement inner s = .ok (some ()) s') :
    s.Reads 1 s' := by
  rw [nextStatement] at run
  obtain ⟨a, s1, skipped, run⟩ := bind_ok.mp run
  have first : s.Reads 0 s1 := ((below_skipTerminators (r := r)).passes closed few).ok skipped
  have closed1 := closed.reads first
  have left := first.remaining
  rw [atKey_bind] at run
  split at run
  · cases run
  · rw [symbol_bind] at run
    split at run
    · exact absurd run unexpected_ne_ok
    · have second := ((Below.map (r := r) (n := 1) (x := inner) (g := some)).passes closed1
        (by omega)).ok run
      simpa using first.trans second

instance below_statements : Below r 0 (do statements inner ((← remaining) + 1)) :=
  ⟨fun {s} closed few => passes_loop (fun fuel _ => statements inner fuel) (fun _ _ => ())
    (fun _ => ()) below_nextStatement (fun fuel _ => statements_succ inner fuel) nextStatement_reads
    (s.cursor.remaining + 1) () closed few (Nat.lt_succ_self _)⟩

instance still_passUnlessWritten (before : Nat) : Still (passUnlessWritten before) := by
  unfold passUnlessWritten
  infer_instance

/-- The brace that opens a block is passed before its statements. -/
instance before_block : Before r 1 (block inner) := by
  refine ⟨fun closed more few => ?_⟩
  refine ((below_expectBracket (r := r + 1) _ _).passes closed (Nat.lt_succ_of_le few)).bind
    (n := 0)
    fun _ s' _ reads => ?_
  have left := reads.remaining
  have rest : Below r 0 (do
      let before ← mark
      statements inner ((← remaining) + 1)
      passUnlessWritten before) := by
    refine .andThen fun before => ?_
    have all : Below r 0 (do
        (do statements inner ((← remaining) + 1))
        passUnlessWritten before) := inferInstance
    rwa [bind_assoc] at all
  exact rest.passes (closed.reads reads) (by omega)

lemma below_block : Below (r + 1) 1 (block inner) := by
  refine before_block.below fun s _ ends _ => ?_
  have run : block inner s = (unexpected (.mark "\x7b") : Compile Unit) s := by
    rw [block, expectBracket]
    simp only [bind_assoc, atBracket_bind, ends]
    rfl
  exact .congr run (passes_unexpected _)

/-! ### Branches and loops -/

omit h in
lemma Below.restoring {restore : Session → Session} [h : Below r n x]
    (cursor : ∀ s, (restore s).cursor = s.cursor) (table : ∀ s, (restore s).table = s.table) :
    Below r n (restoring x restore) := by
  refine ⟨fun {s} closed few => ?_⟩
  have passes := h.passes closed few
  rw [Passes] at passes
  rw [Passes, AwkToPython.restoring]
  cases run : x s with
  | ok a s' =>
    rw [run] at passes
    exact ⟨by rw [cursor]; exact passes.buffer, by rw [table]; exact passes.table,
      by rw [cursor]; exact passes.position⟩
  | error e s' =>
    rw [run] at passes
    exact passes

instance below_body : Below r 0 (body inner) := by
  refine .andThen fun _ => .andThen fun _ => ?_
  exact Below.restoring (fun _ => rfl) fun _ => rfl

omit h in
instance below_parenthesisedCondition : Below r 0 parenthesisedCondition := by
  unfold parenthesisedCondition
  infer_instance

instance before_branch : Before r 1 (branch inner) := by
  refine .advancing fun _ => .andThen fun test => .andThen fun _ => .andThen fun _ =>
    .andThen fun s => ?_
  split <;> infer_instance

omit h in
instance still_breakUnless (test : Fragment) : Still (breakUnless test) := by
  unfold breakUnless
  infer_instance

instance before_whileLoop : Before r 1 (whileLoop inner) := by
  unfold whileLoop
  infer_instance

omit h in
instance still_insertLoopHead (start : Nat) (flag : String) (test : Fragment)
    (lines : List String) : Still (insertLoopHead start flag test lines) := by
  unfold insertLoopHead
  infer_instance

instance before_doLoop : Before r 1 (doLoop inner) := by
  unfold doLoop
  infer_instance

instance below_forEach (key array : Token) : Below r 0 (forEach inner key array) := by
  unfold forEach
  infer_instance

omit h in
instance below_optional {absent : Compile Bool} {part : Compile Fragment} [Still absent]
    [Below r 1 part] : Below r 0 (optional absent part) := by
  unfold optional
  infer_instance

omit h in
instance still_emitPart (part : Option Fragment) : Still (emitPart part) := by
  rw [emitPart.eq_def]
  split <;> infer_instance

omit h in
instance still_generator (n : Nat) (test : Option Fragment) (testLines : List String)
    (step : Option Fragment) (stepLines : List String) :
    Still (generator n test testLines step stepLines) := by
  unfold generator
  refine .andThen fun _ => .andThen fun _ => ?_
  split <;> infer_instance

instance below_countedLoop : Below r 0 (countedLoop inner) := by
  refine .andThen fun _ => .andThen fun _ => .andThen fun start => .andThen fun _ =>
    .andThen fun testMark => .andThen fun test => .andThen fun _ => .andThen fun stepMark => ?_
  infer_instance

omit h in
instance still_keysHead? : Still keysHead? := by
  unfold keysHead?
  infer_instance

instance before_forLoop : Before r 1 (forLoop inner) := by
  refine .advancing fun _ => .andThen fun paren => ?_
  split
  · infer_instance
  · refine .andThen fun head => ?_
    split <;> infer_instance

/-! ### Any statement -/

omit h in
instance Before.expressionStatement : Before r 1 expressionStatement := Below.before inferInstance

omit h in
instance before_delete : Before r 1 delete := by
  refine .advancing fun _ => .andThen fun token => .andThen fun s => ?_
  split <;> infer_instance

instance before_keywordStatement (keyword : Keyword) :
    Before r 1 (keywordStatement inner keyword) := by
  unfold keywordStatement jump exit returnValue
  cases keyword <;> infer_instance

lemma below_statement : Below (r + 1) 1 (statement inner) := by
  have before : Before r 1 (statement inner) := by
    refine .andThen fun k => ?_
    split <;> infer_instance
  refine before.below fun s closed ends few => ?_
  have run : statement inner s = expressionStatement s := by
    rw [statement, kind_bind, ends]
  exact .congr run (below_expressionStatement.passes closed few)

end Inner

/-- Statements are nested no deeper than tokens are left. -/
instance below_statementWithin (depth : Nat) : Below depth 1 (statementWithin depth) := by
  induction depth with
  | zero => exact ⟨fun _ few => absurd few (Nat.not_lt_zero _)⟩
  | succ depth ih => exact below_statement

end AwkToPython.Statement

namespace AwkToPython.Compile

instance below_action {r : Nat} : Below r 1 action := by
  refine ⟨fun {s} closed _ => ?_⟩
  have run : action s = Statement.block (Statement.statementWithin (s.cursor.remaining + 1)) s := by
    rw [action, remaining_bind]
  exact .congr run (Statement.below_block.passes closed (Nat.lt_succ_of_lt (Nat.lt_succ_self _)))

end AwkToPython.Compile
