import AwkToPython.Proofs.Progress.Basic

/-!
# Expressions come to an end

A goal asks for its parts either after a token was passed or, at most three times
in a row, where it stands. So four goals for every token that is left are enough,
and an expression that is compiled has passed at least one token.
-/
namespace AwkToPython

open Compile

/-- The tokens that a goal passes at least. -/
def Goal.least : Goal → Nat
  | .rest .. => 0
  | _ => 1

namespace Expression

variable {parts : Parts} {r n : Nat} {α : Type} {context : Context} {limit : Nat}

/-- The parts of a construct come to an end wherever fewer than `r` tokens are left. -/
class Serves (r : Nat) (parts : Parts) : Prop where
  goal (goal : Goal) : Below r goal.least (parts goal)

section Items

variable {afterComma : Compile Unit} {item : Compile α}

/-- One pass of the loop over further items; `none` ends the loop. -/
def nextItem (afterComma : Compile Unit) (item : Compile α) : Compile (Option α) := do
  if ← atKind .comma then
    advance
    afterComma
    some <$> item
  else return none

lemma moreItems_succ (fuel : Nat) (found : List α) :
    moreItems afterComma item (fuel + 1) found = nextItem afterComma item >>=
      (·.elim (pure found) fun a => moreItems afterComma item fuel (found ++ [a])) := by
  funext s
  rw [moreItems, nextItem]
  simp only [bind_assoc, atKind_bind]
  split <;> simp [*]

variable [hc : Below r 0 afterComma] [hi : Below r 1 item]

lemma below_nextItem : Below r 0 (nextItem afterComma item) := by
  unfold nextItem
  infer_instance

/-- A pass that does not end the loop passes an item. -/
lemma nextItem_reads (closed : s.Closed)
    (few : s.cursor.remaining < r) (run : nextItem afterComma item s = .ok (some a) s') :
    s.Reads 1 s' := by
  rw [nextItem, atKind_bind] at run
  split at run
  · have all : Below r 1 (do
        advance
        afterComma
        some <$> item) := inferInstance
    exact (all.passes closed few).ok run
  · cases run

instance below_moreItems (found : List α) :
    Below r 0 (do moreItems afterComma item ((← remaining) + 1) found) :=
  ⟨fun {s} closed few => passes_loop (moreItems afterComma item) (fun found a => found ++ [a]) id
    below_nextItem moreItems_succ nextItem_reads (s.cursor.remaining + 1) found closed few
    (Nat.lt_succ_self _)⟩

instance below_items : Below r 1 (items afterComma item) := by
  unfold items
  infer_instance

end Items

section Constructs

/-! ### Steps that stay where they are -/

instance still_updateField (index : String) (update : String → String) (keepOld : Bool) :
    Still (updateField index update keepOld) := by
  unfold updateField
  infer_instance

instance still_step (operand : Fragment) (increment before : Bool) :
    Still (step operand increment before) := by
  unfold step
  split <;> infer_instance

instance still_replacement (f : Fragment) : Still (replacement f) := by
  unfold replacement
  split <;> infer_instance

instance still_writeSubstitution (n : Nat) (call : String → String) (target : Option Fragment) :
    Still (writeSubstitution n call target) := by
  have record : Still (writeSubstitution.record n call) := by
    unfold writeSubstitution.record
    infer_instance
  rw [writeSubstitution.eq_def]
  split
  · exact record
  · split <;> infer_instance

instance still_substr (fs : List Fragment) : Still (substr fs) := by
  rw [substr.eq_def]
  split
  · split <;> infer_instance
  · split <;> infer_instance
  · infer_instance

instance still_choice (test yes no : Fragment) (thenLines elseLines : List String) :
    Still (choice test thenLines yes elseLines no) := by
  unfold choice
  infer_instance

instance still_libraries (library : Option String) : Still (library.forM requireLibrary) := by
  cases library with
  | none => exact still_pure _
  | some name => exact still_requireLibrary name

variable [h : Serves r parts]

instance Serves.operation : Below r 1 (parts (.operation context limit)) :=
  h.goal (.operation context limit)

instance Serves.signed : Below r 1 (parts (.signed context)) := h.goal (.signed context)

instance Serves.operand : Below r 1 (parts (.operand context)) := h.goal (.operand context)

instance Serves.rest {left : Fragment} : Below r 0 (parts (.rest left context limit)) :=
  h.goal (.rest left context limit)

instance below_whole : Below r 1 (whole parts context) := by
  unfold whole
  infer_instance

instance below_arguments : Below r 1 (arguments parts context) := by
  unfold arguments
  infer_instance

instance below_subscript {afterComma : Compile Unit} [Below r 0 afterComma] :
    Below r 1 (subscript parts afterComma) := by
  unfold subscript
  infer_instance

/-! ### Assignments and calls -/

instance before_assignment (left : Fragment) (op : String) :
    Before r 1 (assignment parts left op context) := by
  unfold assignment
  split
  · infer_instance
  case h_2 target _ => cases target <;> exact before_advance

instance below_regexOperand : Below r 0 (regexOperand parts context limit) := by
  refine .andThen fun token => .andThen fun regex => ?_
  split
  · infer_instance
  · refine .andThen fun f => .andThen fun _ => ?_
    split <;> infer_instance

instance before_length : Before r 1 (length parts) := by
  refine .advancing fun _ => .andThen fun paren => ?_
  split
  · infer_instance
  · refine .andThen fun args => ?_
    split
    · infer_instance
    · split <;> infer_instance
    · infer_instance

instance before_plainCall (s : Symbol) (strategy : Strategy) :
    Before r 1 (plainCall parts s strategy context) := by
  refine .advancing fun _ => .andThen fun args => ?_
  split
  · split <;> infer_instance
  · split <;> infer_instance
  all_goals infer_instance

instance below_splitBy (subject : String) : Below r 0 (splitBy parts subject) := by
  unfold splitBy
  infer_instance

instance before_split : Before r 1 (split parts context) := by
  refine .advancing fun _ => .andThen fun _ => .andThen fun subject => .andThen fun _ =>
    .andThen fun token => .andThen fun s => ?_
  split <;> infer_instance

instance before_call (token : Token) (function : Function) :
    Before r 1 (call parts token function context) := by
  unfold call matchCall substitute userCall
  refine .andThen fun _ => ?_
  split <;> infer_instance

/-! ### Operands -/

instance before_computedField : Before r 1 (computedField parts context) := by
  refine .advancing fun _ => .andThen fun k => ?_
  split <;> infer_instance

instance before_group : Before r 1 (group parts context) := by
  refine .advancing fun _ => .andThen fun _ => .andThen fun members => .andThen fun _ =>
    .andThen fun _ => ?_
  split <;> infer_instance

instance before_variableOperand (token : Token) :
    Before r 1 (variableOperand parts token context) := by
  unfold variableOperand userCall
  infer_instance

instance below_getlineTarget : Below r 0 (getlineTarget parts) := by
  refine .andThen fun k => ?_
  split <;> infer_instance

instance below_getlineSource (command : Option String) :
    Below r 0 (getlineSource parts command) := by
  rw [getlineSource.eq_def]
  split <;> infer_instance

instance before_getline (command : Option String) : Before r 1 (getline parts command) := by
  refine .andThen fun _ => .advancing fun _ => .andThen fun target => .andThen fun source => ?_
  split <;> infer_instance

instance below_getline (command : Option String) : Below r 0 (getline parts command) := by
  refine .andThen fun _ => .andThen fun _ => .andThen fun target => .andThen fun source => ?_
  split <;> infer_instance

lemma before_operand : Before r 1 (operand parts context) := by
  refine .andThen fun token => .andThen fun s => ?_
  split <;> infer_instance

lemma below_operand : Below (r + 1) 1 (operand parts context) := by
  refine before_operand.below fun s _ ends _ => ?_
  have run : operand parts context s = (unexpected .operand : Compile Fragment) s := by
    rw [operand, current_bind, symbol_bind, ends]
  exact .congr run (passes_unexpected _)

/-! ### Operators -/

instance before_subtraction (left : Fragment) : Before r 1 (subtraction parts left context) := by
  unfold subtraction
  infer_instance

/-! ### One operation more -/

/-- A step that may end a loop: it passes a token unless it ends the loop. -/
class Extends (r : Nat) (x : Compile (Option α)) : Prop where
  passes {s : Session} : s.Closed → 0 < s.cursor.remaining → s.cursor.remaining ≤ r → Passes 0 x s
  reads {s s' : Session} {a : α} : s.Closed → 0 < s.cursor.remaining → s.cursor.remaining ≤ r →
    x s = .ok (some a) s' → s.Reads 1 s'

instance extends_none : Extends r (pure none : Compile (Option α)) :=
  ⟨fun closed _ _ => closed.refl, fun _ _ _ run => by cases run⟩

instance extends_some {x : Compile α} [h : Before r 1 x] : Extends r (some <$> x) := by
  have made : Before r 1 (some <$> x) := by
    rw [← bind_pure_comp]
    infer_instance
  exact ⟨fun closed more few => (made.passes closed more few).weaken (Nat.zero_le _),
    fun closed more few run => (made.passes closed more few).ok run⟩

instance extends_unexpected (e : Expectation) : Extends r (unexpected e : Compile (Option α)) :=
  ⟨fun _ _ _ => passes_unexpected e, fun _ _ _ run => absurd run unexpected_ne_ok⟩

instance Extends.ite {c : Prop} [Decidable c] {x y : Compile (Option α)} [Extends r x]
    [Extends r y] : Extends r (if c then x else y) := by
  split <;> infer_instance

instance extends_operation (left : Fragment) (op : Symbol) (kind : BinaryOp) :
    Extends r (operation parts left op kind context) := by
  unfold operation arithmetic logical guarded matching membership pipe conditional
  cases kind <;> infer_instance

lemma extend_run (parts : Parts) (left : Fragment) (context : Context)
    (limit : Nat) (s : Session) :
    extend parts left context limit s = (match operatorAt s.table s.cursor.current with
      | some op => match op.kind with
        | .binary kind => if limit ≤ op.awkLevel then return none
          else operation parts left op kind context
        | _ => return none
      | none =>
        if s.symbol.kind = .number &&
            Text.startsWith "-" s.symbol.key then
          if limit ≤ additiveLevel then return none
          else some <$> subtraction parts left context
        else if s.symbol.startsOperand then
          if limit ≤ Symbol.concatenationLevel then return none
          else some <$> concatenation parts left context
        else return none : Compile (Option Fragment)) s := rfl

section Here

variable [here : ∀ context limit, Below (r + 1) 1 (parts (.operation context limit))]

/-- Joining asks for its right side where it stands. -/
instance before_concatenation (left : Fragment) :
    Before r 1 (concatenation parts left context) := by
  refine Below.before ?_
  unfold concatenation
  infer_instance

/-- One pass of the loop over operators either ends it or passes a token. -/
lemma passes_extend (left : Fragment) (context : Context) (limit : Nat)
    (closed : s.Closed) (few : s.cursor.remaining ≤ r) :
    Passes 0 (extend parts left context limit) s ∧
      ∀ f s', extend parts left context limit s = .ok (some f) s' → s.Reads 1 s' := by
  by_cases other : s.symbol.kind = .endOfInput
  · have run : extend parts left context limit s = .ok none s := by
      simp only [extend, current_bind, symbol_bind, get_bind, operatorAt, other,
        Symbol.startsOperand, reduceCtorEq, decide_false, Bool.false_and, Bool.false_eq_true,
        if_false, pure_run]
    exact ⟨.congr (y := pure none) run closed.refl,
      fun f s' some => by rw [run] at some; cases some⟩
  · have all : ∀ x : Compile (Option Fragment), Extends r x →
      extend parts left context limit s = x s →
        Passes 0 (extend parts left context limit) s ∧
          ∀ f s', extend parts left context limit s = .ok (some f) s' → s.Reads 1 s' :=
      fun x hx same => ⟨(hx.passes closed (closed.more other) few).congr same,
        fun f s' found => hx.reads closed (closed.more other) few (same ▸ found)⟩
    refine all _ ?_ (extend_run parts left context limit s)
    split
    · split <;> infer_instance
    · infer_instance

lemma below_rest (left : Fragment) : Below (r + 1) 0 (rest parts left context limit) := by
  refine ⟨fun closed few => ?_⟩
  obtain ⟨passes, reads⟩ : Passes 0 (extend parts left context limit) _ ∧ _ :=
    passes_extend left context limit closed (Nat.le_of_lt_succ few)
  refine passes.bind (n := 0) fun f s' run first => ?_
  cases f with
  | none => exact (closed.reads first).refl
  | some f =>
    have left := (reads f s' run).remaining
    exact (h.goal (.rest f context limit)).passes (closed.reads first) (by omega)

end Here

/-! ### Signs -/

instance below_stepAfter (f : Fragment) : Below r 0 (stepAfter f) := by
  unfold stepAfter
  split
  · infer_instance
  · refine .andThen fun k => ?_
    split <;> infer_instance

lemma below_signed [here : Below (r + 1) 1 (parts (.operand context))] :
    Below (r + 1) 1 (signed parts context) := by
  have plain : Below (r + 1) 1 (do stepAfter (← parts (.operand context))) := .first
  have plain' : Before r 1 (do stepAfter (← parts (.operand context))) := plain.before
  have before : Before r 1 (signed parts context) := by
    unfold signed sign negation
    refine .andThen fun s => ?_
    split <;> infer_instance
  refine before.below fun s closed ends few => ?_
  have run : signed parts context s = (do stepAfter (← parts (.operand context))) s := by
    rw [signed, symbol_bind, ends]
  exact .congr run (plain.passes closed few)

end Constructs

/-! ### Enough goals -/

section Stages

variable {depth : Nat}

lemma below_reachWithin_operand (served : ∀ {d}, 4 * r ≤ d → Serves r (reachWithin d))
    (enough : 4 * r + 1 ≤ depth) : Below (r + 1) 1 (reachWithin depth (.operand context)) := by
  cases depth with
  | zero => cases enough
  | succ d =>
    have := served (Nat.le_of_succ_le_succ enough)
    exact below_operand

lemma below_reachWithin_signed (served : ∀ {d}, 4 * r ≤ d → Serves r (reachWithin d))
    (enough : 4 * r + 2 ≤ depth) : Below (r + 1) 1 (reachWithin depth (.signed context)) := by
  cases depth with
  | zero => cases enough
  | succ d =>
    have := served (d := d) (by omega)
    have : Below (r + 1) 1 (reachWithin d (.operand context)) :=
      below_reachWithin_operand served (Nat.le_of_succ_le_succ enough)
    exact below_signed

lemma below_reachWithin_operation (served : ∀ {d}, 4 * r ≤ d → Serves r (reachWithin d))
    (enough : 4 * r + 3 ≤ depth) :
    Below (r + 1) 1 (reachWithin depth (.operation context limit)) := by
  cases depth with
  | zero => cases enough
  | succ d =>
    -- the operand has passed a token, so the loop starts with fewer left
    refine ⟨fun closed few => ?_⟩
    refine ((below_reachWithin_signed served (by omega)).passes closed few).bind (n := 0)
      fun f s' _ reads => ?_
    have left := reads.remaining
    exact ((served (d := d) (by omega)).goal (.rest f context limit)).passes (closed.reads reads)
      (by omega)

/-- Four goals for every token that is left are enough. -/
lemma serves_reachWithin (enough : 4 * r ≤ depth) : Serves r (reachWithin depth) := by
  induction r generalizing depth with
  | zero => exact ⟨fun _ => ⟨fun _ few => absurd few (Nat.not_lt_zero _)⟩⟩
  | succ r ih =>
    refine ⟨fun goal => ?_⟩
    cases goal with
    | operation context limit => exact below_reachWithin_operation ih (by omega)
    | rest f context limit =>
      cases depth with
      | zero => cases enough
      | succ d =>
        have : Serves r (reachWithin d) := ih (by omega)
        have : ∀ context limit, Below (r + 1) 1 (reachWithin d (.operation context limit)) :=
          fun _ _ => below_reachWithin_operation ih (by omega)
        exact below_rest f
    | signed context => exact below_reachWithin_signed ih (by omega)
    | operand context => exact below_reachWithin_operand ih (by omega)

end Stages

/-- The compiler of expressions comes to an end wherever it starts. -/
instance serves_compiler : Serves r compiler := by
  refine ⟨fun goal => ⟨fun {s} closed _ => ?_⟩⟩
  have run : compiler goal s = reachWithin (depthBound s.cursor.remaining) goal s := by
    rw [compiler, remaining_bind]
  have enough : 4 * (s.cursor.remaining + 1) ≤ depthBound s.cursor.remaining := by
    rw [depthBound]
    omega
  exact .congr run (((serves_reachWithin enough).goal goal).passes closed (Nat.lt_succ_self _))

end Expression

namespace Compile

variable {r : Nat}

instance below_expression (context : Context) : Below r 1 (expression context) := by
  unfold expression
  infer_instance

instance below_condition : Below r 1 condition := by
  unfold condition
  infer_instance

end Compile

end AwkToPython
