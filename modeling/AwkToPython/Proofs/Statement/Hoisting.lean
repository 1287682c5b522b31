import AwkToPython.Proofs.Token.Reading

/-!
# Where `split` is an assignment

A call of `split` is an assignment, so it cannot stand inside an expression. Beside
the compiler there is built another one, which writes every such call as a line of
its own and puts the number of elements in its place. The two are compared construct
by construct: they agree wherever no statement is compiled, and a statement differs
only if it begins with a call.
-/
namespace AwkToPython

variable {p : Parts} {s s' : Session}

open Compile AwkToPython.Symbol

/-- A call of `split` begins here. -/
def Symbol.isSplit (s : Symbol) : Bool :=
  match s.kind with
  | .function f => f.strategy = .split
  | _ => false

@[reducible] def Goal.context : Goal → Context
  | .operation context _ | .rest _ context _ | .signed context | .operand context => context

namespace Expression

/-- The operand at the current token, with the work of `split` always written first. A call
that would be taken for a whole statement is refused. -/
def hoistingOperand (parts : Parts) (context : Context) : Compile Fragment := do
  if (← symbol).isSplit then
    let f ← operand parts { context with statement := false }
    if context.statement && (← atStatementEnd) then unexpected .operand else return f
  else operand parts context

def hoistingReach (parts : Parts) : Goal → Compile Fragment
  | .operand context => hoistingOperand parts context
  | goal => reach parts goal

def hoistingWithin : Nat → Parts
  | 0, _ => throw .exhausted
  | depth + 1, goal => hoistingReach (hoistingWithin depth) goal

/-- The compiler of parts that hoists every call of `split`. -/
def hoistingCompiler : Parts := fun goal => do
  hoistingWithin (depthBound (← remaining)) goal

/-- Whatever the one step gives is given by the other, and if `b` holds also the other way. -/
class Meets {α : Type} (b : Prop) (x y : Compile α) : Prop where
  back {s s' : Session} {a : α} : y s = .ok a s' → x s = .ok a s'
  forth {s s' : Session} {a : α} : b → x s = .ok a s' → y s = .ok a s'

/-- If `b` holds, no statement is compiled in this context. -/
class Guards (b : Prop) (context : Context) : Prop where
  holds : b → context.statement = false

class Alike (p q : Parts) : Prop where
  goal (goal : Goal) : Meets (goal.context.statement = false) (p goal) (q goal)

section Rules

variable {α β : Type} {b : Prop} {x y : Compile α} {f g : α → Compile β} {p q : Parts}

instance Guards.self {context : Context} : Guards (context.statement = false) context := ⟨id⟩

instance Guards.off {printing keepMissing argument : Bool} :
    Guards b ⟨printing, keepMissing, argument, false⟩ := ⟨fun _ => rfl⟩

instance Alike.parts [h : Alike p q] {goal : Goal} [guards : Guards b goal.context] :
    Meets b (p goal) (q goal) :=
  ⟨(h.goal goal).back, fun hb => (h.goal goal).forth (guards.holds hb)⟩

lemma Meets.andThen [hx : Meets b x y] (hf : ∀ a, Meets b (f a) (g a)) :
    Meets b (x >>= f) (y >>= g) := by
  constructor
  · intro s s' a run
    obtain ⟨c, s1, first, second⟩ := bind_ok.mp run
    exact bind_ok.mpr ⟨c, s1, hx.back first, (hf c).back second⟩
  · intro s s' a hb run
    obtain ⟨c, s1, first, second⟩ := bind_ok.mp run
    exact bind_ok.mpr ⟨c, s1, hx.forth hb first, (hf c).forth hb second⟩

instance Meets.bind [Meets b x y] [hf : ∀ a, Meets b (f a) (g a)] : Meets b (x >>= f) (y >>= g) :=
  Meets.andThen hf

instance Meets.same {x' y' : Compile β} [Meets b x y] [Meets b x' y'] :
    Meets b (x >>= fun _ => x') (y >>= fun _ => y') := .bind

instance Meets.map {f : α → β} [Meets b x y] : Meets b (f <$> x) (f <$> y) := by
  rw [← bind_pure_comp, ← bind_pure_comp]
  exact Meets.andThen fun _ => ⟨id, fun _ => id⟩

instance Meets.ite {c : Prop} [Decidable c] {x' y' : Compile α} [Meets b x y] [Meets b x' y'] :
    Meets b (if c then x else x') (if c then y else y') := by
  split <;> infer_instance

instance Meets.refl : Meets b x x := ⟨id, fun _ => id⟩

end Rules

section Constructs

variable {b : Prop} {p q : Parts} [Alike p q] {context : Context} {limit : Nat}

instance meets_whole [Guards b context] : Meets b (whole p context) (whole q context) := by
  unfold whole
  infer_instance

variable [Guards b context]

section Items

variable {α : Type} {x y : Compile α} [Meets b x y] {after : Compile Unit}

instance meets_moreItems (fuel : Nat) (found : List α) :
    Meets b (moreItems after x fuel found) (moreItems after y fuel found) := by
  induction fuel generalizing found with
  | zero => exact Meets.refl
  | succ fuel ih =>
    unfold moreItems
    infer_instance

end Items

instance meets_arguments : Meets b (arguments p context) (arguments q context) := by
  unfold arguments items
  infer_instance

instance meets_subscript (after : Compile Unit) :
    Meets b (subscript p after) (subscript q after) := by
  unfold subscript items
  infer_instance

instance meets_regexOperand :
    Meets b (regexOperand p context limit) (regexOperand q context limit) := by
  unfold regexOperand
  infer_instance

instance meets_split : Meets b (split p context) (split q context) := by
  have pieces : ∀ subject, Meets b (splitBy p subject) (splitBy q subject) := fun subject => by
    refine .andThen fun token => .andThen fun s => .andThen fun next => .andThen fun _ => ?_
    infer_instance
  refine .andThen fun _ => .andThen fun _ => .andThen fun subject => .andThen fun _ =>
    .andThen fun token => .andThen fun s => ?_
  split <;> infer_instance

instance meets_substitute (everywhere : Bool) :
    Meets b (substitute p everywhere) (substitute q everywhere) := by
  refine .andThen fun _ => .andThen fun _ => .andThen fun regex => .andThen fun _ =>
    .andThen fun new => .andThen fun text => ?_
  infer_instance

instance meets_call (token : Token) (function : Function) :
    Meets b (call p token function context) (call q token function context) := by
  unfold call length matchCall userCall plainCall
  cases function.strategy <;> infer_instance

instance meets_computedField : Meets b (computedField p context) (computedField q context) := by
  unfold computedField
  refine .andThen fun _ => .andThen fun k => ?_
  cases k <;> infer_instance

instance meets_getline (command : Option String) :
    Meets b (getline p command) (getline q command) := by
  have target : Meets b (getlineTarget p) (getlineTarget q) := by
    unfold getlineTarget
    refine .andThen fun k => ?_
    cases k <;> infer_instance
  have source : Meets b (getlineSource p command) (getlineSource q command) := by
    unfold getlineSource
    cases command <;> infer_instance
  unfold getline
  infer_instance

instance meets_operand : Meets b (operand p context) (operand q context) := by
  unfold operand group variableOperand items userCall
  refine .andThen fun token => .andThen fun s => ?_
  split <;> infer_instance

instance meets_assignment (left : Fragment) (op : String) :
    Meets b (assignment p left op context) (assignment q left op context) := by
  unfold assignment
  cases left.target <;> infer_instance

instance meets_conditional (test : Fragment) :
    Meets b (conditional p test context) (conditional q test context) := by
  refine .andThen fun _ => .andThen fun _ => .andThen fun thenMark => .andThen fun yes =>
    .andThen fun _ => .andThen fun colon => ?_
  split <;> infer_instance

instance meets_operation (left : Fragment) (op : Symbol) (kind : BinaryOp) :
    Meets b (operation p left op kind context) (operation q left op kind context) := by
  unfold operation arithmetic logical matching pipe
  cases kind <;> infer_instance

instance meets_extend (left : Fragment) :
    Meets b (extend p left context limit) (extend q left context limit) := by
  unfold extend subtraction concatenation
  refine .andThen fun token => .andThen fun s => .andThen fun session => ?_
  split
  · split <;> infer_instance
  · infer_instance

instance meets_rest (left : Fragment) :
    Meets b (rest p left context limit) (rest q left context limit) := by
  unfold rest
  refine .andThen fun extended => ?_
  cases extended <;> infer_instance

instance meets_signed : Meets b (signed p context) (signed q context) := by
  unfold signed sign negation
  refine .andThen fun s => ?_
  split <;> infer_instance

instance meets_reach (goal : Goal) [Guards b goal.context] :
    Meets b (reach p goal) (reach q goal) := by
  cases goal <;> unfold reach <;> infer_instance

end Constructs

/-! ### A call of `split` -/

/-- The line that a call of `split` comes to. -/
abbrev splitLine (array pieces : String) : String := s!"{array} = self._to_array({pieces})"

/-- The call was written as a line of its own, and the number of elements takes its place. -/
def Hoisted (f : Fragment) (s s' : Session) (line : String) : Prop :=
  ∃ array pieces, line = splitLine array pieces ∧ emit line s = .ok () s' ∧
    f = { Fragment.atom s!"len({array})" with hoisted := true }

/-- The call `x` of a statement beside the call `y` elsewhere: it leaves the line to the
statement if that ends here. -/
class Splits (x y : Compile Fragment) : Prop where
  run {s s' : Session} {f : Fragment} : y s = .ok f s' → ∃ s1 line, Hoisted f s1 s' line ∧
    s'.symbol = s1.symbol ∧ x s = if s'.symbol.isTerminator || s'.symbol.isEnd
      then .ok (.atom line) s1 else .ok f s'

section Splits

variable {α : Type} {f g : α → Compile Fragment} {x y x' y' : Compile Fragment} {z : Compile α}

lemma Splits.andThen (h : ∀ a, Splits (f a) (g a)) : Splits (z >>= f) (z >>= g) where
  run := by
    intro s s' r run
    obtain ⟨a, s1, first, second⟩ := bind_ok.mp run
    rw [bind_of_ok first]
    exact (h a).run second

instance Splits.bind [h : ∀ a, Splits (f a) (g a)] : Splits (z >>= f) (z >>= g) := .andThen h

instance Splits.same [Splits x y] : Splits (z >>= fun _ => x) (z >>= fun _ => y) := .bind

instance Splits.ite {c : Prop} [Decidable c] [Splits x y] [Splits x' y'] :
    Splits (if c then x else x') (if c then y else y') := by
  split <;> infer_instance

instance Splits.line (array pieces : String) :
    Splits
      (do
        if true && (← atStatementEnd) then return .atom (splitLine array pieces)
        emit (splitLine array pieces)
        return { Fragment.atom s!"len({array})" with hoisted := true })
      (do
        if false && (← atStatementEnd) then return .atom (splitLine array pieces)
        emit (splitLine array pieces)
        return { Fragment.atom s!"len({array})" with hoisted := true }) where
  run := by
    intro s s' r run
    rw [atStatementEnd_bind] at run ⊢
    obtain ⟨_, s1, written, done⟩ := bind_ok.mp run
    cases done
    have same : s'.symbol = s.symbol := by
      cases written
      rfl
    refine ⟨s, _, ⟨array, pieces, rfl, written, rfl⟩, same, ?_⟩
    rw [Bool.true_and, same]
    split
    · rfl
    · exact bind_of_ok written

lemma splits_split (on : context.statement) :
    Splits (split p context) (split p { context with statement := false }) := by
  unfold split
  rw [on]
  refine .andThen fun _ => .andThen fun _ => .andThen fun subject => .andThen fun _ => ?_
  refine .andThen fun token => ?_
  infer_instance

lemma operand_splits (context : Context) {f : Fragment}
    (on : context.statement) (is : s.symbol.isSplit)
    (run : operand p { context with statement := false } s = .ok f s') :
    ∃ s1 line, Hoisted f s1 s' line ∧ s'.symbol = s1.symbol ∧ operand p context s =
      if s'.symbol.isTerminator || s'.symbol.isEnd then .ok (.atom line) s1 else .ok f s' := by
  unfold operand at run ⊢
  rw [current_bind, symbol_bind] at run ⊢
  unfold isSplit at is
  split at is
  case h_2 => cases is
  case h_1 function kind =>
    have strategy := of_decide_eq_true is
    simp only [kind, call, strategy] at run ⊢
    have := splits_split (p := p) on
    exact Splits.run run

end Splits

/-! ### The two compilers -/

lemma hoistingOperand_off (off : context.statement = false) :
    hoistingOperand q context = operand q context := by
  have same : { context with statement := false } = context := by
    cases context
    cases off
    rfl
  funext s
  rw [hoistingOperand, symbol_bind, same, off]
  split
  · cases made : operand q context s with
    | ok f s1 => rw [bind_of_ok made]; rfl
    | error e s1 => rw [bind_of_error made]
  · rfl

lemma meets_hoistingOperand {p q : Parts} [Alike p q] (context : Context) :
    Meets (context.statement = false) (operand p context) (hoistingOperand q context) := by
  have all : Meets (context.statement = false) (operand p context) (operand q context) :=
    inferInstance
  by_cases off : context.statement = false
  · rw [hoistingOperand_off off]
    exact all
  refine ⟨fun {s s' f} run => ?_, fun h => absurd h off⟩
  have on : context.statement := by simpa using off
  rw [hoistingOperand, symbol_bind] at run
  split at run
  case isFalse => exact all.back run
  case isTrue is =>
    obtain ⟨g, s1, made, run⟩ := bind_ok.mp run
    rw [atStatementEnd_bind, on, Bool.true_and] at run
    split at run
    case isTrue => exact absurd run unexpected_ne_ok
    case isFalse going =>
      cases run
      have other : Meets True (operand p { context with statement := false })
        (operand q { context with statement := false }) := inferInstance
      obtain ⟨_, _, -, -, same⟩ := operand_splits context on is (other.back made)
      rw [same, if_neg going]

lemma alike_within (depth : Nat) : Alike (reachWithin depth) (hoistingWithin depth) := by
  induction depth with
  | zero => exact ⟨fun _ => Meets.refl⟩
  | succ depth ih =>
    refine ⟨fun goal => ?_⟩
    cases goal with
    | operand context => exact meets_hoistingOperand context
    | operation context limit => exact meets_reach (.operation context limit)
    | rest left context limit => exact meets_reach (.rest left context limit)
    | signed context => exact meets_reach (.signed context)

instance alike_compiler : Alike compiler hoistingCompiler :=
  ⟨fun goal => Meets.andThen fun left => (alike_within (depthBound left)).goal goal⟩

/-- No operation goes on where a statement ends. -/
lemma extend_ends (ends : (s.symbol.isTerminator || s.symbol.isEnd)) :
    extend p left context limit s = .ok none s := by
  rw [extend, current_bind, symbol_bind, get_bind, operatorAt]
  cases kind : s.symbol.kind <;>
    simp_all [isTerminator, isEnd, startsOperand]

/-- The call of `split` with which an expression begins. -/
def firstCall (s : Session) : EStateM.Result Error Session Fragment :=
  operand (reachWithin (depthBound s.cursor.remaining - 3)) {} s

/-- Asked for an operand with its signs, or for an operation, the compiler begins with the call. -/
lemma signed_splits {context : Context} {line : String}
    (is : s.symbol.isSplit) (run : operand (reachWithin n) context s = .ok (.atom line) s') :
    reachWithin (n + 2) (.signed context) s = .ok (.atom line) s' := by
  unfold isSplit at is
  split at is
  case h_2 => cases is
  case h_1 function kind =>
    change signed (reachWithin (n + 1)) context s = _
    simp only [signed, symbol_bind, kind]
    exact bind_of_ok run

lemma whole_alone (is : s.symbol.isSplit)
    (run : firstCall s = .ok f s') (ends : (s'.symbol.isTerminator || s'.symbol.isEnd)) :
    ∃ s1 line, Hoisted f s1 s' line ∧
      whole compiler { statement := true } s = .ok (.atom line) s1 := by
  have depth : depthBound s.cursor.remaining = depthBound s.cursor.remaining - 3 + 3 := by
    unfold depthBound
    omega
  obtain ⟨s1, line, hoisted, same, call⟩ := operand_splits { statement := true } rfl is run
  rw [if_pos ends] at call
  rw [same] at ends
  have first : compiler (.operation { statement := true } anyLevel) s = .ok (.atom line) s1 := by
    rw [compiler, remaining_bind, depth]
    refine (bind_of_ok (signed_splits is call)).trans ?_
    exact bind_of_ok (extend_ends ends)
  exact ⟨s1, line, hoisted, bind_of_ok first⟩

end Expression

namespace Statement

open Expression

/-- The expression statement, by a compiler of parts. -/
def statementBy (parts : Parts) (statement : Bool) : Compile Unit := do
  let f ← whole parts { statement }
  if !f.hoisted then emit f.text
  endSimple

lemma expressionStatement_eq (s : Session) :
    expressionStatement s = statementBy compiler s.symbol.isSplit s := rfl

lemma meets_statementBy (statement : Bool) : Meets (statement = false)
    (statementBy compiler statement) (statementBy hoistingCompiler statement) := by
  have : Guards (statement = false) { statement } := ⟨id⟩
  unfold statementBy
  infer_instance

lemma expressionStatement_alone (is : s.symbol.isSplit)
    (run : firstCall s = .ok f s') (ends : (s'.symbol.isTerminator || s'.symbol.isEnd)) :
    expressionStatement s = endSimple s' ∧ ∃ s1 line, Hoisted f s1 s' line := by
  obtain ⟨s1, line, hoisted, alone⟩ := whole_alone is run ends
  obtain ⟨array, pieces, -, written, -⟩ := id hoisted
  refine ⟨?_, s1, line, hoisted⟩
  rw [expressionStatement_eq, is]
  exact (bind_of_ok alone).trans (bind_of_ok written)

/-- In a compiler that hoists, every call of `split` is a line of its own with the number of
elements in its place. The compiler hoists wherever an expression is not a statement, and in
every statement that does not begin with such a call. A statement that is such a call and
nothing else is its line. One that begins with a call and goes on is hoisted as well, unless
a later call ends where the statement may end. -/
theorem split_assigns_alone (s s' : Session) :
    (∀ parts context f, s.symbol.isSplit = true → hoistingOperand parts context s = .ok f s' →
      ∃ s1 line, Hoisted f s1 s' line) ∧
    (∀ goal f, goal.context.statement = false →
      (compiler goal s = .ok f s' ↔ hoistingCompiler goal s = .ok f s')) ∧
    (s.symbol.isSplit = false → (expressionStatement s = .ok () s' ↔
      statementBy hoistingCompiler false s = .ok () s')) ∧
    (s.symbol.isSplit = true →
      (∀ f s1, firstCall s = .ok f s1 → (s1.symbol.isTerminator || s1.symbol.isEnd) = true →
        expressionStatement s = endSimple s1 ∧ ∃ s0 line, Hoisted f s0 s1 line) ∧
      (statementBy hoistingCompiler true s = .ok () s' → expressionStatement s = .ok () s')) := by
  refine ⟨fun parts context f is run => ?_, fun goal f off => ?_, fun no => ?_, fun is => ⟨?_, ?_⟩⟩
  · rw [hoistingOperand, symbol_bind, if_pos is] at run
    obtain ⟨g, s1, made, run⟩ := bind_ok.mp run
    rw [atStatementEnd_bind] at run
    split at run
    case isTrue => exact absurd run unexpected_ne_ok
    case isFalse =>
      cases run
      obtain ⟨s1, line, hoisted, -⟩ := operand_splits { context with statement := true } rfl
        is made
      exact ⟨s1, line, hoisted⟩
  · have all := alike_compiler.goal goal
    exact ⟨all.forth off, all.back⟩
  · rw [expressionStatement_eq, no]
    exact ⟨(meets_statementBy false).forth rfl, (meets_statementBy false).back⟩
  · intro f s1 run ends
    exact expressionStatement_alone is run ends
  · rw [expressionStatement_eq, is]
    exact (meets_statementBy true).back

/-- The statement `split(NR, ENVIRON)` is its line, and `split(NR, ENVIRON) + NR` has one
before it. -/
theorem split_assigns_alone_environ :
    let s := Session.ofWords ["split", "(", "NR", ",", "ENVIRON", ")", ";"]
    let t := Session.ofWords ["split", "(", "NR", ",", "ENVIRON", ")", "+", "NR", ";"]
    let s' := after (firstCall s)
    let t' := after (statementBy hoistingCompiler true t)
    expressionStatement s = endSimple s' ∧ expressionStatement t = .ok () t' := by
  intro s t s' t'
  obtain ⟨f, run⟩ : ∃ f, firstCall s = .ok f s' := ok_of_succeeds (by decide +kernel)
  have hoisted : statementBy hoistingCompiler true t = .ok () t' := ok_after (by decide +kernel)
  obtain ⟨-, -, -, first⟩ := split_assigns_alone s s'
  obtain ⟨-, -, -, second⟩ := split_assigns_alone t t'
  exact ⟨((first (by decide +kernel)).1 f s' run (by decide +kernel)).1,
    (second (by decide +kernel)).2 hoisted⟩

/-- In `split(NR, ENVIRON) + split(NF, ENVIRON)` the second call is taken for the whole
statement, and its assignment stands behind an operator. -/
theorem later_split_is_inline :
    let s := Session.ofWords ["split", "(", "NR", ",", "ENVIRON", ")", "+", "split", "(", "NF", ",",
      "ENVIRON", ")", ";"]
    (after (expressionStatement s)).listing.lines.toList =
      ["self.ENVIRON = self._to_array(str(self.NR).split(None if self.FS == \" \" else self.FS))",
        "len(self.ENVIRON)+self.ENVIRON = " ++
          "self._to_array(str(self.NF).split(None if self.FS == \" \" else self.FS))"] ∧
    succeeds (statementBy hoistingCompiler true s) = false := by
  decide +kernel

end Statement

end AwkToPython
