import AwkToPython.Proofs.Expression.Grouping

/-!
# Statements before an expression keep its order of evaluation

AWK evaluates an expression from left to right and leaves out what does not
matter; a substitution is a statement of its own in Python and runs before the
value is asked for. Here both are run, over values of which only truth is known.
The statements that run are the same in the same order, and the value is true or
false alike. Only one thing differs: a conjunction or disjunction is 0 or 1 in AWK
and one of its operands in Python, so that its value must not be calculated with.
-/
namespace AwkToPython

open Expression Compile Python Awk Block
open Python (Block Written)

variable {high' k low' : Nat} {name : String} {cs : List Substitution}

/-- Values of both languages. What signs and operators do to them is taken as given and
the same in both, although `%` and `==` differ in AWK and Python. -/
structure Values (V : Type) where
  truth : V → Bool
  ofBool : Bool → V
  truth_ofBool (b : Bool) : truth (ofBool b) = b
  var : String → String → V
  number : String → V
  string : String → V
  field : String → V
  sign : String → V → V
  operate : String → V → V → V
  /-- As a string, which changes no string. -/
  str : V → V
  str_string (text : String) : str (string text) = string text
  str_field (index : String) : str (field index) = field index
  str_join (v w : V) : str (operate "+" (str v) (str w)) = operate "+" (str v) (str w)

variable {V : Type}

/-! ### Python -/

namespace Python

/-- What a name stands for. -/
abbrev Store (V : Type) : Type := String → V

def Store.set (store : Store V) (name : String) (value : V) : Store V :=
  fun other => if other = name then value else store other

/-- The value of an expression; `and` and `or` give one of their operands. -/
def Expr.value (m : Values V) (store : Store V) : Expr → Option V
  | .name text => some (store text)
  | .number text => some (m.number text)
  | .string text => some (m.string text)
  | .attribute (.name owner) text => some (m.var owner text)
  | .subscript (.attribute (.name "self") "_FLDS") (.number index) => some (m.field index)
  | .call (.name "str") e => (e.value m store).map m.str
  | .unary op e => (e.value m store).map fun v =>
    if op = "not" then m.ofBool !m.truth v else m.sign op v
  | .binary op l r => do
    let v ← l.value m store
    if op = "and" then if m.truth v then r.value m store else some v
    else if op = "or" then if m.truth v then some v else r.value m store
    else (r.value m store).map (m.operate op v)
  | .choose yes test no => do
    let v ← test.value m store
    if m.truth v then yes.value m store else no.value m store
  | _ => none

def Test.outcome (m : Values V) (store : Store V) : Test Expr → Option Bool
  | .always => some true
  | .holds e => (e.value m store).map m.truth
  | .fails e => (e.value m store).map fun v => !m.truth v
  | .isSet name => some (m.truth (store name))
  | .isUnset name => some !m.truth (store name)
  | .isSetOr name e => if m.truth (store name) then some true else (e.value m store).map m.truth

/-- Run code without loops. The lines of substitutions are opaque: they are shown,
and each leaves the number of its replacements. -/
def Block.exec (m : Values V) (count : String → V) :
    Block Expr → Store V → Option (List String × Store V)
  | .done, store => some ([], store)
  | .line (.plain text) rest, store => do
    let (shown, store') ← rest.exec m count store
    some (text :: shown, store')
  | .line (.unpack first second call) rest, store => do
    let (shown, store') ← rest.exec m count (store.set second (count second))
    some (s!"{first}, {second} = {call}" :: shown, store')
  | .line (.store name e) rest, store => do rest.exec m count (store.set name (← e.value m store))
  | .line .pass rest, store => rest.exec m count store
  | .when test yes rest, store => do
    let (shown, store') ←
      if ← test.outcome m store then yes.exec m count store else some ([], store)
    let (shown', store'') ← rest.exec m count store'
    some (shown ++ shown', store'')
  | .choose test yes no rest, store => do
    let (shown, store') ←
      if ← test.outcome m store then yes.exec m count store else no.exec m count store
    let (shown', store'') ← rest.exec m count store'
    some (shown ++ shown', store'')
  | _, _ => none

end Python

/-! ### AWK -/

namespace Awk

/-- The lines of the statements of a substitution. -/
def Substitution.lines (c : Substitution) : List String :=
  s!"{c.first}, {c.count} = {c.call}" :: c.behind.toList

namespace Expr

variable {ι : Type}

/-- The substitutions that AWK carries out, in order, and the value. -/
def run (m : Values V) (count : String → V) : Expr Substitution → List String × V
  | var owner name => ([], m.var owner name)
  | number digits => ([], m.number (String.ofList (Literal.unsignedNumber digits)))
  | string value => ([], m.string (Literal.python value))
  | field index => ([], m.field (toString index))
  | sign minus e => ((e.run m count).1, m.sign (signText minus) (e.run m count).2)
  | not e => ((e.run m count).1, m.ofBool !m.truth (e.run m count).2)
  | binary .and l r =>
    if m.truth (l.run m count).2 then
      ((l.run m count).1 ++ (r.run m count).1, m.ofBool (m.truth (r.run m count).2))
    else ((l.run m count).1, m.ofBool false)
  | binary .or l r =>
    if m.truth (l.run m count).2 then ((l.run m count).1, m.ofBool true)
    else ((l.run m count).1 ++ (r.run m count).1, m.ofBool (m.truth (r.run m count).2))
  | binary op l r =>
    ((l.run m count).1 ++ (r.run m count).1,
      m.operate op.python (l.run m count).2 (r.run m count).2)
  | concat l r =>
    ((l.run m count).1 ++ (r.run m count).1,
      m.operate "+" (m.str (l.run m count).2) (m.str (r.run m count).2))
  | choose test yes no =>
    if m.truth (test.run m count).2 then
      ((test.run m count).1 ++ (yes.run m count).1, (yes.run m count).2)
    else ((test.run m count).1 ++ (no.run m count).1, (no.run m count).2)
  | call label pattern replacement target =>
    ((pattern.run m count).1 ++ (replacement.run m count).1 ++
      (target.run m count).1 ++ label.lines, count label.count)

/-- All substitutions, an argument before its call. -/
def substitutions : Expr Substitution → List Substitution
  | sign _ e => e.substitutions
  | not e => e.substitutions
  | binary _ l r => l.substitutions ++ r.substitutions
  | concat l r => l.substitutions ++ r.substitutions
  | choose test yes no => test.substitutions ++ yes.substitutions ++ no.substitutions
  | call label pattern replacement target =>
    pattern.substitutions ++ replacement.substitutions ++ target.substitutions ++ [label]
  | _ => []

/-- The value is not that of a conjunction or a disjunction. -/
def isExact : Expr ι → Bool
  | binary op _ _ => !op.isLogical
  | choose _ yes no => yes.isExact && no.isExact
  | _ => true

/-- Conjunctions and disjunctions are asked for their truth only: none is an operand
of an operator that calculates, compares or joins. -/
def logicalAsTruth : Expr ι → Bool
  | sign _ e => e.logicalAsTruth && e.isExact
  | not e => e.logicalAsTruth
  | binary op l r =>
    l.logicalAsTruth && r.logicalAsTruth && (op.isLogical || l.isExact && r.isExact)
  | concat l r => l.logicalAsTruth && r.logicalAsTruth && l.isExact && r.isExact
  | choose test yes no => test.logicalAsTruth && yes.logicalAsTruth && no.logicalAsTruth
  | call _ pattern replacement target =>
    pattern.logicalAsTruth && replacement.logicalAsTruth && target.logicalAsTruth
  | _ => true

@[simp] lemma isExact_erase (e : Expr ι) : e.erase.isExact = e.isExact := by
  induction e with
  | choose test yes no _ hy hn => simp [erase, isExact, hy, hn]
  | _ => rfl

@[simp] lemma logicalAsTruth_erase (e : Expr ι) : e.erase.logicalAsTruth = e.logicalAsTruth := by
  induction e with
  | _ => simp_all [erase, logicalAsTruth]

end Expr

/-! ### Temporaries -/

namespace Temporary

/-- The names of the temporaries with a number. -/
def Named (k : Nat) (name : String) : Prop := name = cond k ∨ name = choice k ∨ name = count k

lemma Named.inj (h : Named k name) (h' : Named k' name) : k = k' := by
  rcases h with rfl | rfl | rfl <;> rcases h' with h' | h' | h' <;>
    first
    | exact numbered_inj _ h'
    | exact absurd h' (by simp [cond, choice, count, toString, ← String.toList_inj])

/-- Two stores give the temporaries in a range the same values. -/
def Agree (low high : Nat) (store store' : Store V) : Prop :=
  ∀ k name, low < k → k ≤ high → Named k name → store' name = store name

/-- Only temporaries in a range have changed. -/
def Within (low high : Nat) (store store' : Store V) : Prop :=
  ∀ name, (∀ k, low < k → k ≤ high → ¬Named k name) → store' name = store name

variable {low mid high : Nat} {store store' store'' : Store V}

lemma Within.refl (store : Store V) : Within low high store store := fun _ _ => rfl

lemma Within.mono (h : Within low high store store') (below : low' ≤ low)
    (above : high ≤ high') : Within low' high' store store' :=
  fun name free => h name fun k lt le => free k (by omega) (by omega)

lemma Within.comp (h : Within low high store store') (h' : Within low high store' store'') :
    Within low high store store'' := fun name free => (h' name free).trans (h name free)

lemma Within.trans (h : Within low mid store store') (h' : Within mid high store' store'')
    (below : low ≤ mid) (above : mid ≤ high) : Within low high store store'' :=
  (h.mono (Nat.le_refl low) above).comp (h'.mono below (Nat.le_refl high))

lemma Within.set (h : Within low high store store')
    (named : Named k name) (lt : low < k) (le : k ≤ high) :
    Within low high store (store'.set name value) := by
  intro other free
  have ne : other ≠ name := fun same => free k lt le (same ▸ named)
  rw [Store.set, if_neg ne]
  exact h other free

/-- What changes later temporaries keeps the earlier ones. -/
lemma Agree.before (later : Agree low high store' store'') (h : Within mid high store store')
    (above : mid ≤ high) : Agree low mid store store'' := by
  intro k name lt le named
  have kept : store' name = store name :=
    h name fun k' lt' _ named' => absurd (named.inj named') (by omega)
  exact (later k name lt (by omega) named).trans kept

lemma Agree.refl (store : Store V) : Agree low high store store := fun _ _ _ _ _ => rfl

lemma Agree.mono (later : Agree low high store store') (below : low ≤ low')
    (above : high' ≤ high) : Agree low' high' store store' :=
  fun k name lt le named => later k name (by omega) (by omega) named

/-- The counts of substitutions are kept in temporaries whose numbers go up. -/
def Numbered (low high : Nat) (cs : List Substitution) : Prop :=
  ∃ ks : List Nat, cs.map (·.count) = ks.map count ∧ ks.Pairwise (· < ·) ∧
    ∀ k ∈ ks, low < k ∧ k ≤ high

lemma Numbered.nil : Numbered low high [] := ⟨[], rfl, .nil, nofun⟩

lemma Numbered.single (counted : c.count = count (high + 1)) : Numbered high (high + 1) [c] :=
  ⟨[high + 1], by simp [counted], List.pairwise_singleton _ _, by simp⟩

lemma Numbered.append (h : Numbered low mid cs)
    (h' : Numbered mid high cs') (below : low ≤ mid) (above : mid ≤ high) :
    Numbered low high (cs ++ cs') := by
  obtain ⟨ks, counts, ascending, range⟩ := h
  obtain ⟨ks', counts', ascending', range'⟩ := h'
  refine ⟨ks ++ ks', by simp [counts, counts'], ?_, fun k mem => ?_⟩
  · refine List.pairwise_append.mpr ⟨ascending, ascending', fun k mem k' mem' => ?_⟩
    exact Nat.lt_of_le_of_lt (range k mem).2 (range' k' mem').1
  · rcases List.mem_append.mp mem with mem | mem
    · exact ⟨(range k mem).1, Nat.le_trans (range k mem).2 above⟩
    · exact ⟨Nat.lt_of_le_of_lt below (range' k mem).1, (range' k mem).2⟩

lemma Numbered.succ (h : Numbered low high cs) : Numbered low (high + 1) cs := by
  obtain ⟨ks, counts, ascending, range⟩ := h
  exact ⟨ks, counts, ascending, fun k mem => ⟨(range k mem).1, Nat.le_succ_of_le (range k mem).2⟩⟩

end Temporary

open Temporary

lemma Translates.numbered (h : Translates n p e b v) : Numbered n p e.substitutions := by
  induction h with
  | var | number | string | field => exact .nil
  | sign _ _ ih | not _ ih => exact ih
  | binary h h' _ left right | concat h h' left right => exact left.append right h.le h'.le
  | guarded _ h h' _ left right => exact (left.append right h.le h'.le).succ
  | choose h h' h'' first second third =>
    exact (first.append second h.le h'.le).append third (Nat.le_trans h.le h'.le) h''.le
  | chosen h h' h'' _ first second third =>
    exact ((first.append second h.le h'.le).append third (Nat.le_trans h.le h'.le) h''.le).succ
  | call h h' h'' counted first second third =>
    have below := Nat.le_trans h.le h'.le
    exact ((first.append second h.le h'.le).append third below h''.le).append (.single counted)
      (Nat.le_trans below h''.le) (Nat.le_succ _)

/-! ### Both together -/

section Outcome

variable {m : Values V} {count : String → V}

lemma exec_append (a b : Block Python.Expr) (store : Store V) :
    (a ++ b).exec m count store = (a.exec m count store).bind fun (shown, store') =>
      (b.exec m count store').map fun (shown', store'') => (shown ++ shown', store'') := by
  induction a generalizing store with
  | done => simp [exec]
  | line statement rest ih =>
    cases statement <;> simp [exec, ih, Option.bind_assoc, Option.map_eq_bind, Function.comp_def]
  | «when» test yes rest _ ih | choose test yes no rest _ _ ih =>
    cases outcome : test.outcome m store with
    | none => simp [exec, outcome]
    | some answer =>
      cases answer <;>
        simp [exec, outcome, ih, Option.bind_assoc, Option.map_eq_bind, Function.comp_def]
  | _ => rfl

lemma exec_both {a b : Block Python.Expr} {store store' store'' : Store V}
    {shown shown' : List String} (first : a.exec m count store = some (shown, store'))
    (second : b.exec m count store' = some (shown', store'')) :
    (a ++ b).exec m count store = some (shown ++ shown', store'') := by
  simp [exec_append, first, second]

/-- A block was run for an expression: the substitutions that AWK carries out were
shown, and from now on the value is true if that in AWK is. -/
structure Done (m : Values V) (count : String → V) (low high : Nat) (e : Expr Substitution)
    (b : Block Python.Expr) (v : Python.Expr) (store store' : Store V) : Prop where
  exec : b.exec m count store = some ((e.run m count).1, store')
  within : Within low high store store'
  value : ∀ later, Agree low high store' later → ∃ w, v.value m later = some w ∧
    m.truth w = m.truth (e.run m count).2 ∧ (e.isExact = true → w = (e.run m count).2)

lemma Done.exact (h : Done m count low high e b v store store') (isExact : e.isExact)
    (agree : Agree low high store' later) : v.value m later = some (e.run m count).2 := by
  obtain ⟨w, found, -, same⟩ := h.value later agree
  rw [found, same isExact]

/-- A string is one in AWK as well. -/
lemma Expr.str_run (e : Expr Substitution) (h : e.isString) :
    m.str (e.run m count).2 = (e.run m count).2 := by
  induction e with
  | string text => exact m.str_string _
  | field index => exact m.str_field _
  | concat l r => exact m.str_join _ _
  | choose test yes no _ hy hn =>
    rw [isString, Bool.and_eq_true] at h
    rw [run]
    split
    · exact hy h.1
    · exact hn h.2
  | _ => cases h

lemma Done.asString (h : Done m count low high e b v store store') (isExact : e.isExact)
    (agree : Agree low high store' later) :
    (Expr.asString e.isString v).value m later = some (m.str (e.run m count).2) := by
  have found := h.exact isExact agree
  rw [Expr.asString]
  split
  case isTrue string => rw [found, e.str_run string]
  case isFalse => rw [Python.Expr.value, found, Option.map_some]

variable {n p : Nat} {e : Expr Substitution} {b : Block Python.Expr} {v : Python.Expr}

lemma done_leaf (run : e.run m count = ([], w))
    (found : ∀ later, v.value m later = some w) : Done m count n p e .done v store store :=
  ⟨by rw [run]; rfl, .refl _, fun later _ => ⟨w, found later, by rw [run], fun _ => by rw [run]⟩⟩

lemma Done.nothing
    (h : Done m count n p e .done v store store') : store' = store ∧ (e.run m count).1 = [] := by
  have exec := h.exec
  simp only [Block.exec, Option.some.injEq, Prod.mk.injEq] at exec
  exact ⟨exec.2.symm, exec.1.symm⟩

lemma Done.mono (h : Done m count n p e b v store store') (below : n' ≤ n) (above : p ≤ p') :
    Done m count n' p' e b v store store' :=
  ⟨h.exec, h.within.mono below above, fun later agree => h.value later (agree.mono below above)⟩

section Operands

variable {mid : Nat} {l r : Expr Substitution} {b' : Block Python.Expr} {v' : Python.Expr}
  {store store1 store2 : Store V} {op : Operator}

lemma Expr.run_operator (plain : op.isLogical = false) (l r : Expr Substitution) :
    (Expr.binary op l r).run m count = ((l.run m count).1 ++ (r.run m count).1,
      m.operate op.python (l.run m count).2 (r.run m count).2) := by
  cases op <;> first | rfl | cases plain

lemma Operator.logical_cases (logical : op.isLogical) : op = .and ∨ op = .or := by
  simpa [isLogical] using logical

lemma Operator.python_ne (plain : op.isLogical = false) : op.python ≠ "and" ∧ op.python ≠ "or" := by
  cases op <;> first | exact ⟨by decide, by decide⟩ | cases plain

/-- Both operands are evaluated, the left one first. -/
lemma Done.operator (left : Done m count n mid l b v store store1)
    (right : Done m count mid p r b' v' store1 store2) (below : n ≤ mid) (above : mid ≤ p)
    (plain : op.isLogical = false) (exactLeft : l.isExact) (exactRight : r.isExact) :
    Done m count n p (.binary op l r) (b ++ b') (.binary op.python v v') store store2 := by
  obtain ⟨ne, ne'⟩ := op.python_ne plain
  refine ⟨?_, left.within.trans right.within below above,
    fun later agree => ⟨_, ?_, rfl, fun _ => rfl⟩⟩
  · rw [Expr.run_operator plain]
    exact exec_both left.exec right.exec
  · have first := left.exact exactLeft (agree.before right.within above)
    have second := right.exact exactRight (agree.mono below (Nat.le_refl p))
    simp [Python.Expr.value, first, second, ne, ne', Expr.run_operator plain]

lemma Done.concat (left : Done m count n mid l b v store store1)
    (right : Done m count mid p r b' v' store1 store2) (below : n ≤ mid) (above : mid ≤ p)
    (exactLeft : l.isExact) (exactRight : r.isExact) : Done m count n p (.concat l r) (b ++ b')
      (.binary "+" (Expr.asString l.isString v) (Expr.asString r.isString v')) store store2 := by
  refine ⟨exec_both left.exec right.exec, left.within.trans right.within below above,
    fun later agree => ⟨_, ?_, rfl, fun _ => rfl⟩⟩
  have first := left.asString exactLeft (agree.before right.within above)
  have second := right.asString exactRight (agree.mono below (Nat.le_refl p))
  simp [Python.Expr.value, first, second, Expr.run]

/-- Where nothing runs for the right operand it does not matter whether AWK
evaluates it. -/
lemma Done.logical (left : Done m count n mid l b v store store1)
    (right : Done m count mid p r .done v' store1 store2) (below : n ≤ mid) (above : mid ≤ p)
    (logical : op.isLogical) :
    Done m count n p (.binary op l r) (b ++ .done) (.binary op.python v v') store store2 := by
  obtain ⟨rfl, nothing⟩ := right.nothing
  refine ⟨?_, left.within.trans right.within below above, fun later agree => ?_⟩
  · rw [append_done, left.exec]
    rcases op.logical_cases logical with rfl | rfl <;> rw [Expr.run] <;> split <;> simp [nothing]
  · obtain ⟨w, first, truth, -⟩ := left.value later (agree.before right.within above)
    obtain ⟨w', second, truth', -⟩ := right.value later (agree.mono below (Nat.le_refl p))
    cases holds : m.truth w <;> rcases op.logical_cases logical with rfl | rfl <;>
      simp [Python.Expr.value, Operator.python, first, second, Expr.run, ← truth, holds,
        m.truth_ofBool, truth', Expr.isExact, Operator.isLogical]

/-! ### Statements in branches -/

lemma set_same (store : Store V) (name : String) (w : V) : store.set name w name = w := if_pos rfl

lemma exec_store (name : String) (found : v.value m store = some w) :
    (line (.store name v) .done).exec m count store = some ([], store.set name w) := by
  simp [exec, found]

lemma exec_guard_run {conjunction : Bool} {k : Nat} {w w' : V} {shown : List String}
    (found : v.value m store = some w) (guard : m.truth w = conjunction)
    (inner : b'.exec m count (store.set (cond k) w) = some (shown, store1))
    (found' : v'.value m store1 = some w') : (guardBlock k conjunction v b' v').exec m count store =
      some (shown, store1.set (cond k) w') := by
  have whole := exec_both inner (exec_store (cond k) found')
  cases conjunction <;>
    simp_all [guardBlock, exec, Python.Test.outcome, set_same]

lemma exec_guard_skip (k : Nat) (found : v.value m store = some w)
    (guard : m.truth w = !conjunction) (inner : Block Python.Expr) (v' : Python.Expr) :
    (guardBlock k conjunction v inner v').exec m count store = some ([], store.set (cond k) w) := by
  cases conjunction <;>
    simp_all [guardBlock, exec, Python.Test.outcome, set_same]

lemma exec_branch (k : Nat) {w w' : V} {shown : List String} {b'' : Block Python.Expr}
    {v'' : Python.Expr} (found : v.value m store = some w)
    (inner : (if m.truth w then b' else b'').exec m count store = some (shown, store1))
    (found' : (if m.truth w then v' else v'').value m store1 = some w') :
    (branchBlock k v b' v' b'' v'').exec m count store =
      some (shown, store1.set (choice k) w') := by
  cases holds : m.truth w <;> simp only [holds, Bool.false_eq_true, if_true, if_false]
    at inner found'
  all_goals
    have whole := exec_both inner (exec_store (choice k) found')
    simp_all [branchBlock, exec, Python.Test.outcome]

/-- A temporary holds the value from now on. -/
lemma Done.ofStore (named : Named (p + 1) name)
    (below : n ≤ p) (exec : b.exec m count store = some ((e.run m count).1, store1.set name w))
    (within : Within n (p + 1) store store1) (truth : m.truth w = m.truth (e.run m count).2)
    (exact : e.isExact → w = (e.run m count).2) :
    Done m count n (p + 1) e b (.name name) store (store1.set name w) := by
  refine ⟨exec, within.set named (by omega) (Nat.le_refl _),
    fun later agree => ⟨w, ?_, truth, exact⟩⟩
  rw [Python.Expr.value, agree (p + 1) name (by omega) (Nat.le_refl _) named, set_same]

/-- The right operand runs only if the left one does not decide. -/
lemma Done.guarded (left : Done m count n mid l b v store store1)
    (right : ∀ store, ∃ store', Done m count mid p r b' v' store store') (below : n ≤ mid)
    (above : mid ≤ p) (logical : op.isLogical) : ∃ store', Done m count n (p + 1) (.binary op l r)
      (b ++ guardBlock (p + 1) (op = .and) v b' v') (.name (cond (p + 1))) store store' := by
  obtain ⟨w, found, truth, -⟩ := left.value store1 (Agree.refl store1)
  have named : Named (p + 1) (cond (p + 1)) := .inl rfl
  have inexact : ¬(Expr.binary op l r).isExact := by simp [Expr.isExact, logical]
  have before : Within n (p + 1) store store1 := left.within.mono (Nat.le_refl n) (by omega)
  by_cases guard : m.truth w = decide (op = .and)
  · obtain ⟨store2, inner⟩ := right (store1.set (cond (p + 1)) w)
    obtain ⟨w', found', truth', -⟩ := inner.value store2 (Agree.refl store2)
    have whole := exec_both left.exec (exec_guard_run found guard inner.exec found')
    have within : Within n (p + 1) store store2 :=
      (before.set named (by omega) (Nat.le_refl _)).comp (inner.within.mono below (by omega))
    have run : (Expr.binary op l r).run m count =
        ((l.run m count).1 ++ (r.run m count).1, m.ofBool (m.truth (r.run m count).2)) := by
      rcases op.logical_cases logical with rfl | rfl <;> simp [Expr.run, ← truth, guard]
    have sameTruth : m.truth w' = m.truth ((Expr.binary op l r).run m count).2 := by
      rw [run, truth', m.truth_ofBool]
    exact ⟨_, .ofStore named (by omega) (by rw [whole, run]) within sameTruth (absurd · inexact)⟩
  · have decided : m.truth w = !decide (op = .and) := by
      rwa [Bool.eq_not]
    have skipped := exec_both left.exec (exec_guard_skip (p + 1) found decided b' v')
    have run : (Expr.binary op l r).run m count = ((l.run m count).1, m.ofBool (m.truth w)) := by
      rcases op.logical_cases logical with rfl | rfl <;> simp [Expr.run, ← truth, decided]
    have sameTruth : m.truth w = m.truth ((Expr.binary op l r).run m count).2 := by
      rw [run, m.truth_ofBool]
    exact ⟨_, .ofStore named (by omega) (by rw [skipped, run, List.append_nil]) before sameTruth
      (absurd · inexact)⟩

variable {q : Nat} {test : Expr Substitution} {b'' : Block Python.Expr} {v'' : Python.Expr}
  {store3 : Store V}

/-- Where nothing runs for the branches the value is a conditional expression. -/
lemma Done.choose (first : Done m count n mid test b v store store1)
    (second : Done m count mid p l .done v' store1 store2)
    (third : Done m count p q r .done v'' store2 store3) (h1 : n ≤ mid) (h2 : mid ≤ p)
    (h3 : p ≤ q) :
    Done m count n q (.choose test l r) b (.choose v' v v'') store store3 := by
  obtain ⟨rfl, noYes⟩ := second.nothing
  obtain ⟨rfl, noNo⟩ := third.nothing
  refine ⟨?_, first.within.mono (Nat.le_refl n) (by omega), fun later agree => ?_⟩
  · rw [first.exec, Expr.run]
    split <;> simp [noYes, noNo]
  · obtain ⟨w, found, truth, -⟩ := first.value later (agree.mono (Nat.le_refl n) (by omega))
    have yes := second.value later (agree.mono h1 h3)
    have no := third.value later (agree.mono (by omega) (Nat.le_refl q))
    simp only [Python.Expr.value, found, Option.bind_eq_bind, Option.bind_some, Expr.run,
      Expr.isExact, truth, Bool.and_eq_true]
    split
    · obtain ⟨w', found', truth', same⟩ := yes
      exact ⟨w', found', truth', fun exact => same exact.1⟩
    · obtain ⟨w', found', truth', same⟩ := no
      exact ⟨w', found', truth', fun exact => same exact.2⟩

/-- Only the branch that is chosen runs. -/
lemma Done.chosen (first : Done m count n mid test b v store store1)
    (second : ∀ store, ∃ store', Done m count mid p l b' v' store store')
    (third : ∀ store, ∃ store', Done m count p q r b'' v'' store store')
    (h1 : n ≤ mid) (h2 : mid ≤ p) (h3 : p ≤ q) : ∃ store', Done m count n (q + 1) (.choose test l r)
      (b ++ branchBlock (q + 1) v b' v' b'' v'') (.name (choice (q + 1))) store store' := by
  obtain ⟨w, found, truth, -⟩ := first.value store1 (Agree.refl store1)
  obtain ⟨store2, branch⟩ : ∃ store2, Done m count mid q (if m.truth w then l else r)
      (if m.truth w then b' else b'') (if m.truth w then v' else v'') store1 store2 := by
    obtain ⟨store2, yes⟩ := second store1
    obtain ⟨store3, no⟩ := third store1
    split
    · exact ⟨store2, yes.mono (Nat.le_refl mid) h3⟩
    · exact ⟨store3, no.mono h2 (Nat.le_refl q)⟩
  obtain ⟨w', found', truth', same⟩ := branch.value store2 (Agree.refl store2)
  have whole := exec_both first.exec (exec_branch (q + 1) found branch.exec found')
  have run : (Expr.choose test l r).run m count =
      ((test.run m count).1 ++ ((if m.truth w then l else r).run m count).1,
        ((if m.truth w then l else r).run m count).2) := by
    rw [Expr.run, ← truth]
    split <;> rfl
  have exact : (Expr.choose test l r).isExact →
      (if m.truth w then l else r).isExact := by
    rw [Expr.isExact, Bool.and_eq_true]
    rintro ⟨yes, no⟩
    split
    · exact yes
    · exact no
  have within : Within n (q + 1) store store2 :=
    (first.within.mono (Nat.le_refl n) (by omega)).comp (branch.within.mono h1 (by omega))
  refine ⟨store2.set (choice (q + 1)) w', .ofStore (.inr (.inl rfl)) (by omega) ?_ within ?_ ?_⟩
  · rw [whole, run]
  · rw [truth', run]
  · intro isExact
    rw [same (exact isExact), run]

lemma exec_substitution (label : Substitution) (store : Store V) : label.block.exec m count store =
      some (label.lines, store.set label.count (count label.count)) := by
  obtain ⟨first, name, call, behind⟩ := label
  cases behind <;> rfl

/-- The statements of the arguments run from left to right, and then the
substitution. -/
lemma Done.call {label : Substitution} (first : Done m count n mid l b v store store1)
    (second : Done m count mid p r b' v' store1 store2)
    (third : Done m count p q test b'' v'' store2 store3) (h1 : n ≤ mid) (h2 : mid ≤ p) (h3 : p ≤ q)
    (counted : label.count = Temporary.count (q + 1)) :
    Done m count n (q + 1) (.call label l r test) (b ++ b' ++ b'' ++ label.block)
      (.name (Temporary.count (q + 1))) store
      (store3.set (Temporary.count (q + 1)) (count label.count)) := by
  have whole := exec_both (exec_both (exec_both first.exec second.exec) third.exec)
    (exec_substitution label store3)
  have within : Within n (q + 1) store store3 :=
    ((first.within.trans second.within h1 h2).trans third.within (by omega) h3).mono
      (Nat.le_refl n) (by omega)
  refine .ofStore (.inr (.inr rfl)) (by omega) ?_ within rfl fun _ => rfl
  rw [whole, Expr.run, counted]

end Operands

lemma Translates.done (h : Translates n p e b v) (fit : e.logicalAsTruth)
    (store : Store V) : ∃ store', Done m count n p e b v store store' := by
  induction h generalizing store with
  | var owner name | number digits | string value | field index =>
    exact ⟨store, done_leaf rfl fun _ => rfl⟩
  | sign minus _ ih =>
    rw [Expr.logicalAsTruth, Bool.and_eq_true] at fit
    obtain ⟨store', inner⟩ := ih fit.1 store
    refine ⟨store', inner.exec, inner.within, fun later agree => ?_⟩
    have op : Expr.signText minus ≠ "not" := by cases minus <;> decide
    refine ⟨_, ?_, rfl, fun _ => rfl⟩
    rw [Python.Expr.value, inner.exact fit.2 agree, Option.map_some, if_neg op, Expr.run]
  | not _ ih =>
    obtain ⟨store', inner⟩ := ih fit store
    refine ⟨store', inner.exec, inner.within, fun later agree => ?_⟩
    obtain ⟨w, found, truth, -⟩ := inner.value later agree
    refine ⟨_, ?_, rfl, fun _ => rfl⟩
    rw [Python.Expr.value, found, Option.map_some, if_pos rfl, Expr.run, truth]
  | binary h h' plain left right =>
    rename_i op
    simp only [Expr.logicalAsTruth, Bool.and_eq_true, Bool.or_eq_true] at fit
    obtain ⟨⟨fitLeft, fitRight⟩, exact⟩ := fit
    obtain ⟨store1, first⟩ := left fitLeft store
    obtain ⟨store2, second⟩ := right fitRight store1
    cases logical : op.isLogical with
    | true =>
      obtain rfl := plain logical
      exact ⟨store2, first.logical second h.le h'.le logical⟩
    | false =>
      obtain ⟨exactLeft, exactRight⟩ := exact.resolve_left (by simp [logical])
      exact ⟨store2, first.operator second h.le h'.le logical exactLeft exactRight⟩
  | guarded logical h h' hoisted left right =>
    simp only [Expr.logicalAsTruth, Bool.and_eq_true] at fit
    obtain ⟨store1, first⟩ := left fit.1.1 store
    exact first.guarded (right fit.1.2) h.le h'.le logical
  | concat h h' left right =>
    simp only [Expr.logicalAsTruth, Bool.and_eq_true] at fit
    obtain ⟨⟨⟨fitLeft, fitRight⟩, exactLeft⟩, exactRight⟩ := fit
    obtain ⟨store1, first⟩ := left fitLeft store
    obtain ⟨store2, second⟩ := right fitRight store1
    exact ⟨store2, first.concat second h.le h'.le exactLeft exactRight⟩
  | choose h h' h'' first second third =>
    simp only [Expr.logicalAsTruth, Bool.and_eq_true] at fit
    obtain ⟨store1, test⟩ := first fit.1.1 store
    obtain ⟨store2, yes⟩ := second fit.1.2 store1
    obtain ⟨store3, no⟩ := third fit.2 store2
    exact ⟨store3, test.choose yes no h.le h'.le h''.le⟩
  | chosen h h' h'' hoisted first second third =>
    simp only [Expr.logicalAsTruth, Bool.and_eq_true] at fit
    obtain ⟨store1, test⟩ := first fit.1.1 store
    exact test.chosen (second fit.1.2) (third fit.2) h.le h'.le h''.le
  | call h h' h'' counted first second third =>
    simp only [Expr.logicalAsTruth, Bool.and_eq_true] at fit
    obtain ⟨store1, pattern⟩ := first fit.1.1 store
    obtain ⟨store2, replacement⟩ := second fit.1.2 store1
    obtain ⟨store3, target⟩ := third fit.2 store2
    exact ⟨_, pattern.call replacement target h.le h'.le h''.le counted⟩

end Outcome

end Awk

/-- Integers as values. -/
def Values.integers : Values Int where
  truth v := v != 0
  ofBool b := if b then 1 else 0
  truth_ofBool b := by cases b <;> rfl
  var _ _ := 1
  number _ := 1
  string _ := 0
  field _ := 0
  sign text v := if text = "-" then -v else v
  operate op v w := if op = "==" then if v = w then 1 else 0 else v + w
  str v := v
  str_string _ := rfl
  str_field _ := rfl
  str_join _ _ := rfl

/-! ### Whole expressions -/

namespace Compile

variable {s s' : Session} {f : Fragment} {context : Context} {ts : List Token} {ι : Type}
  {tree : Awk.Expr ι}

/-- The code of an expression: a block whose lines were written, and the value that
Python reads in its text. -/
structure Emitted (s s' : Session) (f : Fragment) (tree : Awk.Expr ι)
    (t : Awk.Expr Awk.Substitution) (b : Block Python.Expr) (v : Python.Expr) : Prop where
  same : t.erase = tree.erase
  numbered : Awk.Temporary.Numbered s.temporaries s'.temporaries t.substitutions
  written : ∃ ls, s'.listing = s.listing.extend ls ∧ Written Awk.Denotes s.listing.depth b ls
  reads : read f.text = some v

/-- If the lines of an expression are run and its text is evaluated then, the
substitutions that AWK carries out are carried out in the same order, and the value
is true or false as in AWK. No conjunction or disjunction may be an operand of an
operator that calculates, compares or joins. -/
theorem expression_keeps_short_circuits (sound : s.Sound)
    (derives : Awk.Derives s.table (.operation context.printing false 19) ts tree)
    (shown : s.cursor.shown = ts ++ s'.cursor.shown) (run : expression context s = .ok f s')
    (fit : tree.logicalAsTruth = true) :
    ∃ t b v, Emitted s s' f tree t b v ∧
      ∀ {V : Type} (m : Values V) (count : String → V) (store : Python.Store V),
        ∃ store' w, b.exec m count store = some ((t.run m count).1, store') ∧
          v.value m store' = some w ∧ m.truth w = m.truth (t.run m count).2 := by
  have compiled := Awk.expression_compiled sound derives shown run
  obtain ⟨t, b, v, same, places, reads⟩ := compiled.places
  have emitted : Emitted s s' f tree t b v := ⟨same, places.translates.numbered, places.written,
    reads.read_eq (Nat.le_trans compiled.tight (by decide))⟩
  have fit' : t.logicalAsTruth = true := by
    rw [← Awk.Expr.logicalAsTruth_erase, same, Awk.Expr.logicalAsTruth_erase, fit]
  refine ⟨t, b, v, emitted, fun m count store => ?_⟩
  obtain ⟨store', done⟩ := places.translates.done fit' store
  obtain ⟨w, found, truth, -⟩ := done.value store' (.refl store')
  exact ⟨store', w, done.exec, found, truth⟩

/-- The words of `gsub(NF, NR)`. -/
lemma derives_gsub (printing : Bool) : Derives Table.initial (.operation printing false 0)
    (["gsub", "(", "NF", ",", "NR", ")"].map Token.ofWord)
    (.call () (.var "self" "NF") (.var "self" "NR") (.field 0)) := by
  have mark := isMark_ofWord
  exact .call ⟨true, by decide⟩ (mark "(" (by decide)) (.dynamic (counter_derives _ _ (by decide)))
    (mark "," (by decide)) (counter_derives _ _ (by decide)) .record (mark ")" (by decide))

/-- In `NR || ! gsub(NF, NR) ? NF : NR` the substitution is carried out unless `NR`
is true. -/
theorem expression_keeps_short_circuits_nested :
    let s := Session.ofWords ["NR", "||", "!", "gsub", "(", "NF", ",", "NR", ")", "?", "NF", ":",
      "NR", ";"]
    let s' := after (expression {} s)
    let tree : Awk.Expr Unit := .choose (.binary .or (.var "self" "NR")
      (.not (.call () (.var "self" "NF") (.var "self" "NR") (.field 0))))
      (.var "self" "NF") (.var "self" "NR")
    s.Sound ∧ tree.logicalAsTruth = true ∧ ∃ f t b v, expression {} s = .ok f s' ∧
      Emitted s s' f tree t b v ∧
      ∀ {V : Type} (m : Values V) (count : String → V) (store : Python.Store V),
        ∃ store' w, b.exec m count store = some ((t.run m count).1, store') ∧
          v.value m store' = some w ∧ m.truth w = m.truth (t.run m count).2 := by
  intro s s' tree
  have sound : s.Sound := Session.ofWords_sound _
  have mark := isMark_ofWord
  have negation : Awk.Derives s.table (.operation false false Awk.Operator.or.right) _ _ :=
    (Awk.Derives.not (mark "!" (by decide)) ((derives_gsub false).looser (by decide))).looser
      (by decide)
  have test : Awk.Derives s.table (.operation false false Awk.Operator.or.level) _ _ :=
    .binary (by decide) (mark "||" (by decide)) (by simp)
      (counter_derives _ "NR" (by decide)) negation
  have derives : Awk.Derives s.table (.operation false false 19) _ tree :=
    .choose (mark "?" (by decide)) (mark ":" (by decide)) (test.looser (by decide))
      (counter_derives _ "NF" (by decide)) (counter_derives _ "NR" (by decide))
  obtain ⟨f, run⟩ := ok_of_succeeds (show succeeds (expression {} s) = true by decide +kernel)
  obtain ⟨t, b, v, rest⟩ :=
    expression_keeps_short_circuits sound derives (by decide +kernel) run (by decide)
  exact ⟨sound, by decide, f, t, b, v, run, rest⟩

/-- After three replacements `(NR && gsub(NF, NR)) == NF` compares 1 with 1 in AWK,
but 3 with 1 in Python. -/
theorem conjunction_not_compared :
    let s := Session.ofWords ["(", "NR", "&&", "gsub", "(", "NF", ",", "NR", ")", ")", "==", "NF",
      ";"]
    let s' := after (expression {} s)
    let tree : Awk.Expr Unit := .binary .equal (.binary .and (.var "self" "NR")
      (.call () (.var "self" "NF") (.var "self" "NR") (.field 0))) (.var "self" "NF")
    (∃ ts, Awk.Derives s.table (.operation false false 19) ts tree ∧
      s.cursor.shown = ts ++ s'.cursor.shown) ∧
    ∃ f t b v, expression {} s = .ok f s' ∧ Emitted s s' f tree t b v ∧
      ∃ count store store' w,
        b.exec Values.integers count store = some ((t.run Values.integers count).1, store') ∧
        v.value Values.integers store' = some w ∧ Values.integers.truth w = false ∧
        Values.integers.truth (t.run Values.integers count).2 = true := by
  intro s s' tree
  have mark := isMark_ofWord
  have both : Awk.Derives s.table (.operation false false Awk.Operator.and.level) _ _ :=
    .binary (by decide) (mark "&&" (by decide)) (by simp) (counter_derives _ "NR" (by decide))
      ((derives_gsub false).looser (by decide))
  have compared : Awk.Derives s.table (.operation false false Awk.Operator.equal.level) _ tree :=
    .binary (by decide) (mark "==" (by decide)) (by simp)
      ((Awk.Derives.group (mark "(" (by decide)) (both.looser (by decide))
        (mark ")" (by decide))).looser (by decide)) (counter_derives _ "NF" (by decide))
  refine ⟨⟨_, compared.looser (by decide), by decide +kernel⟩, ?_⟩
  obtain ⟨f, run⟩ := ok_of_succeeds (show succeeds (expression {} s) = true by decide +kernel)
  have text : f.text = "cond_2==self.NF" := by
    have given : ((expression {}).run' s).map (·.text) = some "cond_2==self.NF" := by decide +kernel
    rw [run'_ok run] at given
    exact Option.some.inj given
  let label : Awk.Substitution := ⟨"target_1", "num_changed_1",
    "self._dynamic_regex(self.NF).subn(self._dynamic_replacement(self.NR), str(self._FLDS[0]), 0)",
    some "self._set_dollar_fields(target_1)"⟩
  let t : Awk.Expr Awk.Substitution := .binary .equal (.binary .and (.var "self" "NR")
    (.call label (.var "self" "NF") (.var "self" "NR") (.field 0))) (.var "self" "NF")
  let b : Block Python.Expr := Awk.guardBlock 2 true (.attribute (.name "self") "NR") label.block
    (.name "num_changed_1")
  let v : Python.Expr := .binary "==" (.name "cond_2") (.attribute (.name "self") "NF")
  have shows (depth : Nat) (line : String) :
      Python.Shows depth line [Listing.indentation depth ++ line] :=
    .bare depth 0 String.empty_append.symm
  have left : Awk.Denotes (.attribute (.name "self") "NR") "self.NR" :=
    show Python.read _ = _ by decide +kernel
  have right : Awk.Denotes (.name "num_changed_1") "num_changed_1" :=
    show Python.read _ = _ by decide +kernel
  have written : ∃ ls, s'.listing = s.listing.extend ls ∧
    Written Awk.Denotes s.listing.depth b ls := by
    refine ⟨_, ?_, .line (.store "cond_2" left) (shows 0 _) (.when (.isSet "cond_2") (shows 0 _)
      (.line (.unpack _ _ _) (shows 1 _) (.line (.plain _) (shows 1 _)
        (.line (.store "cond_2" right) (shows 1 _) .done))) .done)⟩
    decide +kernel
  have emitted : Emitted s s' f tree t b v :=
    ⟨rfl, ⟨[1], rfl, List.pairwise_singleton _ _, by decide +kernel⟩, written, by
      rw [text]
      decide +kernel⟩
  exact ⟨f, t, b, v, run, emitted, fun _ => 3, fun _ => 0, _, _, rfl, rfl, by decide, by decide⟩

end Compile

end AwkToPython
