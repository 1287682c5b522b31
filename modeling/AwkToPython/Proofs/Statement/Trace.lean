import AwkToPython.Proofs.Python.Behaviour
import AwkToPython.Proofs.Statement.ForLoop
import AwkToPython.Proofs.Token.Reading

/-!
# Loops keep their traces

The runs of a statement as AWK has them, and the runs of the Python block that it
is written as. The two show the same events in the same order and end alike,
whatever the tests come out as: a loop with a flag, a loop left by `break` and a
loop over a generator do what AWK's loops do. This needs that the flag of a loop
is not one of those that its body sets.
-/
namespace AwkToPython

open Python (Block Flags)
open Behaviour Python

variable {p q : Behaviour Flags} {out signal : Signal} {high low : Nat} {flags flags' : Flags}
  {es : List Event}

/-- What lines show that set no flag. -/
def Python.Block.seen (lines : Block String) : Behaviour Unit := fun _ es out _ =>
  ∃ flags flags', lines.runs flags es out flags'

namespace Awk

/-- The work of a condition is done, it is asked, and unless it holds the loop is
left. -/
def Test.orBreak (test : Test) : Behaviour Unit :=
  test.lines.seen.andThen (branch (asks test.text) .skip (.jump .breaks))

/-- The runs of a statement in AWK. The first pass of a `do` loop makes no test; in
a `for` loop the step comes behind a pass that ends or continues. -/
def Code.behaviour : Code → Behaviour Unit
  | skip | pass => .skip
  | simple lines => lines.seen
  | breakLoop => .jump .breaks
  | continueLoop => .jump .continues
  | seq first second => first.behaviour.andThen second.behaviour
  | block code => code.behaviour
  | branch test yes => test.lines.seen.andThen (.branch (asks test.text) yes.behaviour .skip)
  | branchElse test yes no =>
    test.lines.seen.andThen (.branch (asks test.text) yes.behaviour no.behaviour)
  | whileLoop test body => forever (test.orBreak.andThen body.behaviour)
  | doLoop _ body test => Behaviour.Passes (test.orBreak.andThen body.behaviour) body.behaviour
  | forEach head body => forever (.branch (draws head) body.behaviour (.jump .breaks))
  | forLoop _ start test step body =>
    start.seen.andThen (forever (((test.map Test.orBreak).getD .skip).andThen
      ((signalling .resumed body.behaviour).andThen step.seen)))

/-! ### Straight code -/

/-- Code that neither reads nor sets a flag, and that is no part of a generator. -/
def Stateless (p : Behaviour Flags) : Prop :=
  ∀ flags es out flags', p flags es out flags' →
    out ≠ .drops ∧ flags' = flags ∧ ∀ other, p other es out other

lemma stateless_skip : Stateless .skip := by
  rintro flags _ _ _ ⟨rfl, rfl, rfl⟩
  exact ⟨by simp, rfl, fun _ => ⟨rfl, rfl, rfl⟩⟩

lemma stateless_ran (text : String) : Stateless (.ran text) := by
  rintro flags _ out _ ⟨rfl, ends, rfl⟩
  refine ⟨?_, rfl, fun _ => ⟨rfl, ends, rfl⟩⟩
  rcases ends with rfl | rfl <;> simp

lemma Stateless.andThen (hp : Stateless p) (hq : Stateless q) : Stateless (p.andThen q) := by
  rintro flags es out flags' (⟨ne, h⟩ | ⟨es1, es2, m, rfl, h, h'⟩)
  · obtain ⟨stays, rfl, other⟩ := hp _ _ _ _ h
    exact ⟨stays, rfl, fun g => .inl ⟨ne, other g⟩⟩
  · obtain ⟨-, rfl, other⟩ := hp _ _ _ _ h
    obtain ⟨stays, rfl, other'⟩ := hq _ _ _ _ h'
    exact ⟨stays, rfl, fun g => .inr ⟨es1, es2, g, rfl, other g, other' g⟩⟩

lemma Stateless.branch (text : String) (hp : Stateless p)
    (hq : Stateless q) : Stateless (.branch (Test.holds text).answers p q) := by
  rintro flags _ out flags' ⟨es1, es2, answer, rfl, asked, h⟩
  have chosen : Stateless (if answer then p else q) := by
    cases answer
    · exact hq
    · exact hp
  obtain ⟨stays, rfl, other⟩ := chosen _ _ _ _ h
  exact ⟨stays, rfl, fun g => ⟨es1, es2, answer, rfl, asked, other g⟩⟩

lemma stateless_of_straight {lines : Block String} (h : lines.Straight)
    (consumer : Behaviour Flags) : Stateless (lines.behaviour consumer) := by
  induction h with
  | done => exact stateless_skip
  | @line text _ _ _ ih => exact (stateless_ran text).andThen ih
  | «when» text _ _ _ ih ih' => exact (ih.branch text stateless_skip).andThen ih'
  | choose text _ _ _ _ _ ih ih' ih'' => exact (ih.branch text ih').andThen ih''

lemma behaviour_eq_of_straight {lines : Block String} (h : lines.Straight)
    (consumer : Behaviour Flags) : lines.behaviour consumer = lines.runs := by
  induction h with
  | done => rfl
  | line _ _ ih => simp only [Block.runs, Block.behaviour] at ih ⊢; rw [ih]; rfl
  | «when» text _ _ _ ih ih' =>
    simp only [Block.runs, Block.behaviour] at ih ih' ⊢
    rw [ih, ih']
  | choose text _ _ _ _ _ ih ih' ih'' =>
    simp only [Block.runs, Block.behaviour] at ih ih' ih'' ⊢
    rw [ih, ih', ih'']

/-! ### Agreement -/

lemma Code.flag_inj (h : Code.flag m = Code.flag n) : m = n :=
  numbered_inj "do_first_" h

/-- No flag of a loop in a range of numbers. -/
def Outside (low high : Nat) (name : String) : Prop := ∀ n, low < n → n ≤ high → name ≠ Code.flag n

/-- A run sets only flags in a range, and drops no generator. -/
def Keeps (low high : Nat) (p : Behaviour Flags) : Prop :=
  ∀ flags es out flags', p flags es out flags' →
    out ≠ .drops ∧ ∀ name, Outside low high name → flags' name = flags name

/-- Whatever the flags are, the runs are those in AWK. -/
structure Agrees (low high : Nat) (p : Behaviour Flags) (a : Behaviour Unit) : Prop where
  refines : ∀ flags, Refines flags p a
  keeps : Keeps low high p

section Agreement

variable {low high : Nat} {p q : Behaviour Flags} {a b : Behaviour Unit}

lemma Keeps.mono (h : Keeps low high p) (below : low' ≤ low)
    (above : high ≤ high') : Keeps low' high' p := by
  intro flags es out flags' run
  obtain ⟨stays, same⟩ := h _ _ _ _ run
  exact ⟨stays, fun name free => same name fun n hn hn' => free n (by omega) (by omega)⟩

lemma Stateless.keeps (h : Stateless p) : Keeps low high p := by
  intro flags es out flags' run
  obtain ⟨stays, rfl, -⟩ := h _ _ _ _ run
  exact ⟨stays, fun _ _ => rfl⟩

lemma Keeps.andThen (hp : Keeps low high p) (hq : Keeps low high q) :
    Keeps low high (p.andThen q) := by
  rintro flags es out flags' (⟨-, h⟩ | ⟨es1, es2, m, rfl, h, h'⟩)
  · exact hp _ _ _ _ h
  · obtain ⟨-, same⟩ := hp _ _ _ _ h
    obtain ⟨stays, same'⟩ := hq _ _ _ _ h'
    exact ⟨stays, fun n hn => (same' n hn).trans (same n hn)⟩

lemma Keeps.branch {answers : Flags → List Event → Bool → Prop} (hp : Keeps low high p)
    (hq : Keeps low high q) : Keeps low high (.branch answers p q) := by
  rintro flags _ out flags' ⟨es1, es2, answer, rfl, -, h⟩
  cases answer
  · exact hq _ _ _ _ h
  · exact hp _ _ _ _ h

lemma keeps_jump (ne : signal ≠ .drops) : Keeps low high (.jump signal) := by
  rintro flags _ _ _ ⟨rfl, rfl, rfl⟩
  exact ⟨ne, fun _ _ => rfl⟩

lemma Keeps.forever (h : Keeps low high p) : Keeps low high (forever p) := by
  intro flags es out flags' run
  refine Behaviour.Passes.keeps
    (fun f f' : Flags => ∀ name, Outside low high name → f' name = f name)
    (· ≠ .drops) (fun _ _ _ => rfl) ?_ (by simp) ?_ h h run
  · intro f f' f'' first second n hn
    exact (second n hn).trans (first n hn)
  · intro signal ne
    cases signal <;> simp_all [Signal.afterLoop]

namespace Agrees

lemma andThen (hp : Agrees low high p a) (hq : Agrees low high q b) :
    Agrees low high (p.andThen q) (a.andThen b) := by
  refine ⟨fun flags es out => ?_, hp.keeps.andThen hq.keeps⟩
  constructor
  · rintro (⟨ne, h⟩ | ⟨es1, es2, _, rfl, h, h'⟩)
    · obtain ⟨flags', run⟩ := (hp.refines flags _ _).mp h
      exact ⟨flags', .inl ⟨ne, run⟩⟩
    · obtain ⟨m, run⟩ := (hp.refines flags _ _).mp h
      obtain ⟨flags', run'⟩ := (hq.refines m _ _).mp h'
      exact ⟨flags', .inr ⟨es1, es2, m, rfl, run, run'⟩⟩
  · rintro ⟨flags', ⟨ne, h⟩ | ⟨es1, es2, m, rfl, h, h'⟩⟩
    · exact .inl ⟨ne, (hp.refines flags _ _).mpr ⟨flags', h⟩⟩
    · exact .inr ⟨es1, es2, (), rfl, (hp.refines flags _ _).mpr ⟨m, h⟩,
        (hq.refines m _ _).mpr ⟨flags', h'⟩⟩

lemma branch {answers : Flags → List Event → Bool → Prop}
    {answers' : Unit → List Event → Bool → Prop}
    (same : ∀ flags es answer, answers flags es answer ↔ answers' () es answer)
    (hp : Agrees low high p a) (hq : Agrees low high q b) :
    Agrees low high (.branch answers p q) (.branch answers' a b) := by
  have chosen : ∀ answer : Bool,
    Agrees low high (if answer then p else q) (if answer then a else b) := by
    intro answer
    cases answer
    · exact hq
    · exact hp
  refine ⟨fun flags es out => ?_, hp.keeps.branch hq.keeps⟩
  constructor
  · rintro ⟨es1, es2, answer, rfl, asked, h⟩
    obtain ⟨flags', run⟩ := ((chosen answer).refines flags _ _).mp h
    exact ⟨flags', es1, es2, answer, rfl, (same _ _ _).mpr asked, run⟩
  · rintro ⟨flags', es1, es2, answer, rfl, asked, run⟩
    exact ⟨es1, es2, answer, rfl, (same _ _ _).mp asked,
      ((chosen answer).refines flags _ _).mpr ⟨flags', run⟩⟩

lemma jump (ne : signal ≠ .drops) : Agrees low high (.jump signal) (.jump signal) := by
  refine ⟨fun flags es out => ?_, keeps_jump ne⟩
  constructor
  · rintro ⟨rfl, rfl, -⟩
    exact ⟨flags, rfl, rfl, rfl⟩
  · rintro ⟨_, rfl, rfl, -⟩
    exact ⟨rfl, rfl, rfl⟩

lemma skip : Agrees low high .skip .skip := jump (by simp)

lemma straight {lines : Block String} (h : lines.Straight) (consumer : Behaviour Flags) :
    Agrees low high (lines.behaviour consumer) lines.seen := by
  have stateless := stateless_of_straight h consumer
  refine ⟨fun flags es out => ?_, stateless.keeps⟩
  rw [behaviour_eq_of_straight h consumer] at stateless ⊢
  constructor
  · rintro ⟨_, _, run⟩
    obtain ⟨-, rfl, other⟩ := stateless _ _ _ _ run
    exact ⟨flags, other flags⟩
  · rintro ⟨flags', run⟩
    exact ⟨flags, flags', run⟩

lemma forever (h : Agrees low high p a) : Agrees low high (forever p) (forever a) :=
  ⟨fun flags => forever_refines (fun _ => True) (h.refines flags) (fun _ _ _ _ => trivial)
    (fun m _ => h.refines m) fun _ _ _ _ _ _ => trivial, h.keeps.forever⟩

/-- Where no generator is dropped, none is missed. -/
lemma undropped (h : Agrees low high p a) : Agrees low high (signalling undrop p) a := by
  have same : ∀ {flags es out flags'}, signalling undrop p flags es out flags' ↔
      p flags es out flags' := by
    intro flags es out flags'
    constructor
    · rintro ⟨inner, run, rfl⟩
      have stays := (h.keeps _ _ _ _ run).1
      cases inner <;> first | exact run | exact absurd rfl stays
    · intro run
      refine ⟨out, run, ?_⟩
      have stays := (h.keeps _ _ _ _ run).1
      cases out <;> first | rfl | exact absurd rfl stays
  refine ⟨fun flags es out => ?_, fun flags es out flags' run => h.keeps _ _ _ _ (same.mp run)⟩
  rw [h.refines flags es out]
  exact exists_congr fun _ => same.symm

/-- The body of a loop over a generator, as the generator waits for it. -/
lemma yielded (h : Agrees low high p a) :
    Agrees low high (signalling undrop (signalling .atYield p)) (signalling .resumed a) := by
  have same : ∀ signal : Signal, signal ≠ .drops → undrop signal.atYield = signal.resumed := by
    intro signal ne
    cases signal <;> first | rfl | exact absurd rfl ne
  refine ⟨fun flags es out => ?_, ?_⟩
  · constructor
    · rintro ⟨inner, h', rfl⟩
      obtain ⟨flags', run⟩ := (h.refines flags es inner).mp h'
      exact ⟨flags', inner.atYield, ⟨inner, run, rfl⟩, (same _ (h.keeps _ _ _ _ run).1).symm⟩
    · rintro ⟨flags', _, ⟨inner, run, rfl⟩, rfl⟩
      rw [same _ (h.keeps _ _ _ _ run).1]
      exact ⟨inner, (h.refines flags es inner).mpr ⟨flags', run⟩, rfl⟩
  · rintro flags es _ flags' ⟨_, ⟨inner, run, rfl⟩, rfl⟩
    obtain ⟨stays, kept⟩ := h.keeps _ _ _ _ run
    refine ⟨?_, kept⟩
    rw [same _ stays]
    cases inner <;> first | exact absurd rfl stays | simp [Signal.resumed]

end Agrees

end Agreement

/-! ### Tests of loops -/

lemma branch_fails (text : String) (p q : Behaviour Flags) :
    branch (Test.fails text).answers p q = branch (Test.holds text).answers q p := by
  funext flags es out flags'
  apply propext
  constructor
  · rintro ⟨es1, es2, answer, rfl, asked, h⟩
    refine ⟨es1, es2, !answer, rfl, asked, ?_⟩
    cases answer <;> exact h
  · rintro ⟨es1, es2, answer, rfl, asked, h⟩
    refine ⟨es1, es2, !answer, rfl, ?_, ?_⟩
    · rw [Test.answers, Bool.not_not]
      exact asked
    · cases answer <;> exact h

lemma branch_always (p q : Behaviour Flags) : branch Test.always.answers p q = p := by
  funext flags es out flags'
  apply propext
  constructor
  · rintro ⟨_, es2, _, rfl, ⟨rfl, rfl⟩, h⟩
    exact h
  · intro h
    exact ⟨[], es, true, rfl, ⟨rfl, rfl⟩, h⟩

/-- The lines of a test, and the end of the loop unless it holds. -/
def exits (test : Test) (consumer : Behaviour Flags) : Behaviour Flags :=
  (test.lines.behaviour consumer).andThen
    (branch (Python.Test.holds test.text).answers .skip (.jump .breaks))

lemma exits_agrees {low high : Nat} {test : Test} (straight : test.lines.Straight)
    (consumer : Behaviour Flags) : Agrees low high (exits test consumer) test.orBreak :=
  (Agrees.straight straight consumer).andThen
    (Agrees.branch (fun _ _ _ => Iff.rfl) .skip (.jump (by simp)))

lemma exitUnless_behaviour (test : Test) (rest : Block String) (consumer : Behaviour Flags) :
    (Code.exitUnless test rest).behaviour consumer =
      (exits test consumer).andThen (rest.behaviour consumer) := by
  have leave : (Block.line .breakLoop .done).behaviour consumer = .jump .breaks :=
    jump_andThen (by simp) _
  rw [Code.exitUnless, Block.behaviour_append, Block.behaviour, leave, branch_fails, exits,
    andThen_assoc]

/-- A loop makes its test before each pass, whether the test has lines or not. -/
lemma loop_behaviour (test : Test) (inner : Block String) (consumer : Behaviour Flags) :
    (if test.lines.isDone then Block.loop (.holds test.text) inner .done
      else .loop .always (Code.exitUnless test inner) .done).behaviour consumer =
    forever ((exits test consumer).andThen (inner.behaviour consumer)) := by
  split
  case isTrue done =>
    have nothing : test.lines = .done := by
      cases h : test.lines <;> simp_all [Block.isDone]
    simp only [Block.behaviour, exits, nothing, skip_andThen, branch_andThen, andThen_skip]
    rw [jump_andThen (by simp)]
  case isFalse =>
    simp only [Block.behaviour, andThen_skip, branch_always, exitUnless_behaviour]

/-- The passes of a generator, with the body of the loop over it. -/
lemma steps_behaviour (test : Option Test) (step : Block String) (body : Behaviour Flags) :
    (Code.steps test step).behaviour body =
      forever (((test.map fun t => exits t body).getD .skip).andThen
        ((signalling .atYield body).andThen (step.behaviour body))) := by
  cases test with
  | none =>
    simp only [Code.steps, Block.behaviour, andThen_skip, branch_always, Option.map_none,
      Option.getD_none, skip_andThen]
    rfl
  | some test => exact loop_behaviour test (.line .yieldTrue step) body

lemma signalling_andThen {f : Signal → Signal} (ends : ∀ signal, f signal = .ends ↔ signal = .ends)
    (p q : Behaviour Flags) :
    signalling f (p.andThen q) = (signalling f p).andThen (signalling f q) := by
  funext flags es out flags'
  apply propext
  constructor
  · rintro ⟨inner, ⟨ne, h⟩ | ⟨es1, es2, m, rfl, h, h'⟩, rfl⟩
    · exact .inl ⟨fun same => ne ((ends _).mp same), inner, h, rfl⟩
    · exact .inr ⟨es1, es2, m, rfl, ⟨.ends, h, ((ends _).mpr rfl).symm⟩, inner, h', rfl⟩
  · rintro (⟨ne, inner, h, rfl⟩ | ⟨es1, es2, m, rfl, ⟨first, h, same⟩, inner, h', rfl⟩)
    · exact ⟨inner, .inl ⟨fun same => ne ((ends _).mpr same), h⟩, rfl⟩
    · rw [(ends first).mp same.symm] at h
      exact ⟨inner, .inr ⟨es1, es2, m, rfl, h, h'⟩, rfl⟩

lemma forLoop_agrees (tests : ∀ t ∈ test, t.lines.Straight)
    (steps : step.Straight) (body : Agrees low high p a) :
    Agrees low high (signalling .afterDrive ((Code.steps test step).behaviour p))
      (forever (((test.map Test.orBreak).getD .skip).andThen
        ((signalling .resumed a).andThen step.seen))) := by
  have ends : ∀ signal : Signal, undrop signal = .ends ↔ signal = .ends := by
    intro signal
    cases signal <;> simp [undrop]
  have asked : Agrees low high ((test.map fun t => exits t p).getD .skip)
      ((test.map Test.orBreak).getD .skip) := by
    cases test with
    | none => exact .skip
    | some t => exact exits_agrees (tests t rfl) p
  rw [steps_behaviour, forever_drops, signalling_andThen ends, signalling_andThen ends]
  exact (asked.undropped.andThen (body.yielded.andThen (Agrees.straight steps p).undropped)).forever

/-! ### The flag of a `do` loop -/

section Flag

variable {number low high : Nat} {value : Bool} {p : Behaviour Flags} {a : Behaviour Unit}

/-- The flag of a loop is set or cleared first. -/
def setting (number : Nat) (value : Bool) (p : Behaviour Flags) : Behaviour Flags :=
  ((Python.Simple.setFlag (Code.flag number) value).behaviour p).andThen p

lemma setting_iff : setting number value p flags es out flags' ↔
      p (flags.set (Code.flag number) value) es out flags' := by
  constructor
  · rintro (⟨ne, -, same, -⟩ | ⟨_, _, _, rfl, ⟨rfl, -, rfl⟩, h⟩)
    · exact absurd same ne
    · exact h
  · intro h
    exact .inr ⟨[], es, _, rfl, ⟨rfl, rfl, rfl⟩, h⟩

lemma Keeps.setting (above : low < number) (below : number ≤ high) (h : Keeps low high p) :
    Keeps low high (setting number value p) := by
  intro flags es out flags' run
  obtain ⟨stays, same⟩ := h _ _ _ _ (setting_iff.mp run)
  refine ⟨stays, fun n hn => ?_⟩
  rw [same n hn, Flags.set, if_neg (hn number above below)]

lemma Agrees.cleared (above : low < number) (below : number ≤ high) (h : Agrees number high p a) :
    Agrees low high (setting number false p) a := by
  refine ⟨fun flags es out => ?_,
    (h.keeps.mono (Nat.le_of_lt above) (Nat.le_refl high)).setting above below⟩
  rw [h.refines (flags.set (Code.flag number) false) es out]
  exact exists_congr fun _ => setting_iff.symm

lemma outside_self (number high : Nat) : Outside number high (Code.flag number) := by
  intro n above _ equal
  have := Code.flag_inj equal
  omega

/-- Behind a pass the flag is cleared. -/
lemma unset_of_cleared (h : Keeps number high p)
    (run : setting number false p flags es out flags') :
    flags' (Code.flag number) = false := by
  obtain ⟨-, same⟩ := h _ _ _ _ (setting_iff.mp run)
  rw [same _ (outside_self number high), Flags.set, if_pos rfl]

/-- While the flag is set no test is made, and afterwards one before each pass. -/
lemma doLoop_pass (number : Nat) (test : Test) (pass : Block String) (consumer : Behaviour Flags) :
    ∃ q, (if test.lines.isDone then Block.loop (.isSetOr (Code.flag number) test.text) pass .done
        else .loop .always (.when (.isUnset (Code.flag number)) (Code.exitUnless test .done) pass)
          .done).behaviour consumer = forever q ∧
      ∀ flags es out flags', q flags es out flags' ↔
        if flags (Code.flag number) then pass.behaviour consumer flags es out flags'
        else (exits test consumer).andThen (pass.behaviour consumer) flags es out flags' := by
  split
  case isTrue done =>
    have nothing : test.lines = .done := by
      cases h : test.lines <;> simp_all [Block.isDone]
    refine ⟨_, by rw [Block.behaviour, Block.behaviour, andThen_skip],
      fun flags es out flags' => ?_⟩
    have tested : (exits test consumer).andThen (pass.behaviour consumer) =
        branch (Test.holds test.text).answers (pass.behaviour consumer) (.jump .breaks) := by
      rw [exits, nothing, Block.behaviour, skip_andThen, branch_andThen, skip_andThen,
        jump_andThen (by simp)]
    rw [tested]
    split
    case isTrue set =>
      constructor
      · rintro ⟨es1, es2, answer, rfl, asked, h⟩
        simp only [Test.answers, set, if_true] at asked
        obtain ⟨rfl, rfl⟩ := asked
        exact h
      · intro h
        exact ⟨[], es, true, rfl, by simp [Test.answers, set], h⟩
    case isFalse unset =>
      constructor
      · rintro ⟨es1, es2, answer, rfl, asked, h⟩
        simp only [Test.answers, unset, Bool.false_eq_true, if_false] at asked
        exact ⟨es1, es2, answer, rfl, asked, h⟩
      · rintro ⟨es1, es2, answer, rfl, asked, h⟩
        refine ⟨es1, es2, answer, rfl, ?_, h⟩
        simp only [Test.answers, unset, Bool.false_eq_true, if_false]
        exact asked
  case isFalse =>
    refine ⟨_, by rw [Block.behaviour, Block.behaviour, andThen_skip],
      fun flags es out flags' => ?_⟩
    rw [branch_always, Block.behaviour, exitUnless_behaviour, Block.behaviour, andThen_skip,
      branch_andThen, skip_andThen]
    constructor
    · rintro ⟨_, es2, _, rfl, ⟨rfl, rfl⟩, h⟩
      cases set : flags (Code.flag number) <;> simpa [set] using h
    · intro h
      refine ⟨[], es, _, rfl, ⟨rfl, rfl⟩, ?_⟩
      cases set : flags (Code.flag number) <;> simpa [set] using h

lemma doLoop_agrees (straight : test.lines.Straight)
    (consumer : Behaviour Flags) (above : low < number) (below : number ≤ high)
    (inner : Agrees number high (body.desugar.behaviour consumer) body.behaviour) :
    Agrees low high ((Code.doLoop number body test).desugar.behaviour consumer)
      (Code.doLoop number body test).behaviour := by
  let pass := setting number false (body.desugar.behaviour consumer)
  obtain ⟨q, same, once⟩ := doLoop_pass number test
    (.line (.setFlag (Code.flag number) false) body.desugar) consumer
  have start : (Code.doLoop number body test).desugar.behaviour consumer =
      setting number true (forever q) := by
    rw [Code.desugar, Block.behaviour, same]
    rfl
  have cleared : Agrees low high pass body.behaviour := inner.cleared above below
  have later : Agrees low high ((exits test consumer).andThen pass)
      (test.orBreak.andThen body.behaviour) := (exits_agrees straight consumer).andThen cleared
  have keeps : Keeps low high q := by
    intro flags es out flags' run
    have run := (once _ _ _ _).mp run
    split at run
    · exact cleared.keeps _ _ _ _ run
    · exact later.keeps _ _ _ _ run
  -- behind a pass, and where the test is not made or fails, the flag is cleared
  have unset : ∀ flags es out flags', q flags es out flags' →
    flags' (Code.flag number) = false := by
    intro flags es out flags' run
    have run := (once _ _ _ _).mp run
    split at run
    case isTrue => exact unset_of_cleared inner.keeps run
    case isFalse set =>
      rcases run with ⟨-, run⟩ | ⟨_, _, _, -, -, run⟩
      · have asked : Agrees 0 0 (exits test consumer) test.orBreak := exits_agrees straight consumer
        obtain ⟨-, kept⟩ := asked.keeps _ _ _ _ run
        rw [kept _ (fun n hn hn' => by omega)]
        simpa using set
      · exact unset_of_cleared inner.keeps run
  rw [start]
  refine ⟨fun flags es out => ?_, keeps.forever.setting above below⟩
  have first : Refines (flags.set (Code.flag number) true) q body.behaviour := by
    intro es out
    rw [cleared.refines _ es out]
    refine exists_congr fun flags' => ?_
    rw [once, if_pos (by simp [Flags.set])]
    rfl
  have rest : ∀ flags : Flags, flags (Code.flag number) = false →
      Refines flags q (test.orBreak.andThen body.behaviour) := by
    intro flags off es out
    rw [later.refines flags es out]
    refine exists_congr fun flags' => ?_
    rw [once, if_neg (by simp [off])]
    rfl
  have loop := forever_refines (fun flags => flags (Code.flag number) = false) first
    (unset _) rest fun flags es out flags' _ => unset flags es out flags'
  exact (loop es out).trans (exists_congr fun _ => setting_iff.symm)

end Flag

/-! ### Statements -/

/-- The block of a statement runs as the statement does. -/
lemma Code.desugar_agrees (code : Code) (consumer : Behaviour Flags)
    (straight : code.Straight) (fresh : code.Fresh low high) :
    Agrees low high (code.desugar.behaviour consumer) code.behaviour := by
  induction code generalizing low with
  | skip => exact .skip
  | pass =>
    rw [desugar, Block.behaviour, Block.behaviour, andThen_skip]
    exact .skip
  | simple lines => exact .straight straight consumer
  | breakLoop | continueLoop =>
    rw [desugar, Block.behaviour, Block.behaviour, andThen_skip]
    exact .jump (by simp)
  | seq first second ih ih' =>
    rw [desugar, Block.behaviour_append]
    exact (ih straight.1 fresh.1).andThen (ih' straight.2 fresh.2)
  | block code ih => exact ih straight fresh
  | branch test yes ih =>
    rw [desugar, Block.behaviour_append, Block.behaviour, Block.behaviour, andThen_skip]
    exact (Agrees.straight straight.1 consumer).andThen
      (.branch (fun _ _ _ => Iff.rfl) (ih straight.2 fresh) .skip)
  | branchElse test yes no ih ih' =>
    rw [desugar, Block.behaviour_append, Block.behaviour, Block.behaviour, andThen_skip]
    exact (Agrees.straight straight.1 consumer).andThen
      (.branch (fun _ _ _ => Iff.rfl) (ih straight.2.1 fresh.1) (ih' straight.2.2 fresh.2))
  | whileLoop test body ih =>
    rw [desugar, loop_behaviour]
    exact ((exits_agrees straight.1 consumer).andThen (ih straight.2 fresh)).forever
  | doLoop number body test ih =>
    exact doLoop_agrees straight.1 consumer fresh.1 fresh.2.1 (ih straight.2 fresh.2.2)
  | forEach head body ih =>
    rw [desugar, Block.behaviour, Block.behaviour, andThen_skip]
    have pass : Agrees low high
        (.branch (draws head) (body.desugar.behaviour consumer) (.jump .breaks))
        (.branch (draws head) body.behaviour (.jump .breaks)) :=
      .branch (fun _ _ _ => Iff.rfl) (ih straight fresh) (.jump (by simp))
    exact pass.forever
  | forLoop number start test step body ih =>
    obtain ⟨hs, ht, hp, hb⟩ := straight
    rw [desugar, Block.behaviour_append, Block.behaviour, Block.behaviour, andThen_skip]
    exact (Agrees.straight hs consumer).andThen (forLoop_agrees ht hp (ih hb fresh))

end Awk

/-- The compiler reads the statement at the cursor, a loop just if the keyword of
that loop stands there. All tests, parts and simple statements of it are compiled
from sessions of this run. The statement and the lines that are written for it show
the same events in the same order, whatever the tests come out as, and end alike. -/
theorem Statement.statementWithin_keeps_traces {s s' : Session} (depth : Nat) (sound : s.Sound)
    (run : statementWithin depth s = .ok () s') :
    ∃ ts code n ls, s.cursor.shown = ts ++ s'.cursor.shown ∧ ts ≠ [] ∧
      (∀ word ∈ [Keyword.whileLoop, .doLoop, .forLoop],
        s.symbol.kind = .keyword word ↔ code.keyword? = some word) ∧
      Awk.Code.Spelled .statement code s s' (s.kinds ts) n ∧ s'.listing = s.listing.extend ls ∧
      Python.Written Eq s.listing.depth code.desugar ls ∧
      ∀ flags es out, code.behaviour () es out () ↔
        ∃ flags', code.desugar.runs flags es out flags' := by
  obtain ⟨code, ks, n, passed, ⟨ls, listing, written⟩, spelled, fresh, -⟩ :=
    statementWithin_compiled depth s s' sound run
  obtain ⟨ts, shown, rfl⟩ := passed.shown
  obtain ⟨k, rest, kinds, loops⟩ := spelled.starts
  obtain ⟨t, ts, rfl⟩ : ∃ t rest, ts = t :: rest := List.exists_cons_of_ne_nil fun none => by
    rw [none] at kinds
    cases kinds
  have first : s.symbol.kind.bare = k := by
    rw [Session.symbol, (List.cons.inj shown).1]
    exact (List.cons.inj kinds).1
  refine ⟨t :: ts, code, n, ls, shown, by simp, fun word loop => ?_, spelled, listing, written,
    (code.desugar_agrees _ spelled.straight fresh).refines⟩
  rw [← loops word loop, ← first]
  exact SymbolKind.bare_eq_keyword.symm

/-- A loop with a step inside a loop with its test at the end, and both jumps. -/
theorem Statement.statementWithin_keeps_traces_nested :
    let s := Session.ofWords ["do", "\x7b", "for", "(", "NR", ";", "NF", ";", "NR", "++", ")",
      "if", "(", "NF", ")", "continue", ";", "else", "break", ";", "\x7d", "while", "(", "NR", ")"]
    let s' := Compile.after (Statement.statementWithin 6 s)
    s.Sound ∧ statementWithin 6 s = .ok () s' ∧
      ∃ ts code n ls, s.cursor.shown = ts ++ s'.cursor.shown ∧ ts ≠ [] ∧
        code.keyword? = some .doLoop ∧ Awk.Code.Spelled .statement code s s' (s.kinds ts) n ∧
        s'.listing = s.listing.extend ls ∧ Python.Written Eq s.listing.depth code.desugar ls ∧
        ∀ flags es out,
          code.behaviour () es out () ↔ ∃ flags', code.desugar.runs flags es out flags' := by
  intro s s'
  have run : statementWithin 6 s = .ok () s' := Compile.ok_after (by decide +kernel)
  obtain ⟨ts, code, n, ls, shown, some, loop, rest⟩ :=
    statementWithin_keeps_traces 6 (Session.ofWords_sound _) run
  have keyword := (loop .doLoop (by simp)).mp (by decide +kernel)
  exact ⟨Session.ofWords_sound _, run, ts, code, n, ls, shown, some, keyword, rest⟩

end AwkToPython
