import AwkToPython.Proofs.Python.Block

/-!
# Runs of code, seen from outside

The behaviour of a piece of code is the set of its runs: what a run shows, in
order, and how it ends. A line is opaque, and tests may come out either way. A run
can be cut at the head of a loop, so that code that never ends is seen as well, as
far as one looks. Of the state of a Python program only the flags of loops are
kept; no other line sets them.
-/
namespace AwkToPython

variable {es : List Event} {out : Signal}

/-- What a run shows. -/
inductive Event where
  | ran (text : String)
  | asked (text : String) (answer : Bool)
  /-- A loop over a collection goes on to the next element, if there is one. -/
  | drew (head : String) (more : Bool)

/-- How a run ends. -/
inductive Signal where
  | ends
  | breaks
  | continues
  /-- By a return or an exception. -/
  | leaves
  /-- The loop over a generator was left while the generator was waiting. -/
  | drops
  /-- Not yet: the run is cut. -/
  | cut
deriving DecidableEq

namespace Signal

/-- A loop goes on after a pass that ends so. -/
def repeats : Signal → Bool
  | ends | continues => true
  | _ => false

/-- How a loop ends with a pass that ends so. -/
def afterLoop : Signal → Signal
  | breaks => ends
  | signal => signal

/-- A pass that ends by `continue` has ended. -/
def resumed : Signal → Signal
  | continues => ends
  | signal => signal

/-- What a generator sees of the body of the loop over it. -/
def atYield : Signal → Signal
  | continues => ends
  | breaks => drops
  | signal => signal

/-- How the loop over a generator ends with it. -/
def afterDrive : Signal → Signal
  | drops => ends
  | signal => signal

end Signal

/-- The runs from one state to another. -/
def Behaviour (σ : Type) : Type := σ → List Event → Signal → σ → Prop

namespace Behaviour

variable {σ : Type}

def jump (signal : Signal) : Behaviour σ := fun s es out s' => es = [] ∧ out = signal ∧ s' = s

def skip : Behaviour σ := jump .ends

/-- A line runs, and may leave. -/
def ran (text : String) : Behaviour σ := fun s es out s' =>
  es = [.ran text] ∧ (out = .ends ∨ out = .leaves) ∧ s' = s

/-- One after the other, unless the first does not end. -/
def andThen (a b : Behaviour σ) : Behaviour σ := fun s es out s' =>
  (out ≠ .ends ∧ a s es out s') ∨
    ∃ es1 es2 m, es = es1 ++ es2 ∧ a s es1 .ends m ∧ b m es2 out s'

/-- A test decides between two. -/
def branch (answers : σ → List Event → Bool → Prop) (yes no : Behaviour σ) : Behaviour σ :=
  fun s es out s' => ∃ es1 es2 answer, es = es1 ++ es2 ∧ answers s es1 answer ∧
    (if answer then yes else no) s es2 out s'

def asks (text : String) : σ → List Event → Bool → Prop :=
  fun _ es answer => es = [.asked text answer]

def draws (head : String) : σ → List Event → Bool → Prop :=
  fun _ es answer => es = [.drew head answer]

/-- The same runs, but they end otherwise. -/
def signalling (f : Signal → Signal) (a : Behaviour σ) : Behaviour σ := fun s es out s' =>
  ∃ inner, a s es inner s' ∧ out = f inner

/-- Pass after pass, of which only the first one is of its own kind. -/
inductive Passes (rest : Behaviour σ) : Behaviour σ → σ → List Event → Signal → σ → Prop where
  | cut {first : Behaviour σ} {s : σ} : Passes rest first s [] .cut s
  | again {first : Behaviour σ} {s m s' : σ} {es es' : List Event} {signal out : Signal}
      (pass : first s es signal m) (repeats : signal.repeats = true)
      (further : Passes rest rest m es' out s') : Passes rest first s (es ++ es') out s'
  | left {first : Behaviour σ} {s s' : σ} {es : List Event} {signal : Signal}
      (pass : first s es signal s') (ended : signal.repeats = false) :
      Passes rest first s es signal.afterLoop s'

/-- A loop is left only by its passes. -/
def forever (pass : Behaviour σ) : Behaviour σ := Passes pass pass

/-! ### Laws -/

lemma skip_andThen (a : Behaviour σ) : skip.andThen a = a := by
  funext s es out s'
  apply propext
  constructor
  · rintro (⟨ne, -, rfl, -⟩ | ⟨_, _, _, rfl, ⟨rfl, -, rfl⟩, h⟩)
    · exact absurd rfl ne
    · exact h
  · intro h
    exact .inr ⟨[], es, s, rfl, ⟨rfl, rfl, rfl⟩, h⟩

lemma andThen_skip (a : Behaviour σ) : a.andThen skip = a := by
  funext s es out s'
  apply propext
  constructor
  · rintro (⟨-, h⟩ | ⟨es1, _, _, rfl, h, rfl, rfl, rfl⟩)
    · exact h
    · simpa using h
  · intro h
    by_cases ends : out = .ends
    · subst ends
      exact .inr ⟨es, [], s', by simp, h, rfl, rfl, rfl⟩
    · exact .inl ⟨ends, h⟩

lemma andThen_assoc (a b c : Behaviour σ) : (a.andThen b).andThen c = a.andThen (b.andThen c) := by
  funext s es out s'
  apply propext
  constructor
  · rintro (⟨ne, ⟨-, h⟩ | ⟨es1, es2, m, rfl, h, h'⟩⟩ | ⟨_, es3, m, rfl, h | h, h'⟩)
    · exact .inl ⟨ne, h⟩
    · exact .inr ⟨es1, es2, m, rfl, h, .inl ⟨ne, h'⟩⟩
    · exact absurd rfl h.1
    · obtain ⟨es1, es2, m', rfl, first, second⟩ := h
      exact .inr ⟨es1, es2 ++ es3, m', by simp, first, .inr ⟨es2, es3, m, rfl, second, h'⟩⟩
  · rintro (⟨ne, h⟩ | ⟨es1, _, m, rfl, h, ⟨ne, h'⟩ | ⟨es2, es3, m', rfl, h', h''⟩⟩)
    · exact .inl ⟨ne, .inl ⟨ne, h⟩⟩
    · exact .inl ⟨ne, .inr ⟨es1, _, m, rfl, h, h'⟩⟩
    · exact .inr ⟨es1 ++ es2, es3, m', by simp, .inr ⟨es1, es2, m, rfl, h, h'⟩, h''⟩

lemma branch_andThen (answers : σ → List Event → Bool → Prop) (yes no a : Behaviour σ) :
    (branch answers yes no).andThen a = branch answers (yes.andThen a) (no.andThen a) := by
  funext s es out s'
  apply propext
  constructor
  · rintro (⟨ne, es1, es2, answer, rfl, asked, h⟩ |
      ⟨_, es3, m, rfl, ⟨es1, es2, answer, rfl, asked, h⟩, h'⟩)
    · refine ⟨es1, es2, answer, rfl, asked, ?_⟩
      cases answer <;> exact .inl ⟨ne, h⟩
    · refine ⟨es1, es2 ++ es3, answer, by simp, asked, ?_⟩
      cases answer <;> exact .inr ⟨es2, es3, m, rfl, h, h'⟩
  · rintro ⟨es1, es2, answer, rfl, asked, h⟩
    have h : ((if answer then yes else no).andThen a) s es2 out s' := by
      cases answer <;> exact h
    rcases h with ⟨ne, h⟩ | ⟨es3, es4, m, rfl, h, h'⟩
    · exact .inl ⟨ne, es1, es2, answer, rfl, asked, h⟩
    · exact .inr ⟨es1 ++ es3, es4, m, by simp, ⟨es1, es3, answer, rfl, asked, h⟩, h'⟩

lemma jump_andThen (ne : signal ≠ .ends) (a : Behaviour σ) :
    (jump signal).andThen a = jump signal := by
  funext s es out s'
  apply propext
  constructor
  · rintro (⟨-, h⟩ | ⟨_, _, _, -, ⟨-, same, -⟩, -⟩)
    · exact h
    · exact absurd same.symm ne
  · rintro ⟨rfl, rfl, rfl⟩
    exact .inl ⟨ne, rfl, rfl, rfl⟩

/-! ### Loops that go on together -/

section Simulation

variable {τ : Type}

/-- Every pass of the one is matched by a pass of the other that shows the same:
both loops go on, or both are over. -/
def Matched (later : σ → τ → Prop) (ended : σ → Signal → τ → Signal → Prop) (a : Behaviour σ)
    (b : Behaviour τ) (s : σ) (t : τ) : Prop :=
  ended s .cut t .cut ∧ ∀ es out s', a s es out s' → ∃ out' t', b t es out' t' ∧
    ((out.repeats = true ∧ out'.repeats = true ∧ later s' t') ∨
      (out.repeats = false ∧ out'.repeats = false ∧ ended s' out.afterLoop t' out'.afterLoop))

lemma Passes.simulate {later : σ → τ → Prop} {ended : σ → Signal → τ → Signal → Prop}
    (goes : ∀ s t, later s t → Matched later ended rest rest' s t)
    (h : Passes rest first s es out s') (begins : Matched later ended first first' s t) :
    ∃ out' t', Passes rest' first' t es out' t' ∧ ended s' out t' out' := by
  induction h generalizing first' t with
  | cut => exact ⟨.cut, t, .cut, begins.1⟩
  | again pass repeats _ ih =>
    obtain ⟨signal, t', pass', ⟨-, repeats', next⟩ | ⟨ends, -⟩⟩ := begins.2 _ _ _ pass
    · obtain ⟨out', t'', further, same⟩ := ih (goes _ _ next)
      exact ⟨out', t'', .again pass' repeats' further, same⟩
    · rw [repeats] at ends
      cases ends
  | left pass over' =>
    obtain ⟨signal, t', pass', ⟨repeats, -⟩ | ⟨-, over'', same⟩⟩ := begins.2 _ _ _ pass
    · rw [over'] at repeats
      cases repeats
    · exact ⟨signal.afterLoop, t', .left pass' over'', same⟩

end Simulation

/-- The loop over a generator is left where the generator is dropped. -/
def undrop : Signal → Signal
  | .drops => .breaks
  | signal => signal

/-- The loop over a generator that loops is itself a loop. -/
lemma forever_drops (pass : Behaviour σ) :
    signalling .afterDrive (forever pass) = forever (signalling undrop pass) := by
  funext s es out s'
  apply propext
  constructor
  · rintro ⟨inner, h, rfl⟩
    have matched : ∀ s t : σ, s = t → Matched Eq (fun s out t out' => s = t ∧ out.afterDrive = out')
        pass (signalling undrop pass) s t := by
      rintro s _ rfl
      refine ⟨⟨rfl, rfl⟩, fun es out s' h => ⟨_, s', ⟨out, h, rfl⟩, ?_⟩⟩
      cases out <;> simp [Signal.repeats, undrop, Signal.afterLoop, Signal.afterDrive]
    obtain ⟨_, _, run, rfl, rfl⟩ := Passes.simulate matched h (matched s s rfl)
    exact run
  · intro h
    have matched : ∀ s t : σ, s = t → Matched Eq (fun s out t out' => s = t ∧ out = out'.afterDrive)
        (signalling undrop pass) pass s t := by
      rintro s _ rfl
      refine ⟨⟨rfl, rfl⟩, ?_⟩
      rintro es _ s' ⟨out, h, rfl⟩
      refine ⟨out, s', h, ?_⟩
      cases out <;> simp [Signal.repeats, undrop, Signal.afterLoop, Signal.afterDrive]
    obtain ⟨inner, _, run, rfl, same⟩ := Passes.simulate matched h (matched s s rfl)
    exact ⟨inner, run, same⟩

/-- From a state the runs are those of code that has none. -/
def Refines (s : σ) (p : Behaviour σ) (a : Behaviour Unit) : Prop :=
  ∀ es out, a () es out () ↔ ∃ s', p s es out s'

/-- A loop is that of its first pass and of the further ones, which start in states
that the passes lead to. -/
lemma forever_refines (inv : σ → Prop)
    (start : Refines s p first) (enters : ∀ es out s', p s es out s' → inv s')
    (step : ∀ m, inv m → Refines m p rest) (keeps : ∀ m es out m', inv m → p m es out m' → inv m') :
    Refines s (forever p) (Passes rest first) := by
  intro es out
  constructor
  · intro h
    have matched : ∀ (first : Behaviour Unit) (m : σ), Refines m p first →
        (∀ es out m', p m es out m' → inv m') →
        Matched (fun _ m => inv m) (fun _ out _ out' => out = out') first p () m := by
      intro first m refines leads
      refine ⟨rfl, fun es out _ h => ?_⟩
      obtain ⟨m', run⟩ := (refines es out).mp h
      refine ⟨out, m', run, ?_⟩
      cases out <;> simp [Signal.repeats, leads _ _ _ run]
    have goes := fun (_ : Unit) m (h : inv m) =>
      matched rest m (step m h) fun es out m' => keeps m es out m' h
    obtain ⟨_, s', run, rfl⟩ := Passes.simulate goes h (matched first s start enters)
    exact ⟨s', run⟩
  · rintro ⟨s', h⟩
    have matched : ∀ (first : Behaviour Unit) (m : σ), Refines m p first →
        (∀ es out m', p m es out m' → inv m') →
        Matched (fun m _ => inv m) (fun _ out _ out' => out = out') p first m () := by
      intro first m refines leads
      refine ⟨rfl, fun es out m' h => ⟨out, (), (refines es out).mpr ⟨m', h⟩, ?_⟩⟩
      cases out <;> simp [Signal.repeats, leads _ _ _ h]
    have goes := fun m (_ : Unit) (h : inv m) =>
      matched rest m (step m h) fun es out m' => keeps m es out m' h
    obtain ⟨_, _, run, rfl⟩ := Passes.simulate goes h (matched first s start enters)
    exact run

lemma Passes.keeps (rel : σ → σ → Prop) (ok : Signal → Prop) (refl : ∀ s, rel s s)
    (trans : ∀ s t u, rel s t → rel t u → rel s u) (cut : ok .cut)
    (after : ∀ signal, ok signal → ok signal.afterLoop)
    (begins : ∀ s es out s', first s es out s' → ok out ∧ rel s s')
    (goes : ∀ s es out s', rest s es out s' → ok out ∧ rel s s')
    (h : Passes rest first s es out s') : ok out ∧ rel s s' := by
  induction h with
  | cut => exact ⟨cut, refl _⟩
  | again pass _ _ ih =>
    obtain ⟨fine, further⟩ := ih goes
    exact ⟨fine, trans _ _ _ (begins _ _ _ _ pass).2 further⟩
  | left pass _ =>
    obtain ⟨fine, kept⟩ := begins _ _ _ _ pass
    exact ⟨after _ fine, kept⟩

end Behaviour

/-! ### Python -/

namespace Python

open Behaviour Block

/-- The flags of loops. -/
abbrev Flags : Type := String → Bool

def Flags.set (flags : Flags) (name : String) (value : Bool) : Flags :=
  fun other => if other = name then value else flags other

/-- How a test comes out. -/
def Test.answers : Test String → Flags → List Event → Bool → Prop
  | .always, _, es, answer => es = [] ∧ answer = true
  | .holds text, _, es, answer => es = [.asked text answer]
  | .fails text, _, es, answer => es = [.asked text !answer]
  | .isSet name, flags, es, answer => es = [] ∧ answer = flags name
  | .isUnset name, flags, es, answer => es = [] ∧ answer = !flags name
  | .isSetOr name text, flags, es, answer =>
    if flags name then es = [] ∧ answer = true else es = [.asked text answer]

/-- The runs of one line. A generator that yields waits for a run of its consumer,
the body of the loop over it. -/
def Simple.behaviour (consumer : Behaviour Flags) : Simple String → Behaviour Flags
  | .plain text => .ran text
  | .store name value => .ran s!"{name}={value}"
  | .unpack first second call => .ran s!"{first}, {second} = {call}"
  | .setFlag name value => fun flags es out flags' =>
    es = [] ∧ out = .ends ∧ flags' = flags.set name value
  | .pass => .skip
  | .breakLoop => .jump .breaks
  | .continueLoop => .jump .continues
  | .yieldTrue => .signalling .atYield consumer

/-- The runs of a block. A loop is left, as by `break`, when its test fails. -/
def Block.behaviour : Behaviour Flags → Block String → Behaviour Flags
  | _, .done => .skip
  | consumer, .line statement rest =>
    (statement.behaviour consumer).andThen (rest.behaviour consumer)
  | consumer, .when test yes rest =>
    (branch test.answers (yes.behaviour consumer) .skip).andThen (rest.behaviour consumer)
  | consumer, .choose test yes no rest =>
    (branch test.answers (yes.behaviour consumer) (no.behaviour consumer)).andThen
      (rest.behaviour consumer)
  | consumer, .loop test body rest =>
    (forever (branch test.answers (body.behaviour consumer) (.jump .breaks))).andThen
      (rest.behaviour consumer)
  | consumer, .each head body rest =>
    (forever (branch (draws head) (body.behaviour consumer) (.jump .breaks))).andThen
      (rest.behaviour consumer)
  | consumer, .drive _ generator body rest =>
    (signalling .afterDrive (generator.behaviour (body.behaviour consumer))).andThen
      (rest.behaviour consumer)

lemma Block.behaviour_append (consumer : Behaviour Flags) (a b : Block String) :
    (a ++ b).behaviour consumer = (a.behaviour consumer).andThen (b.behaviour consumer) := by
  induction a with
  | done => exact (skip_andThen _).symm
  | line statement rest ih | «when» test yes rest _ ih | choose test yes no rest _ _ ih
  | loop test body rest _ ih | each head body rest _ ih | drive number generator body rest _ _ ih =>
    simp [behaviour, ih, andThen_assoc]

/-- Outside of a generator nothing is waited for. -/
def Block.runs (block : Block String) : Behaviour Flags := block.behaviour fun _ _ _ _ => False

end Python

end AwkToPython
