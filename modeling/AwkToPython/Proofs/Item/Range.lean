import AwkToPython.Proofs.Item.Layout
import AwkToPython.Proofs.Statement.Trace

/-!
# Ranges over the records

A range is active or not from one record to the next. In AWK the first pattern is looked
at while it is not, and the last one on every record of the range, also on the first.
The lines of a rule do so with a flag, but for the work that the first pattern has to do
before it is asked: its lines stand before the test, so they run on every record.
-/
namespace AwkToPython

open Python (Block Written Shows Flags)
open Behaviour Compile Python

/-- Record after record. Whatever a record ends with, the next one may follow. -/
inductive Behaviour.Records {σ : Type} (step : Behaviour σ) :
    σ → List (List Event × Signal) → σ → Prop where
  | nil : Records step s [] s
  | cons (here : step s es out m) (there : Records step m rest s') :
      Records step s ((es, out) :: rest) s'

/-- A flag is set to the opposite of what a condition comes out as. -/
def Python.setsNot (flag text : String) : Behaviour Flags := fun flags es out flags' =>
  ∃ answer, es = [.asked text answer] ∧ out = .ends ∧ flags' = flags.set flag !answer

namespace Awk

structure Range where
  first : Test
  last : Test
  action : Code

/-- What does not matter for whether a range is active. -/
def aside (a : Behaviour Unit) : Behaviour Bool := fun active es out active' =>
  a () es out () ∧ active' = active

/-- The range is active from now on if the condition fails. -/
def closes (text : String) : Behaviour Bool := fun _ es out active =>
  es = [.asked text !active] ∧ out = .ends

namespace Range

/-- A record of the range. -/
def inside (r : Range) : Behaviour Bool :=
  (aside r.last.lines.seen).andThen ((closes r.last.text).andThen (aside r.action.behaviour))

/-- A record that may begin the range, when the first pattern is ready to be asked. -/
def begins (r : Range) : Behaviour Bool := branch (asks r.first.text) r.inside .skip

/-- What AWK does with a record. -/
def record (r : Range) : Behaviour Bool := fun active =>
  if active then r.inside active else ((aside r.first.lines.seen).andThen r.begins) active

/-- The same, but the work for the first pattern is done on the records of the range, too. -/
def eager (r : Range) : Behaviour Bool := fun active =>
  if active then ((aside r.first.lines.seen).andThen r.record) active else r.record active

/-- The runs of the lines of a range. -/
def runs (r : Range) (flag : String) : Behaviour Flags :=
  r.first.lines.runs.andThen (branch (Python.Test.isSetOr flag r.first.text).answers
    (r.last.lines.runs.andThen ((Python.setsNot flag r.last.text).andThen r.action.desugar.runs))
    .skip)

/-- The lines of a range. -/
def Written (r : Range) (flag : String) (d : Nat) (ls : List String) : Prop :=
  ∃ bs hs cs xs as, ls = bs ++ (hs ++ (cs ++ xs ++ as)) ∧
    Python.Written Eq d r.first.lines bs ∧
    Shows d s!"if {flag} or ({r.first.text}):" hs ∧
    Python.Written Eq (d + 1) r.last.lines cs ∧
    Shows (d + 1) s!"{flag} = not ({r.last.text})" xs ∧
    Python.Written Eq (d + 1) r.action.desugar as

end Range

/-! ### The flag says whether the range is active -/

section Flag

variable {flag : String} {p q : Behaviour Flags} {a b : Behaviour Bool}

/-- The runs are those of an automaton whose state is in the flag. -/
def Mirrors (flag : String) (p : Behaviour Flags) (a : Behaviour Bool) : Prop :=
  ∀ flags es out active, a (flags flag) es out active ↔
    ∃ flags', p flags es out flags' ∧ flags' flag = active

lemma Agrees.mirrors {low high : Nat} {a : Behaviour Unit} (h : Agrees low high p a)
    (free : Outside low high flag) : Mirrors flag p (aside a) := by
  intro flags es out active
  rw [aside, h.refines flags es out]
  constructor
  · rintro ⟨⟨flags', run⟩, rfl⟩
    exact ⟨flags', run, (h.keeps _ _ _ _ run).2 flag free⟩
  · rintro ⟨flags', run, rfl⟩
    exact ⟨⟨flags', run⟩, (h.keeps _ _ _ _ run).2 flag free⟩

lemma mirrors_setsNot (text : String) : Mirrors flag (setsNot flag text) (closes text) := by
  intro flags es out active
  constructor
  · rintro ⟨rfl, rfl⟩
    exact ⟨_, ⟨!active, rfl, rfl, rfl⟩, by simp [Flags.set]⟩
  · rintro ⟨_, ⟨answer, rfl, rfl, rfl⟩, rfl⟩
    simp [closes, Flags.set]

lemma mirrors_skip : Mirrors flag .skip .skip := by
  intro flags es out active
  constructor
  · rintro ⟨rfl, rfl, rfl⟩
    exact ⟨flags, ⟨rfl, rfl, rfl⟩, rfl⟩
  · rintro ⟨_, ⟨rfl, rfl, rfl⟩, rfl⟩
    exact ⟨rfl, rfl, rfl⟩

lemma Mirrors.andThen (hp : Mirrors flag p a) (hq : Mirrors flag q b) :
    Mirrors flag (p.andThen q) (a.andThen b) := by
  intro flags es out active
  constructor
  · rintro (⟨ne, h⟩ | ⟨es1, es2, _, rfl, h, h'⟩)
    · obtain ⟨flags', run, same⟩ := (hp flags _ _ _).mp h
      exact ⟨flags', .inl ⟨ne, run⟩, same⟩
    · obtain ⟨m, run, rfl⟩ := (hp flags _ _ _).mp h
      obtain ⟨flags', run', same⟩ := (hq m _ _ _).mp h'
      exact ⟨flags', .inr ⟨es1, es2, m, rfl, run, run'⟩, same⟩
  · rintro ⟨flags', ⟨ne, h⟩ | ⟨es1, es2, m, rfl, h, h'⟩, same⟩
    · exact .inl ⟨ne, (hp flags _ _ _).mpr ⟨flags', h, same⟩⟩
    · exact .inr ⟨es1, es2, m flag, rfl, (hp flags _ _ _).mpr ⟨m, h, rfl⟩,
        (hq m _ _ _).mpr ⟨flags', h', same⟩⟩

/-- The first pattern is asked unless the flag is set. -/
lemma Mirrors.opened (text : String) (h : Mirrors flag p a) :
    Mirrors flag (branch (Test.isSetOr flag text).answers p .skip)
      (fun active => (if active then a else branch (asks text) a .skip) active) := by
  intro flags es out active
  cases set : flags flag with
  | true =>
    change a true es out active ↔ _
    rw [← set, h flags es out active]
    refine exists_congr fun flags' => and_congr_left fun _ => ?_
    constructor
    · exact fun run => ⟨[], es, true, rfl, by simp [Test.answers, set], run⟩
    · rintro ⟨_, _, answer, rfl, asked, run⟩
      simp only [Test.answers, set, if_true] at asked
      obtain ⟨rfl, rfl⟩ := asked
      exact run
  | false =>
    have chosen : ∀ answer : Bool, Mirrors flag (if answer then p else .skip)
        (if answer then a else .skip) := by
      intro answer
      cases answer
      · exact mirrors_skip
      · exact h
    have asked : ∀ es answer, (Test.isSetOr flag text).answers flags es answer ↔
        es = [.asked text answer] := by simp [Test.answers, set]
    change branch (asks text) a .skip false es out active ↔ _
    constructor
    · rintro ⟨_, es2, answer, rfl, rfl, run⟩
      obtain ⟨flags', run, same⟩ := (chosen answer flags _ _ _).mp (set ▸ run)
      exact ⟨flags', ⟨_, es2, answer, rfl, (asked _ _).mpr rfl, run⟩, same⟩
    · rintro ⟨flags', ⟨_, es2, answer, rfl, question, run⟩, same⟩
      have run := (chosen answer flags _ _ _).mpr ⟨flags', run, same⟩
      exact ⟨_, es2, answer, rfl, (asked _ _).mp question, set ▸ run⟩

/-- What holds of one record holds of all of them. -/
lemma Mirrors.records (h : Mirrors flag p a) (flags : Flags) (logs : List (List Event × Signal))
    (active : Bool) : Records a (flags flag) logs active ↔
      ∃ flags', Records p flags logs flags' ∧ flags' flag = active := by
  induction logs generalizing flags with
  | nil =>
    constructor
    · rintro ⟨⟩
      exact ⟨flags, .nil, rfl⟩
    · rintro ⟨_, ⟨⟩, rfl⟩
      exact .nil
  | cons log logs ih =>
    constructor
    · rintro (_ | ⟨here, there⟩)
      obtain ⟨m, run, rfl⟩ := (h flags _ _ _).mp here
      obtain ⟨flags', rest, same⟩ := (ih m).mp there
      exact ⟨flags', .cons run rest, same⟩
    · rintro ⟨flags', _ | ⟨here, there⟩, same⟩
      exact .cons ((h flags _ _ _).mpr ⟨_, here, rfl⟩) ((ih _).mpr ⟨flags', there, same⟩)

end Flag

namespace Range

lemma aside_andThen
    (same : b active = c active) : (aside a).andThen b active = (aside a).andThen c active := by
  funext es out active'
  refine propext (or_congr_right (exists_congr fun es1 => exists_congr fun es2 =>
    exists_congr fun m => and_congr_right fun _ => and_congr_right fun here => ?_))
  rw [here.2, same]

/-- The work for the first pattern, and then the test. -/
lemma eager_eq (r : Range) : r.eager = (aside r.first.lines.seen).andThen
    (fun active => (if active then r.inside else r.begins) active) := by
  funext active
  cases active
  all_goals exact aside_andThen rfl

/-- Nothing is done too often if there is no such work. -/
lemma eager_of_isDone {r : Range} (h : r.first.lines = .done) : r.eager = r.record := by
  have nothing : aside r.first.lines.seen = .skip := by
    rw [h]
    funext active es out active'
    refine propext ⟨?_, ?_⟩
    · rintro ⟨⟨_, _, rfl, rfl, -⟩, rfl⟩
      exact ⟨rfl, rfl, rfl⟩
    · rintro ⟨rfl, rfl, rfl⟩
      exact ⟨⟨fun _ => false, _, rfl, rfl, rfl⟩, rfl⟩
  funext active
  rw [eager, nothing, skip_andThen, ite_self]

/-- The lines of a range do what AWK does, but the work for the first pattern is done on
every record. -/
lemma runs_mirrors {r : Range} {flag : String} {low high : Nat} (first : r.first.lines.Straight)
    (last : r.last.lines.Straight) (straight : r.action.Straight) (fresh : r.action.Fresh low high)
    (other : ∀ n, flag ≠ Code.flag n) : Mirrors flag (r.runs flag) r.eager := by
  have free : ∀ {low high : Nat}, Outside low high flag := fun n _ _ => other n
  have work : ∀ {lines : Block String}, lines.Straight →
    Mirrors flag lines.runs (aside lines.seen) :=
    fun h => (show Agrees 0 0 _ _ from .straight h _).mirrors free
  rw [eager_eq]
  exact (work first).andThen (.opened _ ((work last).andThen ((mirrors_setsNot _).andThen
    ((r.action.desugar_agrees _ straight fresh).mirrors free))))

end Range

end Awk

namespace Item

variable {s s' s1 : Session} {pattern : Fragment}

lemma rangeFlag_ne (t : Table) (n : Nat) :
    (t.rangeFlag.2.symbol t.rangeFlag.1).python ≠ Awk.Code.flag n := by
  have made : t.rangeFlag.2.symbol t.rangeFlag.1 = (t.push _).2.symbol t.size := rfl
  rw [made, Table.symbol_push, if_pos rfl]
  intro same
  have heads := congrArg (·.toList.head?) same
  have first : (toString "self._range_").toList.head? = some 's' := by decide
  have other : (toString "do_first_").toList.head? = some 'd' := by decide
  simp [Awk.Code.flag, first, other] at heads

/-- What a range is made of: the first pattern is read up to `s1`, the last one up to `s2`,
and the action is what follows. -/
structure IsRange (s s1 s2 s' : Session) (r : Awk.Range) (flag : String) : Prop where
  first : ∃ f bs, condition s = .ok f s1 ∧ f.text = r.first.text ∧
    s1.listing = s.listing.extend bs ∧ Written Eq s.listing.depth r.first.lines bs
  last : ∃ f cs, condition s1.past.pastLines = .ok f s2 ∧ f.text = r.last.text ∧
    s2.listing = s1.listing.extend cs ∧ Written Eq s.listing.depth r.last.lines cs
  action : ∃ s3 s4, s3.cursor.shown = s2.cursor.shown ∧ s4.cursor = s'.cursor ∧
    Acts s3 s4 r.action
  lines : ∃ ls, s'.listing = s.listing.extend ls ∧ r.Written flag s.listing.depth ls

/-- Over all sequences of records, the lines of a rule that is a range do what AWK does,
but the work for the first pattern is done on every record. Where there is no such work,
they do what AWK does. -/
theorem rule_follows_range (sound : s.Sound) (first : condition s = .ok pattern s1)
    (comma : s1.symbol.kind = .comma) (run : rule s = .ok () s') :
    ∃ s2 r flag, IsRange s s1 s2 s' r flag ∧
      (∀ flags logs active, Records r.eager (flags flag) logs active ↔
        ∃ flags', Records (r.runs flag) flags logs flags' ∧ flags' flag = active) ∧
      (r.first.lines = .done → r.eager = r.record) := by
  have effect := moves_condition.ok sound first
  obtain ⟨b, bs, same, straight, written⟩ := effect.listing
  have run : (do rangeHead pattern; restoring ruleAction fun s =>
      { s with listing := s.listing.dedent }) s1 = .ok () s' := by
    obtain ⟨_, _, first', run⟩ := bind_ok.mp run
    cases first.symm.trans first'
    rwa [atKind_bind, if_pos (decide_eq_true comma)] at run
  obtain ⟨_, s4, head, run⟩ := bind_ok.mp run
  obtain ⟨last, s2, s3, c, taken, _, hs, xs, second, same', straight', written', ⟨t, rfl⟩, sound₃,
    cursor, listing, shows, shows', rfl⟩ := rangeHead_ok effect.sound head
  obtain ⟨s5, acted, rfl⟩ := restoring_ok run
  obtain ⟨code, acts, ⟨as, same'', written''⟩, straight'', fresh, -⟩ :=
    ruleAction_ok (sound₃.nested 1 _) acted
  have depth : s1.listing.depth = s.listing.depth := by rw [same, Listing.extend_toPosition]
  rw [depth] at shows shows' written'
  refine ⟨s2, ⟨⟨b, pattern.text⟩, ⟨c, last.text⟩, code⟩, _,
    ⟨⟨pattern, bs, first, rfl, same, written⟩, ⟨last, taken, second, rfl, same', written'⟩,
      ⟨s3.nested 1 _, s5, by rw [← cursor]; rfl, rfl, acts⟩,
      bs ++ (hs ++ (Listing.deeper 1 taken ++ xs ++ as)), ?_, bs, hs, _, xs, as, rfl, written,
        shows,
      Nat.add_comm 1 _ ▸ written'.deeper 1, shows', ?_⟩, ?_, Awk.Range.eager_of_isDone⟩
  · simp [same'', Session.nested, listing, same, List.append_assoc]
  · simpa [Session.nested, listing, depth] using written''
  · exact (Awk.Range.runs_mirrors straight straight' straight'' fresh (rangeFlag_ne t)).records

/-- The range `gsub(NF, NR), NF { print }`, whose first pattern has work to do. -/
theorem rule_follows_range_gsub :
    let s := Session.ofWords ["gsub", "(", "NF", ",", "NR", ")", ",", "NF", "\x7b", "print", "\x7d"]
    let s1 := after (condition s)
    s.Sound ∧ s1.symbol.kind = .comma ∧
      ∃ s2 r flag, IsRange s s1 s2 (after (rule s)) r flag ∧
        ∀ flags logs active, Records r.eager (flags flag) logs active ↔
          ∃ flags', Records (r.runs flag) flags logs flags' ∧ flags' flag = active := by
  intro s s1
  have sound : s.Sound := Session.ofWords_sound _
  have comma : s1.symbol.kind = .comma := by decide +kernel
  obtain ⟨pattern, first⟩ : ∃ pattern, condition s = .ok pattern s1 :=
    ok_of_succeeds (by decide +kernel)
  have run : rule s = .ok () (after (rule s)) := ok_after (by decide +kernel)
  obtain ⟨s2, r, flag, range, follows, -⟩ := rule_follows_range sound first comma run
  exact ⟨sound, comma, s2, r, flag, range, follows⟩

/-- On a record of this range its lines begin with the substitution, which AWK does not
carry out there. -/
theorem range_works_while_active :
    let s := Session.ofWords ["gsub", "(", "NF", ",", "NR", ")", ",", "NF", "\x7b", "print", "\x7d"]
    let work := "target_1, num_changed_1 = self._dynamic_regex(self.NF).subn(" ++
      "self._dynamic_replacement(self.NR), str(self._FLDS[0]), 0)"
    let r : Awk.Range :=
      ⟨⟨.line (.plain work) (.line (.plain "self._set_dollar_fields(target_1)") .done),
        "num_changed_1"⟩, ⟨.done, "self.NF"⟩, .simple (.line (.plain Statement.printRecord) .done)⟩
    r.Written "self._range_0" 0 (after (rule s)).listing.lines.toList ∧
    (∃ flags', r.runs "self._range_0" (fun _ => true) [.ran work] .leaves flags') ∧
    ∀ active, ¬r.record true [.ran work] .leaves active := by
  intro s work r
  refine ⟨?_, ⟨_, .inl ⟨by simp, .inl ⟨by simp, rfl, .inr rfl, rfl⟩⟩⟩, ?_⟩
  · have bare : ∀ text, Shows 0 text [text] := fun text => by
      simpa [Listing.indentation] using Shows.bare 0 0 (by simp [Listing.indentation] : text = _)
    have deep : ∀ text, Shows 1 text [Listing.step ++ text] := fun text => by
      simpa [Listing.indentation] using Shows.bare 1 0 (by simp [Listing.indentation] : text = _)
    have lines : (after (rule s)).listing.lines.toList =
      [work, "self._set_dollar_fields(target_1)"] ++ (["if self._range_0 or (num_changed_1):"] ++
        ([] ++ [Listing.step ++ "self._range_0 = not (self.NF)"] ++
          [Listing.step ++ Statement.printRecord])) := by
      decide +kernel
    exact ⟨_, _, _, _, _, lines, .line (.plain _) (bare _) (.single (.plain _) (bare _)), bare _,
      .done, deep _, .single (.plain _) (deep _)⟩
  · rintro active (⟨-, ⟨_, _, nothing, -⟩, -⟩ | ⟨_, es, _, same, ⟨⟨_, _, rfl, -⟩, -⟩, rest⟩)
    · cases nothing
    · rcases rest with ⟨ne, -, ends⟩ | ⟨_, _, _, rfl, ⟨rfl, -⟩, -⟩
      · exact ne ends
      · cases same

end Item

end AwkToPython
