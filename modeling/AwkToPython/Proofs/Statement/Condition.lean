import AwkToPython.Proofs.Statement.ForLoop
import AwkToPython.Proofs.Token.Reading
import AwkToPython.Proofs.Usage.Exposure

/-!
# Conditions

A condition that is compiled has no exposed assignment. So unless some word of it
belongs to a construct that hides assignments, it has none at all. This holds for
every test of a statement, wherever in the statement it stands.
-/
namespace AwkToPython

variable {ks : List SymbolKind} {test : Test}

open Compile Expression List

/-! ### Words that hide -/

namespace Awk

/-- A word of a construct that hides assignments. A sign may also be an operator
between two operands, which hides none. -/
def hides (w : Symbol) : Bool :=
  match w.kind with
  | .unary _ | .ambiguous _ _ | .field none | .function _ | .comma | .bracket .openBracket
  | .keyword .getline => true
  | .binary op => op = .regexMatch || op = .regexMismatch || op = .pipe
  | .number => Text.startsWith "-" w.key
  | _ => false

def opensParen : List Symbol → Bool
  | w :: _ => w.kind = .bracket .openParen
  | [] => false

/-- Some construct among the words hides assignments; one that has no word of its
own for this is the call of a name. -/
def shielded : List Symbol → Bool
  | w :: ws => hides w || w.isVariable && opensParen ws || shielded ws
  | [] => false

variable {ws ws' : List Symbol} {w : Symbol} {form : Part} {b : Bool}

lemma shielded_cons (h : shielded ws) : shielded (w :: ws) := by
  simp [shielded, h]

lemma shielded_append_right (h : shielded ws') : shielded (ws ++ ws') := by
  induction ws with
  | nil => exact h
  | cons w ws ih => exact shielded_cons ih

lemma shielded_append_left (h : shielded ws) : shielded (ws ++ ws') := by
  induction ws with
  | nil => cases h
  | cons w ws ih =>
    simp only [shielded, cons_append, Bool.or_eq_true, Bool.and_eq_true] at h ⊢
    rcases h with (h | ⟨named, paren⟩) | h
    · exact .inl (.inl h)
    · refine .inl (.inr ⟨named, ?_⟩)
      cases ws with
      | nil => cases paren
      | cons v ws => exact paren
    · exact .inr (ih h)

lemma shielded_of_hides (h : hides w) : shielded (w :: ws) := by
  simp [shielded, h]

/-- Without a construct that hides assignments, none is there or one is exposed. -/
def Plain (b : Bool) (ws : List Symbol) : Prop :=
  shielded ws = true ∨ b = true ∨ ∀ w ∈ ws, w.kind ≠ .binary .assign

lemma Plain.append (h : Plain a ws) (h' : Plain b ws') : Plain (a || b) (ws ++ ws') := by
  rcases h with h | rfl | h
  · exact .inl (shielded_append_left h)
  · exact .inr (.inl rfl)
  rcases h' with h' | rfl | h'
  · exact .inl (shielded_append_right h')
  · exact .inr (.inl (Bool.or_true a))
  · refine .inr (.inr fun w mem => ?_)
    exact (mem_append.mp mem).elim (h w) (h' w)

lemma plain_of_hides (h : hides w) : Plain b (w :: ws) := .inl (shielded_of_hides h)

lemma plain_word (h : w.kind ≠ .binary .assign) : Plain false [w] :=
  .inr (.inr fun _ mem => mem_singleton.mp mem ▸ h)

lemma Plain.cons (h : Plain b ws) (other : w.kind ≠ .binary .assign) : Plain b (w :: ws) :=
  (plain_word other).append h

lemma Plain.snoc (h : Plain b ws) (other : w.kind ≠ .binary .assign) : Plain b (ws ++ [w]) := by
  simpa using h.append (plain_word other)

lemma plain_of_behind (shield : shielded ws') : Plain b (ws ++ ws') :=
  .inl (shielded_append_right shield)

lemma Operates.plain (h : Operates w op level)
    (other : op ≠ .assign) (h' : Plain b ws) : Plain b (w :: ws) := by
  rcases h with ⟨kind, -⟩ | ⟨-, unary, binary, kind, -⟩
  · exact h'.cons (by simp [kind, other])
  · exact plain_of_hides (by simp [hides, kind])

/-- Several items are hidden by the comma between them. -/
lemma Exposes.shielded_of_list (h : Exposes form b ws) (several : form = .list true) :
    shielded ws := by
  induction h with
  | lineBefore line h ih => exact shielded_cons (ih several)
  | lineBehind h line ih => exact shielded_append_left (ih several)
  | more h comma h' =>
    exact shielded_append_right (shielded_of_hides (by simp [hides, comma]))
  | _ => cases several

lemma Exposes.shielded_of_input (h : Exposes form b ws) (input : form = .input) : shielded ws := by
  induction h with
  | lineBefore line h ih => exact shielded_cons (ih input)
  | lineBehind h line ih | into h target ih | source h less file ih =>
    exact shielded_append_left (ih input)
  | getline mark => exact shielded_of_hides (by simp [hides, mark])
  | _ => cases input

lemma Exposes.plain_words (h : Exposes form b ws) : Plain b ws := by
  -- a name before a parenthesis hides what is between the parentheses
  have called : ∀ {v v' : Symbol} {ws : List Symbol},
      v.isVariable ∨ v.isFunction → v'.kind = .bracket .openParen →
        shielded (v :: v' :: ws) := by
    intro v v' ws named opened
    rcases named with named | named
    · simp [shielded, named, opensParen, opened]
    · refine shielded_of_hides ?_
      cases kind : v.kind <;> simp_all [Symbol.isFunction, hides]
  induction h with
  | lineBefore line h ih => exact ih.cons (by rw [line]; simp)
  | lineBehind h line ih => exact ih.snoc (by rw [line]; simp)
  | word starts single =>
    refine plain_word fun assign => ?_
    simp [Symbol.startsOperand, assign] at starts
  | group opened h closed ih =>
    exact (ih.cons (by rw [opened]; simp)).snoc (by rw [closed]; simp)
  | tuple opened h closed ih =>
    exact .inl (shielded_cons (shielded_append_left (h.shielded_of_list rfl)))
  | element named opened h closed ih =>
    exact .inl (shielded_cons (shielded_of_hides (by simp [hides, opened])))
  | call named opened h closed ih | callEmpty named opened lines closed =>
    exact .inl (called named opened)
  | field mark h ih | getline mark | stepBefore mark h ih =>
    exact plain_of_hides (by simp [hides, mark])
  | input h ih => exact .inl (h.shielded_of_input rfl)
  | into h target ih ih' | source h less file ih ih' =>
    exact .inl (shielded_append_left (h.shielded_of_input rfl))
  | plain h ih | first h ih | one h ih => exact ih
  | sign mark h ih =>
    rcases mark with ⟨op, mark⟩ | ⟨unary, binary, mark⟩ <;>
      exact plain_of_hides (by simp [hides, mark])
  | stepBehind h mark ih => exact plain_of_behind (shielded_of_hides (by simp [hides, mark]))
  | arithmetic h here which fits h' ih ih' | logical h here which fits h' ih ih' =>
    exact ih.append (here.plain (by rcases which with rfl | rfl <;> simp) ih')
  | concatenation h fits h' ih ih' => exact ih.append ih'
  | conditional h here fits h' colon h'' ih ih' ih'' =>
    exact (ih.append (here.plain (by simp) ih')).append (ih''.cons (by rw [colon]; simp))
  | @membership limit a ws level w w' h here fits named ih =>
    have other : w'.kind ≠ .binary .assign := fun assign => by
      simp [Symbol.isVariable, Symbol.variableUse?, assign] at named
    simpa using ih.append (here.plain (by simp) (plain_word other))
  | matching h here which fits h' ih ih' =>
    refine plain_of_behind (shielded_of_hides ?_)
    rcases here with ⟨kind, -⟩ | ⟨-, unary, binary, kind, -⟩
    · rcases which with rfl | rfl <;> simp [hides, kind]
    · simp [hides, kind]
  | subtraction h number negative fits h' ih ih' =>
    exact plain_of_behind (shielded_of_hides (by simp [hides, number, negative]))
  | pipe h here fits h' ih ih' => exact plain_of_behind (shielded_cons (h'.shielded_of_input rfl))
  | assign h here fits h' ih ih' => exact .inr (.inl rfl)
  | more h comma h' ih ih' => exact plain_of_behind (shielded_of_hides (by simp [hides, comma]))

/-- Words of an expression whose assignments are all hidden. -/
structure Hidden (ws : List Symbol) : Prop where
  words : Exposes (.expression anyLevel) false ws
  shield : shielded ws = true ∨ ∀ w ∈ ws, w.kind ≠ .binary .assign

/-! ### Tests of statements -/

/-- The tests of a statement and of those inside it. -/
def Code.tests : Code → List Test
  | seq first second => first.tests ++ second.tests
  | block code => code.tests
  | branch test yes => test :: yes.tests
  | branchElse test yes no => test :: yes.tests ++ no.tests
  | whileLoop test body => test :: body.tests
  | doLoop _ body test => test :: body.tests
  | forEach _ body => body.tests
  | forLoop _ _ test _ body => test.toList ++ body.tests
  | _ => []

/-- The test is compiled from words that stand among others. -/
def Test.Among (test : Test) (ks : List SymbolKind) : Prop :=
  ∃ s s' ks', test.From s s' ks' ∧ ks' <:+: ks

lemma Test.Among.mono (h : test.Among ks) (within : ks <:+: ks') : test.Among ks' := by
  obtain ⟨s, s', inner, from_, infix'⟩ := h
  exact ⟨s, s', inner, from_, infix'.trans within⟩

lemma Head.among (h : Head test s s' ks) : test.Among ks := by
  cases h with
  | @mk s1 s2 before ks behind first _ h last =>
    exact ⟨s1, s2, ks, h, .bracket .openParen :: before, behind ++ [.bracket .closeParen], by simp⟩

/-- Every test of a statement is made of words of the statement. -/
lemma Code.Spelled.among {code : Code}
    (h : Code.Spelled shape code s s' ks n) : ∀ test ∈ code.tests, test.Among ks := by
  induction h with
  | separators _ _ h ih | lines _ _ h ih =>
    exact fun test mem => (ih test mem).mono (suffix_append _ _).isInfix
  | @cons _ _ _ _ _ ks ks' _ _ h h' ih ih' =>
    intro test mem
    rcases mem_append.mp mem with mem | mem
    · exact (ih test mem).mono ⟨[], ks', by simp⟩
    · exact (ih' test mem).mono ⟨ks, [], by simp⟩
  | pass _ h _ ih => exact fun test mem => ih test (by simpa [tests] using mem)
  | body h _ ih => exact ih
  | block collapsed _ h _ ih =>
    exact fun test mem => (ih test mem).mono
      ⟨[.bracket .openBrace], [.terminator false collapsed], by simp⟩
  | @branch _ _ _ _ _ _ head ks _ _ h hy ih =>
    intro test' mem
    rcases mem_cons.mp mem with rfl | mem
    · exact h.among.mono ⟨[.keyword .branch], ks, by simp⟩
    · exact (ih test' mem).mono ⟨.keyword .branch :: head, [], by simp⟩
  | @branchElse _ _ _ _ _ _ _ _ _ head ks ending ks' _ _ _ h hy closed he _ hn ih ih' =>
    intro test' mem
    simp only [tests, cons_append, mem_cons, mem_append] at mem
    rcases mem with rfl | mem | mem
    · exact h.among.mono ⟨[.keyword .branch], ks ++ ending ++ .elseWord :: ks', by simp⟩
    · exact (ih test' mem).mono ⟨.keyword .branch :: head, ending ++ .elseWord :: ks', by simp⟩
    · exact (ih' test' mem).mono
        ⟨.keyword .branch :: head ++ ks ++ ending ++ [.elseWord], [], by simp⟩
  | @branchTaking _ _ _ _ _ _ _ _ _ head ks ks' _ _ collapsed _ h hy closed _ hn ih ih' =>
    intro test' mem
    simp only [tests, cons_append, mem_cons, mem_append] at mem
    rcases mem with rfl | mem | mem
    · exact h.among.mono
        ⟨[.keyword .branch], ks ++ .terminator false collapsed :: .elseWord :: ks', by simp⟩
    · exact (ih test' mem).mono
        ⟨.keyword .branch :: head, .terminator false collapsed :: .elseWord :: ks', by simp⟩
    · exact (ih' test' mem).mono
        ⟨.keyword .branch :: head ++ ks ++ [.terminator false collapsed, .elseWord], [], by simp⟩
  | @whileLoop _ _ _ _ _ _ head ks _ _ h hb ih =>
    intro test' mem
    rcases mem_cons.mp mem with rfl | mem
    · exact h.among.mono ⟨[.keyword .whileLoop], ks, by simp⟩
    · exact (ih test' mem).mono ⟨.keyword .whileLoop :: head, [], by simp⟩
  | @doLoop _ _ _ _ _ _ _ _ head ks between tail _ _ _ hb hs _ h ending _ ih =>
    intro test' mem
    rcases mem_cons.mp mem with rfl | mem
    · exact h.among.mono
        ⟨.keyword .doLoop :: ks ++ between ++ [.keyword .whileLoop], tail, by simp⟩
    · exact (ih test' mem).mono
        ⟨[.keyword .doLoop], between ++ .keyword .whileLoop :: head ++ tail, by simp⟩
  | forEach _ _ hb ih => exact fun test mem => (ih test mem).mono (suffix_append _ _).isInfix
  | @forLoop _ _ _ _ _ _ _ s3 s4 _ _ _ _ before first between second behind third last ks
      _ _ _ _ _ _ _ ht _ _ _ _ _ hb ih =>
    intro test' mem
    rcases mem_append.mp mem with mem | mem
    · cases ht with
      | absent => cases mem
      | given given =>
        cases mem_singleton.mp mem
        exact ⟨s3, s4, second, given, .keyword .forLoop :: .bracket .openParen :: before ++ first ++
          .semicolon :: between, .semicolon :: behind ++ third ++ last ++
          .bracket .closeParen :: ks, by simp⟩
    · exact (ih test' mem).mono ⟨.keyword .forLoop :: .bracket .openParen :: before ++ first ++
        .semicolon :: between ++ second ++ .semicolon :: behind ++ third ++ last ++
        [.bracket .closeParen], [], by simp⟩
  | _ => exact fun test mem => by cases mem

end Awk

/-! ### Conditions -/

open Awk (Hidden)

/-- A condition is compiled from one session to the other, and its assignments are
all hidden. -/
def Session.Tests (s s' : Session) : Prop :=
  ∃ f ts, condition s = .ok f s' ∧ s.cursor.shown = ts ++ s'.cursor.shown ∧ Hidden (s.words ts)

variable {s s' : Session}

lemma Compile.condition_tests (sound : s.Sound) (run : condition s = .ok f s') : s.Tests s' := by
  obtain ⟨f', s1, read, run'⟩ := bind_ok.mp run
  split at run'
  · exact absurd run' unexpected_ne_ok
  case isFalse plain =>
    cases run'
    obtain ⟨ws, said, words, -⟩ := (reads_expression sound read).worded trivial
    obtain ⟨ts, shown, rfl⟩ := said.shown
    have exposes := words f mem_cons_self
    rw [Bool.eq_false_iff.mpr plain] at exposes
    exact ⟨f, ts, run, shown, exposes, exposes.plain_words.imp_right (·.resolve_left nofun)⟩

/-- The pattern of a rule, and the second one of a range. -/
lemma Item.rule_tests (sound : s.Sound) (run : Item.rule s = .ok () s') :
    ∃ s1, s.Tests s1 ∧ (s1.symbol.kind = .comma → ∃ s2, s1.past.pastLines.Tests s2) := by
  obtain ⟨pattern, s1, first, run⟩ := bind_ok.mp run
  refine ⟨s1, condition_tests sound first, fun comma => ?_⟩
  have sound1 : s1.Sound := (moves_condition.ok sound first).sound
  rw [atKind_bind, if_pos (decide_eq_true comma), Item.rangeHead, bind_assoc, advance_bind,
    bind_assoc, skipNewlines_bind, bind_assoc, mark_bind, bind_assoc] at run
  obtain ⟨last, s2, second, -⟩ := bind_ok.mp run
  exact ⟨s2, condition_tests (sound1.advance.skip _) second⟩

lemma Session.kinds_eq_words (s : Session) (ts : List Token) :
    s.kinds ts = (s.words ts).map (·.kind) := by
  simp [Session.kinds, Session.words, Symbol.word]

lemma Awk.Test.Among.hidden (h : test.Among ks) : ∃ (s s' : Session) (ws : List Symbol),
    ws.map (·.kind) <:+: ks ∧ test.From s s' (ws.map (·.kind)) ∧ Hidden ws := by
  obtain ⟨s, s', inner, spelled, within⟩ := h
  have ⟨f, gives, _⟩ := spelled
  obtain ⟨ts, shown, kinds⟩ := gives.passed.shown
  obtain ⟨-, ts', -, shown', hidden⟩ := condition_tests gives.passed.start gives.run
  cases append_cancel_right (shown.symm.trans shown')
  rw [← kinds, Session.kinds_eq_words] at within spelled
  exact ⟨s, s', s.words ts, within, spelled, hidden⟩

/-- In every condition, in the patterns of every rule and in every test of a
statement, each assignment stands inside a construct that hides it. Where there is
no such construct there is no assignment, at whatever depth of parentheses. -/
theorem Compile.conditions_hide_assignments (sound : s.Sound) :
    (∀ f s', condition s = .ok f s' → s.Tests s') ∧
    (∀ s', Item.rule s = .ok () s' →
      ∃ s1, s.Tests s1 ∧ (s1.symbol.kind = .comma → ∃ s2, s1.past.pastLines.Tests s2)) ∧
    ∀ depth s', Statement.statementWithin depth s = .ok () s' →
      ∃ ts code n, s.cursor.shown = ts ++ s'.cursor.shown ∧
        Awk.Code.Spelled .statement code s s' (s.kinds ts) n ∧ ∀ test ∈ code.tests,
          ∃ (s1 s2 : Session) (ws : List Symbol), ws.map (·.kind) <:+: s.kinds ts ∧
            test.From s1 s2 (ws.map (·.kind)) ∧ Hidden ws := by
  refine ⟨fun f s' run => condition_tests sound run, fun s' run => Item.rule_tests sound run,
    fun depth s' run => ?_⟩
  obtain ⟨code, ks, n, passed, -, spelled, -⟩ :=
    Statement.statementWithin_compiled depth s s' sound run
  obtain ⟨ts, shown, rfl⟩ := passed.shown
  exact ⟨ts, code, n, shown, spelled, fun test mem => (spelled.among test mem).hidden⟩

/-- The range `NR == NF, (NR && NF)` and the loop `while (NR < NF) print` have only
conditions without assignments. -/
theorem Compile.conditions_hide_assignments_plain :
    let s := Session.ofWords ["NR", "==", "NF", ",", "(", "NR", "&&", "NF", ")", ";"]
    let t := Session.ofWords ["while", "(", "NR", "<", "NF", ")", "print", ";"]
    let t' := after (Statement.statementWithin 4 t)
    s.Sound ∧ t.Sound ∧
    (∃ s1 s2, s.Tests s1 ∧ s1.past.pastLines.Tests s2) ∧
    ∃ ts code n, t.cursor.shown = ts ++ t'.cursor.shown ∧
      Awk.Code.Spelled .statement code t t' (t.kinds ts) n ∧ ∀ test ∈ code.tests,
        ∃ (s1 s2 : Session) (ws : List Symbol), ws.map (·.kind) <:+: t.kinds ts ∧
          test.From s1 s2 (ws.map (·.kind)) ∧ Hidden ws := by
  intro s t t'
  have first : s.Sound := Session.ofWords_sound _
  have second : t.Sound := Session.ofWords_sound _
  refine ⟨first, second, ?_, ?_⟩
  · have rule : Item.rule s = .ok () (after (Item.rule s)) := ok_after (by decide +kernel)
    obtain ⟨s1, ⟨f, ts, run, rest⟩, range⟩ := (conditions_hide_assignments first).2.1 _ rule
    have comma : s1.symbol.kind = .comma := by
      have here : s1 = after (condition s) := by rw [run]; rfl
      rw [here]
      decide +kernel
    obtain ⟨s2, tests⟩ := range comma
    exact ⟨s1, s2, ⟨f, ts, run, rest⟩, tests⟩
  · exact (conditions_hide_assignments second).2.2 4 _ (ok_after (by decide +kernel))

/-- The sign in `!(NR = NF)` hides an assignment from the condition. -/
theorem Compile.condition_hides_assignment :
    let s := Session.ofWords ["!", "(", "NR", "=", "NF", ")", ";"]
    let s' := after (condition s)
    ∃ f ts, condition s = .ok f s' ∧ s.cursor.shown = ts ++ s'.cursor.shown ∧
      ∃ w ∈ s.words ts, w.kind = .binary .assign := by
  intro s s'
  have passed : s.cursor.shown = s.cursor.shown.take 6 ++ s'.cursor.shown ∧
      ∃ w ∈ s.words (s.cursor.shown.take 6), w.kind = .binary .assign := by
    decide +kernel
  obtain ⟨f, run⟩ := ok_of_succeeds (show succeeds (condition s) = true by decide +kernel)
  exact ⟨f, _, run, passed⟩

end AwkToPython
