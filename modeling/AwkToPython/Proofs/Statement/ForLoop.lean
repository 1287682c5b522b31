import AwkToPython.Proofs.Statement.Loop

/-!
# Loops with a head of their own

Loops over keys, whose head is recognised by looking ahead, and loops with a
start, a test and a step.
-/
namespace AwkToPython

variable {array key : Token}

open Python (Block Written Shows)
open Compile Listing Awk

namespace Session

variable {s s' : Session} {n : Nat}
variable {s0 : Session} {absent : Compile Bool} {r : Option Fragment} {b : Bool}
  {stepLines : List String} {stepBlock : Block String}

/-- The kind of a token ahead. -/
def kindAhead (s : Session) (n : Nat) : SymbolKind :=
  (s.table.symbol (s.cursor.peek n).symbol).kind.bare

/-- A session that has come some tokens further sees the same tokens ahead. -/
structure Ahead (s : Session) (n : Nat) (s' : Session) : Prop where
  sound : s.Sound
  passed : s'.Sound
  table : s.table.Grows s'.table
  current : s'.cursor.current = s.cursor.peek n
  further : ∀ m, s'.cursor.peek (m + 1) = s.cursor.peek (n + (m + 1))

namespace Ahead

lemma kind (h : s.Ahead n s') : s'.symbol.kind.bare = s.kindAhead n := by
  rw [Session.symbol, h.current]
  exact Symbol.bare_of_word (h.table.word _ (h.sound.peek n).valid)

lemma grow (h : s.Ahead n s') (g : s'.table.Grows t) : s.Ahead n { s' with table := t } :=
  ⟨h.sound, h.passed.grows g, h.table.trans g, h.current, h.further⟩

/-- The first step, from the session that looked ahead. -/
lemma first (sound : s.Sound) (line : s.kindAhead 1 ≠ .terminator true true)
    (inner : s.kindAhead 1 ≠ .endOfInput) : s.Ahead 1 { s with cursor := s.cursor.advance } := by
  have lead := sound.advance_peek rfl (fun e => line (by rw [kindAhead, e]; rfl))
    (fun e => inner (by rw [kindAhead, e]; rfl))
  exact ⟨sound, sound.advance, .refl _, lead.1, fun m => by rw [lead.2 m]; congr 1; omega⟩

lemma advance (h : s.Ahead n s') (line : s.kindAhead (n + 1) ≠ .terminator true true)
    (inner : s.kindAhead (n + 1) ≠ .endOfInput) :
    s.Ahead (n + 1) { s' with cursor := s'.cursor.advance } := by
  have bare : s'.kindAhead 1 = s.kindAhead (n + 1) := by
    rw [kindAhead, h.further 0]
    exact Symbol.bare_of_word (h.table.word _ (h.sound.peek (n + 1)).valid)
  have step := first h.passed (bare ▸ line) (bare ▸ inner)
  refine ⟨h.sound, step.passed, h.table, step.current.trans (h.further 0), fun m => ?_⟩
  rw [step.further m, Nat.add_comm 1, h.further (m + 1)]
  congr 1
  omega

end Ahead

end Session

namespace Statement

variable {inner : Compile Unit} {s s' : Session}

open Session

/-! ### Loops over keys -/

lemma bare_of_isVariable {symbol : Symbol} (h : symbol.isVariable = true) :
    symbol.kind.bare = .var {} := by
  obtain ⟨use, kind⟩ := Symbol.isVariable_iff.mp h
  rw [kind]
  rfl

lemma keysHead_ok (h : keysHead? s = .ok (some (key, array)) s') :
    s' = s ∧ (key = s.cursor.peek 1 ∧ array = s.cursor.peek 3) ∧ s.kindAhead 1 = .var {} ∧
    s.kindAhead 2 = .binary .membership ∧
      s.kindAhead 3 = .var {} ∧ s.kindAhead 4 = .bracket .closeParen := by
  simp only [keysHead?, peek_bind, symbolOf_bind, pure_run] at h
  split at h
  case isTrue head =>
    cases h
    simp only [Bool.and_eq_true, decide_eq_true_eq] at head
    obtain ⟨⟨⟨h1, h2⟩, h3⟩, h4⟩ := head
    refine ⟨rfl, ⟨rfl, rfl⟩, bare_of_isVariable h1, ?_, bare_of_isVariable h3, ?_⟩
    · rw [kindAhead, h2]
      rfl
    · rw [kindAhead, h4]
      rfl
  case isFalse => cases h

lemma forEach_ok (sound : s.Sound)
    (kind : s.symbol.kind = .bracket .openParen) (head : keysHead? s = .ok (some (key, array)) s)
    (h : forEach inner key array s = .ok () s') : ∃ s1 : Session,
      s.Passed s1 [.bracket .openParen, .var {}, .binary .membership, .var {},
        .bracket .closeParen] ∧ s1.listing = s.listing ∧
      (do emit ("for " ++ keysHead s ++ ":"); body inner) s1 = .ok () s' := by
  obtain ⟨-, ⟨rfl, rfl⟩, k1, k2, k3, k4⟩ := keysHead_ok head
  rw [forEach, advance_bind] at h
  have p1 := (Passed.refl sound).advance (k := .bracket .openParen) (by rw [kind]; rfl) (by simp)
  have a1 := Ahead.first sound (by simp [k1]) (by simp [k1])
  obtain ⟨_, s2, h2, h⟩ := bind_ok.mp h
  obtain ⟨t, grows, rfl⟩ := markScalar_ok h2
  rw [advance_bind, advance_bind] at h
  have a2 := a1.grow grows
  have p2 := (p1.grow grows).advance (a2.kind.trans k1) (by simp)
  have a3 := a2.advance (by simp [k2]) (by simp [k2])
  have p3 := p2.advance (a3.kind.trans k2) (by simp)
  have a4 := a3.advance (by simp [k3]) (by simp [k3])
  obtain ⟨_, s5, h5, h⟩ := bind_ok.mp h
  obtain ⟨t', grows', rfl⟩ := markArray_ok h5
  rw [advance_bind] at h
  have a5 := a4.grow grows'
  have p5 := (p3.grow grows').advance (a5.kind.trans k3) (by simp)
  have a6 := a5.advance (by simp [k4]) (by simp [k4])
  obtain ⟨-, h⟩ := bind_bracket_ok h
  have p6 := p5.advance (a6.kind.trans k4) (by simp)
  rw [pythonOf_bind, pythonOf_bind] at h
  refine ⟨_, p6, rfl, ?_⟩
  have python : ∀ n, (t'.symbol (s.cursor.peek n).symbol).python =
      (s.table.symbol (s.cursor.peek n).symbol).python := fun n =>
    Symbol.python_of_word ((Table.Grows.trans grows grows').word _ (sound.peek n).valid)
  let element := (t'.symbol (s.cursor.peek 1).symbol).python
  let container := (t'.symbol (s.cursor.peek 3).symbol).python
  have text : "for " ++ keysHead s ++ ":" = s!"for {element} in list({container}):" := by
    rw [← String.toList_inj]
    simp [keysHead, element, container, python, toString]
  rw [text]
  exact h

lemma forEach_compiled (hi : Compiles inner)
    (p0 : s0.Passed s [.keyword .forLoop]) (same : s.listing = s0.listing)
    (kind : s.symbol.kind = .bracket .openParen) (head : keysHead? s = .ok (some (key, array)) s)
    (h : forEach inner key array s = .ok () s') : Compiled .statement 0 s0 s' := by
  obtain ⟨s1, p1, same1, h⟩ := forEach_ok p0.sound kind head h
  obtain ⟨_, s2, h2, h⟩ := bind_ok.mp h
  obtain ⟨ls, rfl, shows⟩ := emit_ok p1.sound h2
  obtain ⟨code, ks, n, p3, ⟨bs, same3, written⟩, spelled, fresh, closed, filled, some⟩ :=
    body_compiled hi (p1.sound.written ls) h
  rw [written_depth, same1, same] at written
  rw [same1, same] at shows
  have passed := (p0.trans (p1.written ls)).trans p3
  refine ⟨.forEach (keysHead s) code, _, n, passed, ⟨ls ++ bs ++ [], ?_, .each shows written .done⟩,
    .forEach p0 (p1.written ls) spelled, fresh.mono (p0.trans p1).temporaries (Nat.le_refl _),
    closed, ⟨some rfl, filled⟩, nofun⟩
  rw [same3]
  simp [Session.written, same1, same]

/-! ### Loops with a step -/

/-- The line of a part that is given and has one. -/
def partLine : Option Fragment → Block String
  | some f => Awk.ownLine f
  | none => .done

lemma optional_expression_ok (sound : s.Sound) (look : absent s = .ok b s)
    (h : optional absent (expression {}) s = .ok r s') : ∃ ks lines, s.Passed s' ks ∧
      s.Wrote 0 s' lines ∧ PartFrom (lines ++ partLine r) s s' ks := by
  obtain ⟨b', s1, h1, h⟩ := bind_ok.mp h
  cases look.symm.trans h1
  split at h
  · cases h
    exact ⟨[], .done, .refl sound, .nothing rfl, .absent⟩
  · obtain ⟨f, run, rfl⟩ := map_ok.mp h
    obtain ⟨ks, lines, gives⟩ := (moves_expression {}).gives sound run
    exact ⟨ks, lines, gives.passed, gives.wrote, .given gives⟩

lemma optional_condition_ok
    (sound : s.Sound) (look : absent s = .ok b s) (h : optional absent condition s = .ok r s') :
    ∃ ks lines, s.Passed s' ks ∧ s.Wrote 0 s' lines ∧
      TestFrom (r.map fun f => ⟨lines, f.text⟩) s s' ks ∧ (r = none → lines = .done) := by
  obtain ⟨b', s1, h1, h⟩ := bind_ok.mp h
  cases look.symm.trans h1
  split at h
  · cases h
    exact ⟨[], .done, .refl sound, .nothing rfl, .absent, fun _ => rfl⟩
  · obtain ⟨f, run, rfl⟩ := map_ok.mp h
    obtain ⟨ks, lines, gives⟩ := moves_condition.gives sound run
    exact ⟨ks, lines, gives.passed, gives.wrote, .given ⟨f, gives, rfl⟩, nofun⟩

lemma expectSemicolon_ok (sound : s.Sound) (h : expectSemicolon s = .ok () s') :
    ∃ ks, s.Passed s' (SymbolKind.semicolon :: ks) ∧ Newlines ks ∧ s'.listing = s.listing := by
  rw [expectSemicolon, atKey_bind] at h
  split at h
  case isTrue key =>
    cases h
    have kind := semicolon_of_key sound (of_decide_eq_true key)
    obtain ⟨ks, passed, lines⟩ := ((Passed.refl sound).advance (k := SymbolKind.semicolon)
      (by rw [kind]; rfl) (by simp [SymbolKind.semicolon])).skipNewlines
    exact ⟨ks, passed, lines, rfl⟩
  case isFalse => exact absurd h unexpected_ne_ok

lemma nested_emitPart {α : Type} (levels : Nat) (ls : List String) (sound : s.Sound)
    (part : Option Fragment) (f : Unit → Compile α) :
    ∃ xs, Written Eq (s.listing.depth + levels) (partLine part) xs ∧
      (emitPart part >>= f) (s.nested levels ls) = f () (s.nested levels (ls ++ xs)) := by
  cases part with
  | none => exact ⟨[], .done, by rw [List.append_nil]; rfl⟩
  | some fragment =>
    rw [partLine, ownLine, emitPart]
    split
    · exact ⟨[], .done, by rw [List.append_nil]; rfl⟩
    · obtain ⟨xs, shows, run⟩ := nested_emit levels ls sound fragment.text f
      exact ⟨xs, .single (.plain _) shows, run⟩

lemma emitPart_ok (sound : s.Sound) (h : emitPart part s = .ok () s') :
    s.Passed s' [] ∧ s.Wrote 0 s' (partLine part) := by
  cases part with
  | none =>
    cases h
    exact ⟨.refl sound, .nothing rfl⟩
  | some fragment =>
    rw [emitPart] at h
    rw [partLine, ownLine]
    split at h
    case isTrue hoisted =>
      cases h
      rw [if_pos hoisted]
      exact ⟨.refl sound, .nothing rfl⟩
    case isFalse own =>
      obtain ⟨ls, rfl, shows⟩ := emit_ok sound h
      rw [if_neg own]
      exact ⟨(Passed.refl sound).written ls, ls, rfl, .single (.plain _) shows⟩

/-- What a generator does on each pass after its test. -/
lemma nested_pass (ls : List String) (sound : s.Sound)
    (step : Option Fragment) (written : Written Eq s.listing.depth stepBlock stepLines) :
    ∃ xs, Written Eq (s.listing.depth + 2) (.line .yieldTrue (stepBlock ++ partLine step)) xs ∧
      (do emit "yield True"; appendLines stepLines 2; emitPart step; dedent; dedent)
        (s.nested 2 ls) = .ok () (s.written (ls ++ xs)) := by
  obtain ⟨ys, shows, run⟩ := nested_emit 2 ls sound "yield True" fun _ => do
    appendLines stepLines 2; emitPart step; dedent; dedent
  obtain ⟨xs, line, run'⟩ := nested_emitPart 2
    (ls ++ ys ++ deeper 2 stepLines) sound step fun _ => do dedent; dedent
  refine ⟨ys ++ (deeper 2 stepLines ++ xs),
    .line .yieldTrue shows ((Nat.add_comm 2 _ ▸ written.deeper 2).append line), ?_⟩
  rw [run, nested_appendLines, run', nested_dedent]
  simp only [List.append_assoc]
  rfl

lemma generator_run (n : Nat) (step : Option Fragment) (sound : s.Sound)
    (writtenTest : Written Eq s.listing.depth testBlock testLines)
    (writtenStep : Written Eq s.listing.depth stepBlock stepLines)
    (absent : test = none → testBlock = .done) : ∃ ds gs,
      Shows s.listing.depth s!"def _generator__{n}():" ds ∧ Written Eq (s.listing.depth + 1)
        (Code.steps (test.map fun f => ⟨testBlock, f.text⟩) (stepBlock ++ partLine step)) gs ∧
      generator n test testLines step stepLines s = .ok () (s.written (ds ++ gs)) := by
  obtain ⟨ds, run, shows⟩ := emit_run sound s!"def _generator__{n}():"
  refine ⟨ds, ?_⟩
  have start : ∀ {f : Unit → Compile Unit},
      (emit s!"def _generator__{n}():" >>= f) s = f () (s.nested 0 ds) := by
    intro f
    simp only [Bind.bind, EStateM.bind, run]
    rfl
  -- the loop without lines of its own for a test
  have plain : ∀ text, ∃ gs ps, Shows (s.listing.depth + 1) ("while " ++ text ++ ":") gs ∧
      Written Eq (s.listing.depth + 2) (.line .yieldTrue (stepBlock ++ partLine step)) ps ∧
      (do emit ("while " ++ text ++ ":"); indent; emit "yield True"; appendLines stepLines 2;
          emitPart step; dedent; dedent) (s.nested 1 ds) =
            .ok () (s.written (ds ++ (gs ++ ps))) := by
    intro text
    obtain ⟨gs, head, run1⟩ := nested_emit 1 ds sound ("while " ++ text ++ ":")
      fun _ => do
        indent; emit "yield True"; appendLines stepLines 2; emitPart step; dedent; dedent
    obtain ⟨ps, pass, run2⟩ := nested_pass (ds ++ gs) sound step writtenStep
    refine ⟨gs, ps, head, pass, ?_⟩
    rw [run1, nested_indent, run2, List.append_assoc]
  cases test with
  | none =>
    have empty : testLines.isEmpty = true := by
      rw [writtenTest.isEmpty_eq, absent rfl]
      rfl
    obtain ⟨gs, ps, head, pass, runs⟩ := plain "True"
    refine ⟨gs ++ ps ++ [], shows, .loop .always head pass .done, ?_⟩
    rw [generator, start, nested_indent, List.append_nil, empty]
    exact runs
  | some test =>
    cases empty : testLines.isEmpty with
    | true =>
      obtain ⟨gs, ps, head, pass, runs⟩ := plain test.text
      refine ⟨gs ++ ps ++ [], shows, ?_, ?_⟩
      · rw [Option.map_some, Code.steps, if_pos (by rw [← writtenTest.isEmpty_eq, empty])]
        exact .loop (.holds rfl) head pass .done
      · rw [generator, start, nested_indent, List.append_nil, empty]
        exact runs
    | false =>
      obtain ⟨ws, head, run1⟩ := nested_emit 1 ds sound "while True:" fun _ => do
        appendLines testLines 2; indent; breakUnless test; emit "yield True"
        appendLines stepLines 2; emitPart step; dedent; dedent
      obtain ⟨xs, exit, run2⟩ := nested_breakUnless 2
        (ds ++ ws ++ deeper 2 testLines) sound test fun _ => do
          emit "yield True"; appendLines stepLines 2; emitPart step; dedent; dedent
      obtain ⟨ps, pass, run3⟩ := nested_pass (ds ++ ws ++ deeper 2 testLines ++ xs)
        sound step writtenStep
      have inner := ((Nat.add_comm 2 _ ▸ writtenTest.deeper 2).append exit).append pass
      refine ⟨ws ++ (deeper 2 testLines ++ xs ++ ps) ++ [], shows, ?_, ?_⟩
      · rw [Option.map_some, Code.steps, if_neg (by rw [← writtenTest.isEmpty_eq, empty]; simp)]
        rw [Block.append_assoc] at inner
        exact .loop .always head inner .done
      · rw [generator, start, nested_indent, empty]
        refine (run1.trans ?_)
        rw [nested_appendLines, nested_indent, run2, run3]
        simp

lemma countedLoop_compiled (hi : Compiles inner)
    (p0 : s0.Passed s [.keyword .forLoop]) (same : s.listing = s0.listing)
    (kind : s.symbol.kind = .bracket .openParen) (h : countedLoop inner s = .ok () s') :
    Compiled .statement 0 s0 s' := by
  rw [countedLoop, advance_bind, skipNewlines_bind] at h
  obtain ⟨before, p1, lines1⟩ := (p0.advance (k := .bracket .openParen) (by rw [kind]; rfl)
    (by simp)).skipNewlines
  obtain ⟨start, s2, h2, h⟩ := bind_ok.mp h
  obtain ⟨first, startLines, p2, wrote2, from2⟩ := optional_expression_ok p1.sound rfl h2
  obtain ⟨_, s3, h3, h⟩ := bind_ok.mp h
  obtain ⟨between, p3, lines3, same3⟩ := expectSemicolon_ok p2.sound h3
  rw [mark_bind] at h
  obtain ⟨test, s4, h4, h⟩ := bind_ok.mp h
  obtain ⟨second, testLines, p4, wrote4, from4, absent⟩ := optional_condition_ok p3.sound rfl h4
  obtain ⟨_, s5, h5, h⟩ := bind_ok.mp h
  obtain ⟨behind, p5, lines5, same5⟩ := expectSemicolon_ok p4.sound h5
  rw [mark_bind] at h
  obtain ⟨step, s6, h6, h⟩ := bind_ok.mp h
  obtain ⟨third, stepLines, p6, wrote6, from6⟩ := optional_expression_ok p5.sound rfl h6
  rw [skipNewlines_bind] at h
  obtain ⟨last, p7, lines7⟩ := (Passed.refl p6.sound).skipNewlines
  obtain ⟨kind8, h⟩ := bind_bracket_ok h
  have p8 := p7.advance (k := .bracket .closeParen) (by rw [kind8]; rfl) (by simp)
  -- the lines of the step stand behind those of the test and are taken out first
  obtain ⟨stepTaken, sinceStep, writtenStep⟩ := takeSince_wrote wrote6
  obtain ⟨testTaken, sinceTest, writtenTest⟩ := takeSince_wrote wrote4
  rw [takeSince_bind, sinceStep, same5, takeSince_bind, sinceTest, nextTemporary_bind] at h
  obtain ⟨_, s9, h9, h⟩ := bind_ok.mp h
  have head := (((((p1.trans p2).trans p3).trans p4).trans p5).trans p6)
  -- the lines that were taken out, and the number of the loop
  have moved := (p8.relist s6.listing s3.listing).count (Nat.le_succ _)
  have counted := head.trans moved
  obtain ⟨p9, wrote9⟩ := emitPart_ok counted.sound h9
  obtain ⟨_, s10, h10, h⟩ := bind_ok.mp h
  obtain ⟨as, startSame, writtenStart⟩ := wrote2
  obtain ⟨ls, partSame, writtenPart⟩ := wrote9
  have listing3 : s3.listing = s0.listing.extend as := by rw [same3, startSame, same]
  have listing9 : s9.listing = s0.listing.extend (as ++ ls) := by
    rw [partSame, listing3, extend_extend]
  have depth3 : s3.listing.depth = s0.listing.depth := by rw [listing3, extend_toPosition]
  have depth5 : s5.listing.depth = s0.listing.depth := by
    obtain ⟨ts, testSame, -⟩ := wrote4
    rw [same5, testSame, extend_toPosition, depth3]
  have depth9 : s9.listing.depth = s0.listing.depth := by rw [listing9, extend_toPosition]
  rw [depth3, ← depth9] at writtenTest
  rw [depth5, ← depth9] at writtenStep
  obtain ⟨ds, gs, def_, generated, run⟩ :=
    generator_run (s6.temporaries + 1) step p9.sound writtenTest writtenStep absent
  cases h10.symm.trans run
  obtain ⟨_, s11, h11, h⟩ := bind_ok.mp h
  obtain ⟨fs, rfl, loop⟩ := emit_ok (p9.sound.written _) h11
  obtain ⟨code, ks, n, p12, ⟨bs, bodySame, writtenBody⟩, spelled, fresh, closed, filled, some⟩ :=
    body_compiled hi ((p9.sound.written _).written fs) h
  simp only [written_depth, depth9] at def_ generated loop writtenBody
  have closing := ((moved.trans p9).written (ds ++ gs)).written fs
  have passed := (head.trans closing).trans p12
  refine ⟨.forLoop (s6.temporaries + 1) (startLines ++ partLine start)
    (test.map fun f => ⟨testLines, f.text⟩) (stepLines ++ partLine step) code, _, n,
    by simpa using passed, ⟨as ++ ls ++ (ds ++ gs ++ fs ++ bs ++ []), ?_, ?_⟩,
    .forLoop (s6.temporaries + 1) p1 lines1 from2 p3 lines3 from4 p5 lines5 from6
      (by simpa using closing) lines7 spelled, ?_, closed, ⟨some rfl, filled⟩, nofun⟩
  · rw [bodySame]
    simp [Session.written, listing9]
  · have begins : Written Eq s0.listing.depth startLines as := same ▸ writtenStart
    have part : Written Eq s0.listing.depth (partLine start) ls := depth3 ▸ writtenPart
    exact (begins.append part).append (.drive def_ generated loop writtenBody .done)
  · exact fresh.mono (counted.trans p9).temporaries (Nat.le_refl _)

lemma forLoop_compiled (hi : Compiles inner) (sound : s.Sound)
    (kind : s.symbol.kind = .keyword .forLoop) (h : forLoop inner s = .ok () s') :
    Compiled .statement 0 s s' := by
  rw [forLoop, advance_bind, atBracket_bind] at h
  have p := passed_keyword sound kind
  obtain ⟨found, h⟩ := check_ok h
  beta_reduce at h
  obtain ⟨head, s1, h1, h⟩ := bind_ok.mp h
  have stay : s1 = { s with cursor := s.cursor.advance } := by
    simp only [keysHead?, peek_bind, symbolOf_bind, pure_run] at h1
    cases h1
    rfl
  subst stay
  have kind1 : (s.table.symbol s.cursor.advance.current.symbol).kind = .bracket .openParen := by
    simpa using found
  cases head with
  | some tokens => exact forEach_compiled hi p rfl kind1 h1 h
  | none => exact countedLoop_compiled hi p rfl kind1 h

/-! ### All statements -/

lemma keywordStatement_compiled (hi : Compiles inner) (sound : s.Sound)
    (kind : s.symbol.kind = .keyword word) (h : keywordStatement inner word s = .ok () s') :
    Compiled .statement 0 s s' := by
  have alone : (∀ other, keywordStatement other word s = keywordStatement inner word s) →
      ∀ other, statement other s = .ok () s' := fun same other =>
    (statement_of_keyword other kind).trans ((same other).trans h)
  cases word with
  | print | printf => exact print_compiled (alone fun _ => rfl) sound kind rfl h
  | branch => exact branch_compiled hi sound kind h
  | whileLoop => exact whileLoop_compiled hi sound kind h
  | doLoop => exact doLoop_compiled hi sound kind h
  | forLoop => exact forLoop_compiled hi sound kind h
  | breakLoop => exact jump_compiled (alone fun _ => rfl) sound kind (.inl rfl) h
  | continueLoop => exact jump_compiled (alone fun _ => rfl) sound kind (.inr (.inl rfl)) h
  | next => exact jump_compiled (alone fun _ => rfl) sound kind (.inr (.inr (.inl rfl))) h
  | nextFile => exact jump_compiled (alone fun _ => rfl) sound kind (.inr (.inr (.inr rfl))) h
  | exit => exact exit_compiled (alone fun _ => rfl) sound kind h
  | returnValue => exact returnValue_compiled (alone fun _ => rfl) sound kind h
  | delete => exact delete_compiled (alone fun _ => rfl) sound kind h
  | getline => exact expressionStatement_compiled (alone fun _ => rfl) sound h
  | function => exact absurd h unexpected_ne_ok

lemma statement_compiled (hi : Compiles inner) : Compiles (statement inner) := by
  intro s s' sound h
  -- where no keyword and no block starts, an expression stands
  have expression : (∀ other, statement other s = expressionStatement s) →
      Compiled .statement 0 s s' := fun same =>
    expressionStatement_compiled (fun other => ((same other).trans (same inner).symm).trans h) sound
      ((same inner).symm.trans h)
  cases hk : s.symbol.kind with
  | bracket b =>
    cases b with
    | openBrace =>
      rw [statement, kind_bind, hk] at h
      exact block_compiled hi sound h
    | _ => exact expression fun _ => by rw [statement, kind_bind, hk]
  | keyword word =>
    rw [statement_of_keyword inner hk] at h
    exact keywordStatement_compiled hi sound hk h
  | _ => exact expression fun _ => by rw [statement, kind_bind, hk]

/-- Statements nested to any depth are compiled as their trees say. -/
lemma statementWithin_compiled (depth : Nat) : Compiles (statementWithin depth) := by
  induction depth with
  | zero => exact fun s s' _ h => by cases h
  | succ depth ih => exact statement_compiled ih

end Statement

end AwkToPython
