import AwkToPython.Proofs.Python.Layout
import AwkToPython.Proofs.Usage.Item

/-!
# The layout of items

Every item that is compiled adds lines to one bucket, and these lines are nested
as Python wants them. So the lines of each bucket are, whatever items have been
compiled.
-/
namespace AwkToPython

open Python (Block Written Shows Laid IsPlain Heads isCode)
open Compile List Listing Session Python

variable {b : Block String} {method : String} {params : List Parameter}

/-! ### Statements -/

lemma Python.Block.Straight.tidy (h : b.Straight) : b.Tidy := by
  induction h with
  | done => trivial
  | line plain h ih => exact ⟨plain, ih⟩
  | «when» text filled h h' ih ih' => exact ⟨⟨filled, ih⟩, ih'⟩
  | choose text filled filledNo h h' h'' ih ih' ih'' =>
    exact ⟨⟨filled, ih⟩, ⟨filledNo, ih'⟩, ih''⟩

namespace Awk

lemma tidy_exitUnless (lines : test.lines.Straight)
    (tidy : rest.Tidy) : (Code.exitUnless test rest).Tidy :=
  lines.tidy.append ⟨⟨rfl, trivial, trivial⟩, tidy⟩

lemma isDone_exitUnless (test : Test) (rest : Block String) :
    (Code.exitUnless test rest).isDone = false := by
  rw [Code.exitUnless, Block.isDone_append]
  exact Bool.and_false _

lemma tidy_steps {test : Option Test} {step : Block String}
    (lines : ∀ t ∈ test, t.lines.Straight) (straight : step.Straight) :
    (Code.steps test step).Tidy ∧ (Code.steps test step).isDone = false := by
  have pass : (Block.line .yieldTrue step).Tidy := ⟨trivial, straight.tidy⟩
  cases test with
  | none => exact ⟨⟨⟨rfl, pass⟩, trivial⟩, rfl⟩
  | some test =>
    rw [Code.steps]
    split
    · exact ⟨⟨⟨rfl, pass⟩, trivial⟩, rfl⟩
    · exact ⟨⟨⟨isDone_exitUnless _ _, tidy_exitUnless (lines test rfl) pass⟩, trivial⟩, rfl⟩

lemma Code.tidy {code : Code} (straight : code.Straight) (filled : code.Filled) :
    code.desugar.Tidy := by
  have flag : ∀ number, IsPlain (Code.flag number) := fun number =>
    IsPlain.append (by decide : IsPlain "do_first_") (toString number)
  induction code with
  | skip => trivial
  | pass | breakLoop | continueLoop => exact ⟨trivial, trivial⟩
  | simple lines => exact Block.Straight.tidy straight
  | seq first second ih ih' => exact (ih straight.1 filled.1).append (ih' straight.2 filled.2)
  | block code ih => exact ih straight filled
  | branch test yes ih =>
    exact straight.1.tidy.append ⟨⟨filled.1, ih straight.2 filled.2⟩, trivial⟩
  | branchElse test yes no ih ih' =>
    exact straight.1.tidy.append ⟨⟨filled.1.1, ih straight.2.1 filled.1.2⟩,
      ⟨filled.2.1, ih' straight.2.2 filled.2.2⟩, trivial⟩
  | whileLoop test body ih =>
    have inner := ih straight.2 filled.2
    rw [desugar]
    split
    · exact ⟨⟨filled.1, inner⟩, trivial⟩
    · exact ⟨⟨isDone_exitUnless _ _, tidy_exitUnless straight.1 inner⟩, trivial⟩
  | doLoop number body test ih =>
    have pass : (Block.line (.setFlag (Code.flag number) false) body.desugar).Tidy :=
      ⟨flag number, ih straight.2 filled⟩
    refine ⟨flag number, ?_⟩
    split
    · exact ⟨⟨rfl, pass⟩, trivial⟩
    · exact ⟨⟨rfl, ⟨isDone_exitUnless _ _, tidy_exitUnless straight.1 trivial⟩, pass⟩, trivial⟩
  | forEach head body ih => exact ⟨⟨filled.1, ih straight filled.2⟩, trivial⟩
  | forLoop number start test step body ih =>
    obtain ⟨steps, some⟩ := tidy_steps straight.2.1 straight.2.2.1
    exact straight.1.tidy.append
      ⟨⟨some, steps⟩, ⟨filled.1, ih straight.2.2.2 filled.2⟩, trivial⟩

end Awk

/-! ### Rules -/

namespace Session

/-- From one session to the other, lines are written that are laid out at the
current level. -/
def Lays (s s' : Session) : Prop :=
  ∃ ls, s'.listing = s.listing.extend ls ∧ Laid s.listing.depth ls ∧ ls ≠ []

end Session

namespace Item

variable {x : Compile Unit} {bucket : Bucket}

variable {s s' : Session}

lemma restoring_ok {restore : Session → Session}
    (run : restoring x restore s = .ok () s') : ∃ s1, x s = .ok () s1 ∧ s' = restore s1 := by
  rw [restoring] at run
  cases hx : x s with
  | ok a s1 =>
    rw [hx] at run
    cases run
    exact ⟨s1, rfl, rfl⟩
  | error e s1 =>
    rw [hx] at run
    cases run

/-- The code of an action: that of the statements between braces, or a print of the record
where none are given. -/
def Acts (s s' : Session) (code : Awk.Code) : Prop :=
  (∃ s1 s2 ks n, s.Passed s1 [.bracket .openBrace] ∧ s1.Passed s2 ks ∧
    s2.Passed s' [.terminator false false] ∧ code.Spelled .sequence s1 s2 ks n) ∨
  code = .simple (.line (.plain Statement.printRecord) .done)

/-- The lines of an action. -/
def ActionWritten (s s' : Session) (code : Awk.Code) : Prop :=
  s.Wrote 0 s' code.desugar ∧ code.Straight ∧ code.Fresh s.temporaries s'.temporaries ∧
    code.Filled ∧ code.desugar.isDone = false

lemma action_ok (sound : s.Sound) (run : action s = .ok () s') :
    ∃ code, Acts s s' code ∧ ActionWritten s s' code := by
  rw [action, remaining_bind] at run
  obtain ⟨code, s1, s2, ks, n, p, p1, last, wrote, spelled, fresh, filled, some⟩ :=
    Statement.block_ok (Statement.statementWithin_compiled _) sound run
  exact ⟨code, .inl ⟨s1, s2, ks, n, p, p1, last, spelled⟩, wrote, spelled.straight, fresh, filled,
    some⟩

lemma ActionWritten.lays {code : Awk.Code} (h : ActionWritten s s' code) : s.Lays s' := by
  obtain ⟨⟨ls, same, written⟩, straight, -, filled, some⟩ := h
  refine ⟨ls, same, written.laid (Awk.Code.tidy straight filled), ?_⟩
  rw [← written.isEmpty_eq] at some
  simpa using some

lemma action_lays (sound : s.Sound) (run : action s = .ok () s') : s.Lays s' :=
  (action_ok sound run).elim fun _ h => h.2.lays

lemma ruleAction_ok (sound : s.Sound) (run : ruleAction s = .ok () s') :
    ∃ code, Acts s s' code ∧ ActionWritten s s' code := by
  rw [ruleAction, atBracket_bind] at run
  split at run
  · exact action_ok sound run
  · rw [atStatementEnd_bind] at run
    split at run
    · obtain ⟨ls, rfl, shows⟩ := emit_ok sound run
      refine ⟨_, .inr rfl, ⟨ls, rfl, .single (.plain _) shows⟩, .line (by decide) .done, trivial,
        trivial, rfl⟩
    · exact absurd run unexpected_ne_ok

/-- The action of a rule under a line that opens its block, and lines that stand
before the action there. -/
lemma ruleAction_under (sound : s.Sound)
    (shows : Shows s.listing.depth text hs) (heads : Heads text)
    (before : Laid (s.listing.depth + 1) bs)
    (run : restoring ruleAction (fun s => { s with listing := s.listing.dedent })
      (s.nested 1 (hs ++ bs)) = .ok () s') : s.Lays s' := by
  obtain ⟨s1, acted, rfl⟩ := restoring_ok run
  obtain ⟨code, -, h⟩ := ruleAction_ok (sound.nested 1 _) acted
  obtain ⟨ls, same, laid, some⟩ := h.lays
  have depth : (s.nested 1 (hs ++ bs)).listing.depth = s.listing.depth + 1 := by
    simp [nested]
  rw [depth] at laid
  refine ⟨hs ++ (bs ++ ls), ?_, .block shows heads (before.append laid) (by simp [some]),
    by simp [some]⟩
  simp [same, nested]

lemma lays_after {s1 : Session} {ls : List String}
    (same : s1.listing = s.listing.extend ls) (straight : b.Straight)
    (written : Written Eq s.listing.depth b ls) (h : s1.Lays s') : s.Lays s' := by
  obtain ⟨ls', same', laid, some⟩ := h
  rw [same, extend_toPosition] at laid
  refine ⟨ls ++ ls', ?_, (written.laid straight.tidy).append laid, by simp [some]⟩
  rw [same', same, extend_extend]

lemma isPlain_rangeFlag (t : Table) : IsPlain (t.rangeFlag.2.symbol t.rangeFlag.1).python := by
  have made : t.rangeFlag.2.symbol t.rangeFlag.1 = (t.push _).2.symbol t.size := rfl
  rw [made, Table.symbol_push, if_pos rfl]
  exact IsPlain.append (by decide : IsPlain "self._range_") _

/-- The lines at the head of a range: those that work for its end, and that which looks
for it, stand under the test. -/
lemma rangeHead_ok {start : Fragment} (sound : s.Sound) (run : rangeHead start s = .ok () s') :
    ∃ last s2, ∃ s3 : Session, ∃ b taken flag hs xs, condition s.past.pastLines = .ok last s2 ∧
      s2.listing = s.listing.extend taken ∧ b.Straight ∧ Written Eq s.listing.depth b taken ∧
      (∃ t : Table, flag = (t.rangeFlag.2.symbol t.rangeFlag.1).python) ∧
      s3.Sound ∧ s3.cursor = s2.cursor ∧ s3.listing = s.listing ∧
      Shows s.listing.depth s!"if {flag} or ({start.text}):" hs ∧
      Shows (s.listing.depth + 1) s!"{flag} = not ({last.text})" xs ∧
      s' = s3.nested 1 (hs ++ (deeper 1 taken ++ xs)) := by
  rw [rangeHead, advance_bind, skipNewlines_bind, mark_bind] at run
  obtain ⟨last, s2, second, run⟩ := bind_ok.mp run
  have effect := moves_condition.ok (sound.advance.skip _) second
  obtain ⟨b, taken, same, straight, written⟩ := effect.listing
  have since : s2.listing.takeSince s.listing.mark = (taken, s.listing) := by
    rw [same]
    exact takeSince_extend _ _
  rw [takeSince_bind, since, intern_bind, pythonOf_bind] at run
  let s3 : Session := { s2 with listing := s.listing, table := s2.table.rangeFlag.2 }
  have sound3 : s3.Sound := (effect.sound.grows (Table.grows_rangeFlag s2.table)).same rfl rfl
  obtain ⟨_, s4, shown, run⟩ := bind_ok.mp run
  obtain ⟨hs, rfl, shows⟩ := emit_ok sound3 shown
  rw [written_eq_nested, nested_indent, nested_appendLines] at run
  obtain ⟨xs, shows', step⟩ := nested_emit 1 (hs ++ deeper 1 taken) sound3
    s!"{(s3.table.symbol s2.table.rangeFlag.1).python} = not ({last.text})" fun _ => pure ()
  rw [bind_pure] at step
  cases step.symm.trans run
  exact ⟨last, s2, s3, b, taken, _, hs, xs, second, same, straight, written, ⟨s2.table, rfl⟩,
    sound3, rfl, rfl, shows, shows', by rw [append_assoc]⟩

lemma rule_lays (sound : s.Sound) (run : rule s = .ok () s') : s.Lays s' := by
  obtain ⟨pattern, s1, first, run⟩ := bind_ok.mp run
  have effect := moves_condition.ok sound first
  obtain ⟨b, ls, same, straight, written⟩ := effect.listing
  refine lays_after same straight written ?_
  rw [atKind_bind] at run
  split at run
  case isFalse =>
    rw [patternHead, bind_assoc] at run
    obtain ⟨_, s2, shown, run⟩ := bind_ok.mp run
    obtain ⟨hs, rfl, shows⟩ := emit_ok effect.sound shown
    exact ruleAction_under effect.sound shows ((heads_if.append _).append _) .nil
      (by rw [append_nil]; exact run)
  case isTrue =>
    obtain ⟨_, s4, head, run⟩ := bind_ok.mp run
    obtain ⟨last, s2, s3, c, taken, _, hs, xs, -, -, straight', written', ⟨t, rfl⟩, sound3, -,
      listing, shows, shows', rfl⟩ := rangeHead_ok effect.sound head
    have lines : Laid (s1.listing.depth + 1) (deeper 1 taken) :=
      (Nat.add_comm 1 _ ▸ written'.deeper 1).laid straight'.tidy
    have lays := ruleAction_under (s := s3) sound3 (listing.symm ▸ shows)
      ((((heads_if.append _).append _).append _).append _)
      (listing.symm ▸ lines.append
        (.line shows' ((((isPlain_rangeFlag t).append _).append _).append _))) run
    rwa [Lays, listing] at lays

/-! ### Functions -/

/-- The lines before the body of a function, under the line of its name. -/
def ownerLines (d : Nat) (lines : List String) : List String :=
  ("_locals=AwkpyRuntimeVarOwner()" :: lines).map (indentation d ++ ·)

lemma functionBody_written (method : String) (params : List Parameter) (sound : s.Sound) :
    ∃ hs, Shows s.listing.depth (s!"def {method}(" ++
        Text.join ", " ("self" :: params.map Parameter.signature) ++ "):") hs ∧
      functionBody method params s =
        restoring action (closeBody (s.listing.mark + (hs.length + 1)) params)
          { s.nested 1 (hs ++ ownerLines (s.listing.depth + 1) (params.map (·.line))) with
            table := redirected params s.table } := by
  obtain ⟨hs, run, shows⟩ := emit_run sound (s!"def {method}(" ++
    Text.join ", " ("self" :: params.map Parameter.signature) ++ "):")
  refine ⟨hs, shows, ?_⟩
  have opened : (s.written hs).listing.indent.line "_locals=AwkpyRuntimeVarOwner()" =
      (s.listing.extend (hs ++ ownerLines (s.listing.depth + 1) [])).inward 1 := by
    rw [line_eq_extend]
    simp only [written, indent_extend, extend_extend]
    simp [ownerLines, inward, Listing.indent]
  have listed : params.foldl (fun l p => l.line p.line)
      ((s.listing.extend (hs ++ ownerLines (s.listing.depth + 1) [])).inward 1) =
      (s.listing.extend
        (hs ++ ownerLines (s.listing.depth + 1) (params.map (·.line)))).inward 1 := by
    have lines := foldl_line (params.map (·.line))
      ((s.listing.extend (hs ++ ownerLines (s.listing.depth + 1) [])).inward 1)
    rw [foldl_map] at lines
    rw [lines]
    simp [ownerLines]
  have marked : ((s.listing.extend (hs ++ ownerLines (s.listing.depth + 1) [])).inward 1).mark =
      s.listing.mark + (hs.length + 1) := by
    change (s.listing.extend _).mark = _
    rw [mark_extend]
    simp [ownerLines]
  have step : functionBody method params s =
      restoring action (closeBody
        ((s.written hs).listing.indent.line "_locals=AwkpyRuntimeVarOwner()").mark params)
        { s.written hs with
          table := redirected params s.table
          listing := params.foldl (fun l p => l.line p.line)
            ((s.written hs).listing.indent.line "_locals=AwkpyRuntimeVarOwner()") } := by
    rw [functionBody]
    simp only [Bind.bind, EStateM.bind, run]
    rfl
  rw [step, opened, listed, marked]
  rfl

/-- The line of a parameter, once it is known how it is used. -/
def Parameter.settled (table : Table) (p : Parameter) : String :=
  if table.isArray p.id then p.arrayLine else p.line

lemma cutChars_indented (rest : List Char) (k : Nat) (other : c ≠ ' ') :
    Text.cutChars (c :: rest) (replicate k ' ' ++ c :: rest) = some (replicate k ' ', []) := by
  induction k with
  | zero =>
    have whole : (c :: rest).isPrefixOf? (c :: rest) = some [] :=
      isPrefixOf?_eq_some_iff_append_eq.mpr (append_nil _)
    rw [replicate_zero, nil_append, Text.cutChars, whole]
  | succ k ih =>
    have none : (c :: rest).isPrefixOf? (' ' :: (replicate k ' ' ++ c :: rest)) = none := by
      simp [isPrefixOf?, other]
    rw [replicate_succ, cons_append, Text.cutChars, none, ih]
    rfl

lemma Parameter.replaceFirst_line (p : Parameter) (d : Nat) :
    Text.replaceFirst p.line p.arrayLine (indentation d ++ p.line) =
      indentation d ++ p.arrayLine := by
  have start : ∃ rest, p.line.toList = '_' :: rest :=
    ⟨("locals." ++ p.name ++ "=" ++ p.name).toList, by simp [Parameter.line]; rfl⟩
  obtain ⟨rest, chars⟩ := start
  have cut : Text.cut? p.line (indentation d ++ p.line) =
      some (indentation d, "") := by
    rw [Text.cut?, String.toList_append, toList_indentation, chars,
      cutChars_indented rest _ (by decide), Option.map_some, ← toList_indentation d]
    simp
  rw [Text.replaceFirst, cut]
  simp

lemma settle_extend (table : Table) (l : Listing) (a b : List String) (p : Parameter) (d : Nat) :
    p.settle table (l.extend (a ++ [indentation d ++ p.line] ++ b)) (l.mark + a.length) =
      l.extend (a ++ [indentation d ++ p.settled table] ++ b) := by
  rw [Parameter.settle, Parameter.settled]
  split
  · rw [replace_extend, p.replaceFirst_line]
  · rfl

lemma settleParameters_extend (table : Table) (l : Listing) (a b : List String)
    (params : List Parameter) (d : Nat) : settleParameters table (l.mark + a.length) params
      (l.extend (a ++ params.map (indentation d ++ ·.line) ++ b)) =
      l.extend (a ++ params.map (indentation d ++ ·.settled table) ++ b) := by
  rw [settleParameters]
  -- the parameters before have been settled
  have from_ : ∀ (n : Nat) (a : List String) (first : Nat), first + n = l.mark + a.length →
      (params.zipIdx n).foldl (fun l entry => entry.1.settle table l (first + entry.2))
        (l.extend (a ++ params.map (indentation d ++ ·.line) ++ b)) =
        l.extend (a ++ params.map (indentation d ++ ·.settled table) ++ b) := by
    induction params with
    | nil => simp
    | cons p params ih =>
      intro n a first place
      have step := settle_extend table l a (params.map (indentation d ++ ·.line) ++ b) p d
      have rest := ih (n + 1) (a ++ [indentation d ++ p.settled table]) first
        (by rw [length_append, length_singleton]; omega)
      simp only [append_assoc, cons_append, nil_append] at step rest
      rw [zipIdx_cons, foldl_cons, place]
      simp only [map_cons, append_assoc, cons_append]
      rw [step, rest]
  exact from_ 0 a _ (Nat.add_zero _)

lemma Parameter.isPlain_settled (p : Parameter) (table : Table) : IsPlain (p.settled table) := by
  have owner : IsPlain (toString "_locals.") := by decide
  rw [Parameter.settled]
  split
  · unfold Parameter.arrayLine
    iterate 9 refine IsPlain.append ?_ _
    exact owner
  · unfold Parameter.line
    iterate 3 refine IsPlain.append ?_ _
    exact owner

/-- The lines of a function: that of its name, its body one level deeper, and an empty
one. -/
lemma functionBody_extend (sound : s.Sound)
    (held : Held s.table params) (run : functionBody method params s = .ok () s') :
    ∃ hs body, Shows s.listing.depth (s!"def {method}(" ++
        Text.join ", " ("self" :: params.map Parameter.signature) ++ "):") hs ∧
      Laid (s.listing.depth + 1) body ∧ body ≠ [] ∧
      s'.listing = s.listing.extend (hs ++ body ++ [indentation s.listing.depth]) := by
  obtain ⟨hs, shows, step⟩ := functionBody_written method params sound
  rw [step] at run
  obtain ⟨s2, acted, rfl⟩ := restoring_ok run
  have swapped := sound.swap (swaps_redirected sound.proper fun p mem => (held p mem).1)
  obtain ⟨ys, same, laid, some⟩ := action_lays (swapped.nested 1 _) acted
  let d := s.listing.depth
  let owner := indentation (d + 1) ++ "_locals=AwkpyRuntimeVarOwner()"
  let settled := params.map (indentation (d + 1) ++ ·.settled s2.table)
  -- the lines under that of the name
  have body : Laid (d + 1) (owner :: settled ++ ys) := by
    have before : Laid (d + 1) (ownerLines (d + 1) (params.map (·.settled s2.table))) := by
      refine .lines fun text mem => ?_
      rcases mem_cons.mp mem with rfl | mem
      · decide
      · obtain ⟨p, -, rfl⟩ := mem_map.mp mem
        exact p.isPlain_settled _
    have lines : ownerLines (d + 1) (params.map (·.settled s2.table)) = owner :: settled := by
      simp [ownerLines, owner, settled]
    rw [lines] at before
    have depth : (nested { s with table := redirected params s.table } 1
        (hs ++ ownerLines (d + 1) (params.map (·.line)))).listing.depth = d + 1 := by
      simp [nested, d]
    exact before.append (depth ▸ laid)
  refine ⟨hs, _, shows, body, by simp, ?_⟩
  have place : s.listing.mark + (hs.length + 1) =
      (s.listing.inward 1).mark + (hs ++ [owner]).length := by
    rw [length_append]
    rfl
  have written : s2.listing = (s.listing.inward 1).extend
      ((hs ++ [owner]) ++ params.map (indentation (d + 1) ++ ·.line) ++ ys) := by
    simp [same, nested, ownerLines, owner, d, Function.comp_def]
  have close :=
    settleParameters_extend s2.table (s.listing.inward 1) (hs ++ [owner]) ys params (d + 1)
  rw [← place, ← written] at close
  simp only [closeBody, close, inward_extend, inward_dedent, inward_zero]
  rw [line_eq_extend, extend_extend, extend_toPosition]
  simp [settled, d]

lemma functionBody_lays (sound : s.Sound)
    (held : Held s.table params) (run : functionBody method params s = .ok () s') : s.Lays s' := by
  obtain ⟨hs, body, shows, laid, some, same⟩ := functionBody_extend sound held run
  have whole := (Laid.block shows
    ((((heads_def.append _).append _).append _).append _) laid some).blank
    (by simp [some]) (isCode_indentation s.listing.depth)
  exact ⟨_, same, whole, by simp⟩

/-! ### Before the body of a function no line is written -/

lemma defineFunction_ok (run : defineFunction s = .ok name s') : s.symbol.isVariable = true ∧
      s'.table = s.table.set s.cursor.current.symbol
        { s.symbol with kind := .function { strategy := .user }, initial := "" } ∧
      s'.listing = s.listing ∧
      name = (Text.after? "self." s.symbol.python).getD s.symbol.python := by
  rw [defineFunction, current_bind, symbol_bind] at run
  cases kind : s.symbol.kind with
  | var use =>
    simp only [kind] at run
    split at run
    · cases run
    · cases run
      exact ⟨Symbol.isVariable_iff.mpr ⟨use, kind⟩, rfl, rfl, rfl⟩
  | function f =>
    obtain ⟨strategy, library⟩ := f
    cases strategy <;> simp only [kind] at run <;> cases run
  | _ =>
    simp only [kind] at run
    cases run

lemma opening_ok (run : opening s = .ok found s') : ∃ id, (s.table.symbol id).isVariable = true ∧
      s'.table = s.table.set id
        { s.table.symbol id with kind := .function { strategy := .user }, initial := "" } ∧
      s'.listing = s.listing ∧
      found.1 = (Text.after? "self." (s.table.symbol id).python).getD
        (s.table.symbol id).python := by
  rw [opening, advance_bind] at run
  obtain ⟨method, s1, named, run⟩ := bind_ok.mp run
  obtain ⟨var, table, listing, name⟩ := defineFunction_ok named
  obtain ⟨-, run⟩ := bind_bracket_ok run
  rw [skipNewlines_bind, remaining_bind] at run
  obtain ⟨tokens, s3, read, run⟩ := bind_ok.mp run
  obtain ⟨table', listing', -⟩ := parameters_ok read
  rw [advance_bind, skipNewlines_bind, atBracket_bind] at run
  split at run
  · exact absurd run (by simp [bind_ok])
  · cases run
    exact ⟨_, var, table'.trans table, listing'.trans listing, name⟩

/-! ### Items -/

/-- The lines of every bucket are laid out. -/
def Arranged (l : Listing) : Prop := ∀ bucket, Laid 0 (l.linesOf bucket).toList

lemma linesOf_extend (l : Listing) (ls : List String) (bucket : Bucket) :
    ((l.extend ls).linesOf bucket).toList =
      (l.linesOf bucket).toList ++ if bucket = l.bucket then ls else [] := by
  rw [extend, lines]
  rcases l with ⟨⟨here, depth⟩, _, _, _, _, _, _⟩
  rcases here with p | - <;> rcases bucket with q | -
  · cases p <;> cases q <;> simp [setLines, linesOf]
  · cases p <;> simp [setLines, linesOf]
  · cases q <;> simp [setLines, linesOf]
  · simp [setLines, linesOf]

/-- Lines that are laid out come behind those of one bucket. -/
def Fills (l l' : Listing) (bucket : Bucket) : Prop :=
  ∃ ls, Laid 0 ls ∧ ∀ other, (l'.linesOf other).toList =
    (l.linesOf other).toList ++ if other = bucket then ls else []

lemma Fills.arranged (h : Fills l l' bucket) (arranged : Arranged l) : Arranged l' := by
  obtain ⟨ls, laid, lines⟩ := h
  intro other
  rw [lines]
  refine (arranged other).append ?_
  split
  · exact laid
  · exact .nil

lemma inBucket_ok (run : inBucket bucket x s = .ok () s') :
    ∃ s1, x { s with listing := s.listing.enter bucket } = .ok () s1 ∧ s'.table = s1.table ∧
      ∀ ls, s1.listing = (s.listing.enter bucket).extend ls → ∀ other,
        (s'.listing.linesOf other).toList =
          (s.listing.linesOf other).toList ++ if other = bucket then ls else [] := by
  have step : inBucket bucket x s = restoring x (fun s' =>
      { s' with listing := s'.listing.leave s.listing.toPosition })
      { s with listing := s.listing.enter bucket } := rfl
  rw [step] at run
  obtain ⟨s1, ran, rfl⟩ := restoring_ok run
  refine ⟨s1, ran, rfl, fun ls same other => ?_⟩
  change (s1.listing.linesOf other).toList = _
  rw [same, linesOf_extend]
  rfl

lemma inBucket_fills (lays : ∀ s1, x { s with listing := s.listing.enter bucket } = .ok () s1 →
      Lays { s with listing := s.listing.enter bucket } s1)
    (run : inBucket bucket x s = .ok () s') : Fills s.listing s'.listing bucket := by
  obtain ⟨s1, ran, -, lines⟩ := inBucket_ok run
  obtain ⟨ls, same, laid, -⟩ := lays s1 ran
  exact ⟨ls, laid, lines ls same⟩

lemma definition_fills (sound : s.Sound) (kind : s.symbol.kind = .keyword .function)
    (run : definition s = .ok () s') : Fills s.listing s'.listing .functions := by
  rw [definition_eq] at run
  rcases opening_cases sound kind with ⟨e, s1, failed, -⟩ | ⟨method, params, s1, found, crosses,
    held, -⟩
  · exact absurd run (by simp [bind_ok, failed])
  · obtain ⟨_, _, found', run⟩ := bind_ok.mp run
    cases found.symm.trans found'
    obtain ⟨_, -, -, listing, -⟩ := opening_ok found
    rw [← listing]
    exact inBucket_fills (fun s2 ran => functionBody_lays (crosses.sound.same rfl rfl) held ran) run

lemma item_fills (sound : s.Sound) (other : s.symbol.kind ≠ .keyword .function)
    (run : item s = .ok () s') : ∃ part, Fills s.listing s'.listing (.part part) := by
  have noticed : Sound { s with hasMainLoop := true } := sound.same rfl rfl
  have acted : ∀ {s0 : Session} {part : Section}, s0.Sound → s0.listing = s.listing →
      inBucket (.part part) action s0 = .ok () s' →
      ∃ part, Fills s.listing s'.listing (.part part) := fun sound same run =>
    ⟨_, same ▸ inBucket_fills (fun _ ran => action_lays (sound.same rfl rfl) ran) run⟩
  have ruled : (do needMainLoop; inBucket (.part .record) rule) s = .ok () s' →
      ∃ part, Fills s.listing s'.listing (.part part) := fun run =>
    ⟨_, inBucket_fills (s := { s with hasMainLoop := true })
      (fun _ ran => rule_lays (noticed.same rfl rfl) ran) run⟩
  rw [item, kind_bind] at run
  cases kind : s.symbol.kind with
  | heading heading =>
    simp only [kind] at run
    rw [part, advance_bind, atBracket_bind] at run
    split at run
    · exact absurd run (by simp [bind_ok])
    · beta_reduce at run
      split at run
      · have passed : Sound { s.past with hasMainLoop := true } :=
          sound.advance.same rfl rfl
        exact acted passed rfl run
      · exact acted sound.advance rfl run
  | bracket bracket =>
    cases bracket with
    | openBrace =>
      simp only [kind] at run
      exact acted noticed rfl run
    | _ =>
      simp only [kind] at run
      exact ruled run
  | keyword word =>
    cases word with
    | function => exact absurd kind other
    | _ =>
      simp only [kind] at run
      exact ruled run
  | _ =>
    simp only [kind] at run
    exact ruled run

lemma item_arranged (sound : s.Sound) (arranged : Arranged s.listing)
    (run : item s = .ok () s') : Arranged s'.listing := by
  by_cases kind : s.symbol.kind = .keyword .function
  · rw [item_of_function kind] at run
    exact (definition_fills sound kind run).arranged arranged
  · obtain ⟨part, fills⟩ := item_fills sound kind run
    exact fills.arranged arranged

lemma items_arranged (sound : s.Sound) (arranged : Arranged s.listing)
    (run : items fuel s = .ok () s') : Arranged s'.listing := by
  induction fuel generalizing s with
  | zero => cases run
  | succ fuel ih =>
    have first : s.Trip (next s) := (Session.Trip.refl sound).pastTerminators
    have start : Arranged (next s).listing := arranged
    rw [items_succ] at run
    split at run
    · cases run
      exact start
    · obtain ⟨_, s1, compiled, run⟩ := bind_ok.mp run
      have leaves := leaves_item first.sound
      rw [compiled] at leaves
      exact ih leaves.sound (item_arranged first.sound start compiled) run

end Item

end AwkToPython
