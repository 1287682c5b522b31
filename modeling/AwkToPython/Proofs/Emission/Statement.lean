import AwkToPython.Proofs.Emission.Expression

/-!
# Statements only add lines

Loops take lines out and put lines in front of others, but never before the
place where they began.
-/
namespace AwkToPython.Statement

open Compile Expression Text

variable {p : Char → Prop} [HoldsGraphic p] {inner : Compile Unit} [h : Quiet p inner]
  {f : Fragment}

/-! ### Simple statements -/

omit [HoldsGraphic p] in
instance quiet_endSimple : Quiet p endSimple := by
  unfold endSimple
  infer_instance

instance quiet_expressionStatement : Quiet p expressionStatement := by
  refine ⟨.next fun k => (emits_expression _).bind fun f hf => ?_⟩
  split
  · exact .line hf.text Quiet.emits
  · exact Quiet.emits

instance quiet_jump : Quiet p jump :=
  ⟨emits_symbol.bind fun _ hs => .next fun _ => .line hs.python Quiet.emits⟩

instance quiet_exit : Quiet p exit := by
  have raised : Emits p (do emit "raise AwkExit"; endSimple) fun _ => True :=
    .line (.fixed rfl) Quiet.emits
  refine ⟨.next fun _ => .next fun atEnd => ?_⟩
  split
  · refine (emits_expression {}).bind fun code hc => .line ?_ raised
    simp (disch := decide) [hc.text]
  · exact raised

instance quiet_returnValue : Quiet p returnValue := by
  refine ⟨.next fun _ => .next fun atEnd => ?_⟩
  split
  · exact .line (.fixed rfl) Quiet.emits
  · refine (emits_expression {}).bind fun value hv => .line ?_ Quiet.emits
    simp (disch := decide) [hv.text]

instance quiet_delete : Quiet p delete := by
  refine ⟨.next fun _ => .next fun token => .next fun s => ?_⟩
  split
  · exact .unexpected_bind _
  refine .next fun _ => (emits_pythonOf _).bind fun array ha => ?_
  refine .next fun _ => .next fun bracket => ?_
  split
  · refine .next fun _ => (emits_subscript emits_compiler).bind fun key hk => .line ?_ Quiet.emits
    simp (disch := decide) [ha, hk]
  · refine .line ?_ Quiet.emits
    simp (disch := decide) [ha]

/-! ### Output -/

omit [HoldsGraphic p] in
instance quiet_atOutputEnd : Quiet p atOutputEnd := by
  unfold atOutputEnd
  infer_instance

lemma emits_moreOutput (context : Context) (hf : f.Over p) :
    Emits p (moreOutput context f) fun fs => ∀ f ∈ fs, f.Over p :=
  .next fun _ => emits_moreItems (emits_expression context) _ (by simpa using hf)

lemma emits_outputItems : Emits p outputItems fun fs => ∀ f ∈ fs, f.Over p := by
  have compiler : PartsEmit p _ := emits_compiler
  refine .next fun atEnd => ?_
  split
  · exact .pure (by simp)
  · refine .next fun bracket => ?_
    split
    · refine (emits_arguments compiler).bind fun group hg => ?_
      refine .next fun atEnd => ?_
      split
      · exact .pure hg
      · split
        case h_1 first =>
          refine (compiler (.rest _ _ _) ((hg first (by simp)).grouped)).bind fun g hg => ?_
          exact .next fun _ => emits_moreOutput _ hg
        · exact .unexpected _
    · exact (emits_expression _).bind fun first hf => emits_moreOutput _ hf

/-- The texts of a redirection are over a set. -/
structure Redirection.Over (p : Char → Prop) (r : Redirection) : Prop where
  target : Text.Over p r.target
  mode : Text.Over p r.mode

lemma emits_redirection : Emits p redirection fun found => ∀ r, found = some r → r.Over p := by
  refine .next fun s => ?_
  split
  · exact .pure (by simp)
  case h_2 mode found =>
    have hm : Over p mode := by
      rw [redirectionMode?] at found
      split at found
      · cases found
        exact .fixed rfl
      · split at found
        · cases found
          exact .fixed rfl
        · split at found
          · cases found
            exact .fixed rfl
          · cases found
    refine .next fun _ =>
      (emits_compiler (.operation _ _) trivial).bind fun target ht => ?_
    refine .next fun _ => .pure fun r same => ?_
    cases same
    exact ⟨ht.text, hm⟩

lemma printCall_over (h : ∀ f ∈ fs, f.Over p) : Over p (printCall fs) := by
  rw [printCall]
  split
  · exact .fixed rfl
  · have comma : Over p ", " := .fixed rfl
    have printed : ∀ text ∈ fs.map printed, Over p text := by
      intro text mem
      obtain ⟨f, inside, rfl⟩ := List.mem_map.mp mem
      rw [Statement.printed]
      split
      · exact (h f inside).text
      · simp (disch := decide) [(h f inside).text]
    have joined := Over.join comma printed
    simp (disch := decide) [joined]

lemma emits_printfCall (h : ∀ f ∈ fs, f.Over p) : Emits p (printfCall fs) (Over p) := by
  rw [printfCall]
  split
  · exact .unexpected_bind _
  · refine (emits_formatted h).bind fun code hc => .pure ?_
    simp (disch := decide) [hc]

instance quiet_print (withFormat : Bool) : Quiet p (print withFormat) := by
  refine ⟨.next fun _ => emits_outputItems.bind fun fs hfs => ?_⟩
  refine emits_redirection.bind fun redirect hr => ?_
  have ending : ∀ call, Over p call → Emits p (writeCall redirect call) fun _ => True := by
    intro call hc
    cases redirect with
    | none => exact .line hc Quiet.emits
    | some r =>
      have ht := (hr r rfl).target
      have hm := (hr r rfl).mode
      refine .line ?_ <| .line ?_ Quiet.emits <;>
        simp (disch := decide) [ht, hm, hc]
  cases withFormat with
  | true => exact (emits_printfCall hfs).bind ending
  | false => exact ending _ (printCall_over hfs)

/-! ### Blocks and branches -/

omit [HoldsGraphic p] in
instance quiet_statements (fuel : Nat) : Quiet p (statements inner fuel) := by
  induction fuel with
  | zero => exact ⟨.throw _⟩
  | succ fuel ih =>
    rw [statements]
    infer_instance

instance quiet_passUnlessWritten (before : Nat) : Quiet p (passUnlessWritten before) := by
  have : Quiet p (emit "pass") := ⟨emits_emit (.fixed rfl)⟩
  unfold passUnlessWritten
  infer_instance

instance quiet_block : Quiet p (block inner) := by
  unfold block
  infer_instance

omit [HoldsGraphic p] in
instance quiet_indented {α : Type} {x : Compile α} [hx : Quiet p x] : Quiet p (indented x) :=
  ⟨.next fun _ => hx.emits.restoring_depth (·.depth - 1)⟩

instance quiet_body : Quiet p (body inner) := by
  unfold body
  infer_instance

lemma emits_parenthesisedCondition : Emits p parenthesisedCondition (Fragment.Over p) :=
  .next fun _ => .next fun _ =>
    emits_condition.bind fun _ hf => .next fun _ =>
      .next fun _ => .pure hf

instance quiet_branch : Quiet p (branch inner) := by
  have : Quiet p (emit "else:") := ⟨emits_emit (.fixed rfl)⟩
  refine ⟨.next fun _ => emits_parenthesisedCondition.bind fun test ht => .line ?_ ?_⟩
  · simp (disch := decide) [ht.text]
  · have other : Quiet p (do
        if ← atKind .elseWord then
          advance
          emit "else:"
          body inner) := inferInstance
    dsimp only
    exact Quiet.emits

/-! ### Loops -/

lemma emits_breakUnless (ht : f.Over p) : Emits p (breakUnless f) fun _ => True := by
  have head : Over p s!"if not ({f.text}):" := by
    simp (disch := decide) [ht.text]
  have leave : Over p "break" := .fixed rfl
  exact .line head <| .next fun _ => .line leave Quiet.emits

instance quiet_whileLoop : Quiet p (whileLoop inner) := by
  refine ⟨.next fun _ => emits_parenthesisedCondition.since fun test lines ht hs => ?_⟩
  split
  · refine .line ?_ Quiet.emits
    simp (disch := decide) [ht.text]
  · have head : Over p "while True:" := .fixed rfl
    exact .line head <| (emits_appendLines hs 1).bind fun _ _ =>
      .next fun _ => (emits_breakUnless ht).bind fun _ _ => Quiet.emits

lemma emits_line (h : Over p text) : Emits p (write (·.line text)) fun _ => True := by
  refine .step _ _ (fun _ => rfl) fun s legible => ⟨trivial, ?_⟩
  dsimp only
  rw [Listing.line_eq_extend]
  refine legible.adds_listing (legible.listing.extend fun line mem => ?_)
    ((Listing.Appends.refl _).extend _)
  rw [List.mem_singleton.mp mem]
  exact Over.append.mpr ⟨.indentation _, h⟩

/-- A listing that has come from another, with at least some lines more, all over
a set. -/
structure Longer (p : Char → Prop) (l0 : Listing) (n : Nat) (l : Listing) : Prop where
  appends : l0.Appends l
  legible : l.Over p
  room : l0.mark + n ≤ l.mark

omit [HoldsGraphic p] in
/-- Lines are put among those written since a mark. -/
lemma Longer.splice (h : Longer p l0 n l) (hl : ∀ line ∈ ls, Over p line) (inside : k ≤ n) :
    Longer p l0 (n + ls.length) (l.splice (l0.mark + k) ls) := by
  have room := h.room
  refine ⟨h.appends.splice (by omega) (by omega) ls, h.legible.splice hl _, ?_⟩
  rw [Listing.mark_splice l (by omega)]
  omega

lemma Longer.insert (h : Longer p l0 n l) (ht : Over p text) (inside : k ≤ n) :
    Longer p l0 (n + 1) (l.insert (l0.mark + k) text) := by
  have line : ∀ line ∈ [Listing.indentation l.depth ++ text], Over p line := by
    intro line mem
    rw [List.mem_singleton.mp mem]
    exact Over.append.mpr ⟨.indentation _, ht⟩
  exact h.splice line inside

lemma insertLoopHead_adds {s0 s : Session} (h : s0.Adds p s) {flag : String}
    {lines : List String} (hflag : Over p flag) (ht : f.Over p) (hs : ∀ line ∈ lines, Over p line) :
    ∃ s', insertLoopHead s0.listing.mark flag f lines s = .ok () s' ∧ s0.Adds p s' := by
  have text := ht.text
  have start : Longer p s0.listing 0 s.listing := ⟨h.listing, h.legible.listing, h.listing.mark_le⟩
  have done : ∀ {n : Nat} {l : Listing}, Longer p s0.listing n l →
      s0.Adds p { s with listing := l } := fun longer => h.relist longer.legible longer.appends
  rw [insertLoopHead]
  split
  · have head : Over p s!"while {flag} or ({f.text}):" := by
      simp (disch := decide) [hflag, text]
    exact ⟨_, rfl, done (start.insert head (Nat.le_refl _))⟩
  · -- every line is put behind those that were put before it
    have head : Over p "while True:" := .fixed rfl
    have asked : Over p s!"    if not {flag}:" := by
      simp (disch := decide) [hflag]
    have left : Over p s!"        if not ({f.text}):" := by
      simp (disch := decide) [text]
    have leave : Over p "            break" := .fixed rfl
    have l1 := start.insert head (Nat.le_refl 0)
    have l2 := l1.insert asked (k := 1) (by omega)
    have l3 := l2.splice (Listing.Over.indented hs 2) (k := 2) (by omega)
    rw [show (Listing.deeper 2 lines).length = lines.length from List.length_map _] at l3
    have l4 := l3.insert left (k := 2 + lines.length) (by omega)
    have l5 := l4.insert leave (k := 3 + lines.length) (by omega)
    rw [← Nat.add_assoc] at l4
    simp only [← Nat.add_assoc] at l5
    exact ⟨_, rfl, done l5⟩

instance quiet_doLoop : Quiet p (doLoop inner) := by
  refine ⟨.next fun _ => .next fun n => ?_⟩
  have flag : Over p s!"do_first_{n}" := by
    simp (disch := decide)
  generalize s!"do_first_{n}" = name at flag ⊢
  have raised : Over p s!"{name}=True" := by
    simp (disch := decide) [flag]
  have lowered : Over p s!"{name}=False" := by
    simp (disch := decide) [flag]
  refine .line raised <| ?_
  -- what comes up to the test adds lines behind the mark, and the head goes there
  have first : Emits p (do
      indent
      write (·.line s!"{name}=False")
      dedent
      body inner
      skipTerminators
      if !(← atKind (.keyword .whileLoop)) then unexpected (.mark "while")
      advance
      let before ← mark
      let test ← parenthesisedCondition
      let lines ← takeSince before
      return (test, lines)) (fun found => found.1.Over p ∧ ∀ line ∈ found.2, Over p line) := by
    refine .next fun _ => (emits_line lowered).bind fun _ _ => .next fun _ => ?_
    refine .next fun _ => .next fun _ => .next fun here => ?_
    split
    · exact .unexpected_bind _
    · exact .next fun _ =>
        emits_parenthesisedCondition.since fun test lines ht hs => .pure ⟨ht, hs⟩
  have whole := first.behind (R := fun _ => True) (f := fun start found => do
    insertLoopHead start name found.1 found.2
    endSimple) ?_
  · refine Eq.mp ?_ whole
    congr 1
    simp only [bind_assoc]
    refine bind_congr fun start => bind_congr fun _ => bind_congr fun _ => bind_congr fun _ =>
      bind_congr fun _ => bind_congr fun _ => bind_congr fun here => ?_
    split <;> simp only [bind_assoc, pure_bind]
  · rintro ⟨test, lines⟩ s0 s ⟨ht, hs⟩ adds
    obtain ⟨s', run, adds'⟩ := insertLoopHead_adds adds flag ht hs
    have step : (do insertLoopHead s0.listing.mark name test lines; endSimple) s =
        endSimple s' := by
      simp only [Bind.bind, EStateM.bind, run]
    rw [step]
    obtain ⟨later, -⟩ := quiet_endSimple.emits s' adds'.legible
    exact ⟨adds'.trans later, fun _ _ _ => trivial⟩

instance quiet_forEach (key array : Token) : Quiet p (forEach inner key array) := by
  refine ⟨.next fun _ => .next fun _ => .next fun _ => .next fun _ => .next fun _ => ?_⟩
  refine .next fun _ => .next fun _ => (emits_pythonOf _).bind fun element he => ?_
  refine (emits_pythonOf _).bind fun array ha => .line ?_ Quiet.emits
  simp (disch := decide) [he, ha]

omit [HoldsGraphic p] in
lemma emits_optional [Quiet p absent] (hp : Emits p part (Fragment.Over p)) :
    Emits p (optional absent part) fun found => ∀ f, found = some f → f.Over p := by
  refine .next fun missing => ?_
  split
  · exact .pure (by simp)
  · refine hp.map fun f hf g same => ?_
    cases same
    exact hf

lemma emits_emitPart
    (h : ∀ f, part = some f → f.Over p) : Emits p (emitPart part) fun _ => True := by
  cases part with
  | none => exact .pure trivial
  | some f =>
    rw [emitPart]
    split
    · exact .pure trivial
    · exact emits_emit (h f rfl).text

lemma emits_generator (n : Nat) {test step : Option Fragment}
    {testLines stepLines : List String} (ht : ∀ f, test = some f → f.Over p)
    (hts : ∀ line ∈ testLines, Over p line) (hs : ∀ f, step = some f → f.Over p)
    (hss : ∀ line ∈ stepLines, Over p line) :
    Emits p (generator n test testLines step stepLines) fun _ => True := by
  have head : Over p s!"def _generator__{n}():" := by
    simp (disch := decide)
  have ending : Emits p (do
      emit "yield True"
      appendLines stepLines 2
      emitPart step
      dedent
      dedent) fun _ => True :=
    (emits_emit (.fixed rfl)).bind fun _ _ => (emits_appendLines hss 2).bind fun _ _ =>
      (emits_emitPart hs).bind fun _ _ => Quiet.emits
  refine .line head <| .next fun _ => ?_
  split
  case h_1 test _ =>
    have opened : Over p "while True:" := .fixed rfl
    refine .line opened <| (emits_appendLines hts 2).bind fun _ _ => ?_
    exact .next fun _ => (emits_breakUnless (ht test rfl)).bind fun _ _ => ending
  case h_2 test _ _ _ =>
    have tested : Over p ((test.map (·.text)).getD "True") := by
      cases test with
      | none => exact .fixed rfl
      | some f => exact (ht f rfl).text
    refine .line ?_ <| .next fun _ => ending
    simp (disch := decide) [tested]

instance quiet_countedLoop : Quiet p (countedLoop inner) := by
  refine ⟨.next fun _ => .next fun _ => ?_⟩
  refine (emits_optional (emits_expression {})).bind fun start hs => ?_
  refine .next fun _ => ?_
  have last : Emits p (do
      let step ← optional (atBracket .closeParen) (expression {})
      skipNewlines
      expectBracket .closeParen ")"
      return step) fun found => ∀ f, found = some f → f.Over p :=
    (emits_optional (emits_expression {})).bind fun step ht =>
      .next fun _ => .next fun _ => .pure ht
  -- the step lies within what the mark before the test bounds
  have parts : Emits p (do
      let test ← optional (atKey ";") condition
      expectSemicolon
      let before ← mark
      let step ← (do
        let step ← optional (atBracket .closeParen) (expression {})
        skipNewlines
        expectBracket .closeParen ")"
        return step)
      let stepLines ← takeSince before
      return (test, step, stepLines)) (fun found => (∀ f, found.1 = some f → f.Over p) ∧
        (∀ f, found.2.1 = some f → f.Over p) ∧ ∀ line ∈ found.2.2, Over p line) :=
    (emits_optional emits_condition).bind fun test ht =>
      .next fun _ => last.since fun step lines hstep hl =>
        .pure ⟨ht, hstep, hl⟩
  have whole := parts.since (R := fun _ => True) (f := fun found testLines => do
    let n ← nextTemporary
    emitPart start
    generator n found.1 testLines found.2.1 found.2.2
    emit s!"for _dummy__{n} in _generator__{n}():"
    body inner) ?_
  · simpa only [bind_assoc, pure_bind] using whole
  · rintro ⟨test, step, stepLines⟩ testLines ⟨ht, hstep, hss⟩ hts
    refine .next fun n => (emits_emitPart hs).bind fun _ _ => ?_
    refine (emits_generator n ht hts hstep hss).bind fun _ _ => ?_
    refine .line ?_ Quiet.emits
    simp (disch := decide)

omit [HoldsGraphic p] in
instance quiet_keysHead? : Quiet p keysHead? := by
  unfold keysHead?
  infer_instance

instance quiet_forLoop : Quiet p (forLoop inner) := by
  refine ⟨.next fun _ => .next fun here => ?_⟩
  split
  · exact .unexpected_bind _
  refine .next fun found => ?_
  split <;> exact Quiet.emits

/-! ### All statements -/

instance quiet_keywordStatement (word : Keyword) : Quiet p (keywordStatement inner word) := by
  unfold keywordStatement
  cases word <;> infer_instance

instance quiet_statement : Quiet p (statement inner) := by
  refine ⟨.next fun k => ?_⟩
  split <;> exact Quiet.emits

instance quiet_statementWithin (depth : Nat) : Quiet p (statementWithin depth) := by
  induction depth with
  | zero => exact ⟨.throw _⟩
  | succ depth ih =>
    rw [statementWithin]
    infer_instance

end AwkToPython.Statement

namespace AwkToPython.Compile

instance quiet_action {p : Char → Prop} [HoldsGraphic p] : Quiet p action := by
  unfold action
  infer_instance

end AwkToPython.Compile
