import AwkToPython.Proofs.Statement.Simple

/-!
# Every statement is compiled as its tree says

The constructs that hold other statements, and by induction on the depth of
nesting all statements.
-/
namespace AwkToPython

open Python (Block Written Shows)
open Compile Session Awk

namespace Statement

variable {inner : Compile Unit} {s s' : Session}
variable {ks : List SymbolKind} {b : Block String} {code : Code} {n : Nat}

lemma indented_ok {α : Type} {x : Compile α} {a : α} (h : indented x s = .ok a s') :
    ∃ s1, x { s with listing := s.listing.indent } = .ok a s1 ∧
      s' = { s1 with listing := s1.listing.dedent } := by
  rw [indented, indent, write_bind] at h
  rw [restoring] at h
  cases hx : x { s with listing := s.listing.indent } with
  | ok b s1 =>
    rw [hx] at h
    cases h
    exact ⟨s1, rfl, rfl⟩
  | error e s1 =>
    rw [hx] at h
    cases h

/-- What is passed and written one level deeper. -/
lemma outdent {s1 : Session} (passed : Passed { s with listing := s.listing.indent } s1 ks)
    (wrote : Wrote 0 { s with listing := s.listing.indent } s1 b) :
    s.Passed { s1 with listing := s1.listing.dedent } ks ∧
      s.Wrote 1 { s1 with listing := s1.listing.dedent } b := by
  obtain ⟨ls, same, written⟩ := wrote
  refine ⟨passed.relist s.listing _, ls, ?_, written⟩
  simp only [same, Listing.indent_extend, Listing.dedent_indent]

/-- Python's statement for an empty block is written unless there are lines. -/
lemma passUnlessWritten_ok {s0 : Session} (sound : s.Sound)
    (wrote : s0.Wrote 0 s b) (h : passUnlessWritten s0.listing.mark s = .ok () s') :
    s.Passed s' [] ∧ (b.isDone = false ∧ s.Wrote 0 s' .done ∨ s.Wrote 0 s' (.line .pass .done)) ∧
      (ElseFollows s' → ElseFollows s) := by
  rw [passUnlessWritten, get_bind] at h
  split at h
  · obtain ⟨ls, rfl, shows⟩ := emit_ok sound h
    exact ⟨(Passed.refl sound).written ls, .inr ⟨ls, rfl, .single .pass shows⟩, id⟩
  case isFalse some =>
    cases h
    obtain ⟨ls, same, written⟩ := wrote
    rw [same] at some
    refine ⟨.refl sound, .inl ⟨?_, .nothing rfl⟩, id⟩
    rw [← written.isEmpty_eq]
    simpa using Listing.ne_nil_of_statementsSince some

lemma semicolon_of_key (sound : s.Sound) (key : s.symbol.key = ";") :
    s.symbol.kind = .terminator true false :=
  sound.current.regular.mark (Symbol.terminatorEntry ";" true false)
    (by simp [Symbol.marks]) rfl key

lemma closeBrace_of_key (sound : s.Sound) (key : s.symbol.key = "\x7d") :
    s.symbol.kind = .terminator false false :=
  sound.current.regular.mark (Symbol.terminatorEntry "\x7d" false false)
    (by simp [Symbol.marks]) rfl key

/-- The closing brace is passed behind the statements. -/
lemma statements_ok (hi : Compiles inner) (fuel : Nat) (sound : s.Sound)
    (h : statements inner fuel s = .ok () s') : ∃ code ks n s1,
      s.Passed s1 ks ∧ s1.Passed s' [.terminator false false] ∧
      s.Wrote 0 s' (Code.desugar code) ∧ code.Spelled .sequence s s1 ks n ∧
      code.Fresh s.temporaries s'.temporaries ∧ code.Filled := by
  induction fuel generalizing s with
  | zero => cases h
  | succ fuel ih =>
    rw [statements, skipTerminators_bind, atKey_bind] at h
    obtain ⟨seps, p, all⟩ := (Passed.refl sound).skipTerminators
    split at h
    case isTrue key =>
      cases h
      have kind := closeBrace_of_key p.sound (of_decide_eq_true key)
      have closing := (Passed.refl p.sound).advance (k := .terminator false false)
        (by rw [kind]; rfl) (by simp)
      have nothing := Code.Spelled.separators all p .nil
      rw [List.append_nil] at nothing
      exact ⟨.skip, seps, 0, _, p, closing, .nothing rfl, nothing, trivial, trivial⟩
    case isFalse =>
      rw [symbol_bind] at h
      split at h
      · exact absurd h unexpected_ne_ok
      · obtain ⟨_, s1, h1, h⟩ := bind_ok.mp h
        obtain ⟨first, ks, m, p1, wrote1, spelled1, fresh1, -, filled1, -⟩ := hi _ _ p.sound h1
        obtain ⟨second, ks', n, s2, p2, closing, wrote2, spelled2, fresh2, filled2⟩ := ih p1.sound h
        refine ⟨.seq first second, seps ++ (ks ++ ks'), m + n, s2, ?_, closing, wrote1.trans wrote2,
          .separators all p (.cons spelled1 spelled2),
          ⟨fresh1.mono (Nat.le_refl _) (Nat.le_trans p2.temporaries closing.temporaries),
            fresh2.mono p1.temporaries (Nat.le_refl _)⟩, filled1, filled2⟩
        have whole := (p.trans p1).trans p2
        simpa [List.append_assoc] using whole

lemma block_ok (hi : Compiles inner) (sound : s.Sound) (h : block inner s = .ok () s') :
    ∃ code s1 s2 ks n, s.Passed s1 [.bracket .openBrace] ∧ s1.Passed s2 ks ∧
      s2.Passed s' [.terminator false false] ∧ s.Wrote 0 s' (Code.desugar code) ∧
      code.Spelled .sequence s1 s2 ks n ∧ code.Fresh s.temporaries s'.temporaries ∧ code.Filled ∧
      code.desugar.isDone = false := by
  obtain ⟨kind, h⟩ := bind_bracket_ok h
  rw [mark_bind, remaining_bind] at h
  obtain ⟨_, s2, h2, h⟩ := bind_ok.mp h
  have p := (Passed.refl sound).advance (k := .bracket .openBrace) (by rw [kind]; rfl)
    (by simp)
  obtain ⟨code, ks, n, s2, p1, closing, wrote2, spelled, fresh, filled⟩ :=
    statements_ok hi _ p.sound h2
  obtain ⟨p3, wrote3, -⟩ := passUnlessWritten_ok closing.sound wrote2 h
  have last := closing.trans p3
  have fresh' := fresh.mono (Nat.le_refl _) p3.temporaries
  rcases wrote3 with ⟨some, wrote3⟩ | wrote3
  · have wrote := wrote2.trans wrote3
    rw [Block.append_done] at wrote
    exact ⟨code, _, s2, ks, n, p, p1, last, wrote, spelled, fresh', filled, some⟩
  · exact ⟨.seq code .pass, _, s2, ks, n, p, p1, last, wrote2.trans wrote3,
      .pass (by simp) spelled (.refl p1.sound), ⟨fresh', trivial⟩, ⟨filled, trivial⟩,
      Block.isDone_append_line _ _ _⟩

lemma block_compiled (hi : Compiles inner) (sound : s.Sound) (h : block inner s = .ok () s') :
    Compiled .statement 0 s s' := by
  obtain ⟨code, s1, s2, ks, n, p, p1, last, wrote, spelled, fresh, filled, -⟩ := block_ok hi sound h
  exact ⟨.block code, _, n,
    (p.trans p1).trans last, wrote, .block false p spelled last, fresh, nofun, filled, nofun⟩

lemma body_compiled (hi : Compiles inner) (sound : s.Sound) (h : body inner s = .ok () s') :
    Compiled .body 1 s s' := by
  rw [body, skipNewlines_bind] at h
  obtain ⟨s3, run, rfl⟩ := indented_ok h
  rw [mark_bind, atKey_bind] at run
  obtain ⟨before, p, lines⟩ := (Passed.refl sound).skipNewlines
  let s1 : Session := { s with cursor := s.cursor.skip Token.isNewline }
  let s1' : Session := { s1 with listing := s1.listing.indent }
  have inward : s.Passed s1' before := p.relist s.listing s1.listing.indent
  -- the statement, or a semicolon in its place
  have statement : ∃ s2 code ks n, passUnlessWritten s1.listing.indent.mark s2 = .ok () s3 ∧
      Passed s1' s2 ks ∧ Wrote 0 s1' s2 (Code.desugar code) ∧
      (∀ s3, s2.Passed s3 [] → code.Spelled .body s1' s3 ks n) ∧
      code.Fresh s1.temporaries s2.temporaries ∧
      (code.loose = true → ¬ElseFollows s2) ∧ code.Filled := by
    split at run
    case isTrue key =>
      rw [advance_bind] at run
      have kind := semicolon_of_key inward.sound (of_decide_eq_true key)
      have p1 := (Passed.refl inward.sound).advance (k := .terminator true false)
        (by rw [kind]; rfl) (by simp)
      exact ⟨_, .skip, _, 0, run, p1, .nothing rfl, fun s3 p2 => .empty (p1.trans p2), trivial,
        nofun, trivial⟩
    case isFalse =>
      obtain ⟨_, s2, h2, run⟩ := bind_ok.mp run
      obtain ⟨code, ks, n, p2, wrote2, spelled, fresh, closed, filled, -⟩ := hi _ _ inward.sound h2
      exact ⟨s2, code, ks, n, run, p2, wrote2, fun s3 p3 => .body spelled p3, fresh, closed, filled⟩
  obtain ⟨s2, code, ks, n, run, p2, wrote2, spelled, fresh, closed, filled⟩ := statement
  obtain ⟨p3, wrote3, follows⟩ := passUnlessWritten_ok p2.sound wrote2 run
  have fresh' := fresh.mono (Nat.le_refl _) p3.temporaries
  have p4 := p2.trans p3
  rw [List.append_nil] at p4
  have outward : s2.Passed { s3 with listing := s3.listing.dedent } [] :=
    p3.relist s2.listing s3.listing.dedent
  rcases wrote3 with ⟨some, wrote3⟩ | wrote3
  · have wrote := wrote2.trans wrote3
    rw [Block.append_done] at wrote
    obtain ⟨p5, wrote5⟩ := outdent p4 wrote
    exact ⟨code, _, n, p.trans p5, wrote5, .lines lines inward (spelled _ outward), fresh',
      fun loose next => closed loose (follows next), filled, fun _ => some⟩
  · obtain ⟨p5, wrote5⟩ := outdent p4 (wrote2.trans wrote3)
    exact ⟨.seq code .pass, _, n, p.trans p5, wrote5,
      .lines lines inward (.pass (by simp) (spelled _ (.refl p2.sound)) outward),
      ⟨fresh', trivial⟩, fun loose next => closed loose (follows next), ⟨filled, trivial⟩,
      fun _ => Block.isDone_append_line _ _ _⟩

/-! ### Branches -/

/-- What may stand before an `else`: a terminator, or a brace that closes a block
around the branch. -/
inductive BeforeElse : List SymbolKind → Nat → Prop where
  | ending {ks : List SymbolKind} (h : Awk.Ending ks) : BeforeElse ks 0
  | taking (collapsed : Bool) : BeforeElse [.terminator false collapsed] 1

/-- After the first body: nothing, or an `else` with the other body. -/
lemma otherwise_ok (sound : s.Sound) (h : (do
      if (← symbol).isTerminator then
        if (← symbolOf (← peek 1)).kind = .elseWord then advance
      if ← atKind .elseWord then
        advance
        emit "else:"
        body inner : Compile Unit) s = .ok () s') :
    (s' = s ∧ ¬ElseFollows s) ∨ ElseFollows s ∧ ∃ s1 ks n, BeforeElse ks n ∧
      s.Passed s1 (ks ++ [.elseWord]) ∧ s1.listing = s.listing ∧
      (do emit "else:"; body inner) s1 = .ok () s' := by
  rw [symbol_bind] at h
  -- the second half, from a session where `else` may stand
  have tail : ∀ {s1 : Session} {ks : List SymbolKind} {n : Nat}, BeforeElse ks n → s.Passed s1 ks →
      s1.listing = s.listing → (do
        if ← atKind .elseWord then
          advance
          emit "else:"
          body inner : Compile Unit) s1 = .ok () s' →
      (s1.symbol.kind ≠ .elseWord ∧ s' = s1) ∨ s1.symbol.kind = .elseWord ∧ ∃ s2 ks n,
        BeforeElse ks n ∧ s.Passed s2 (ks ++ [.elseWord]) ∧ s2.listing = s.listing ∧
        (do emit "else:"; body inner) s2 = .ok () s' := by
    intro s1 ks n before passed same h
    rw [atKind_bind] at h
    split at h
    case isTrue at_ =>
      rw [advance_bind] at h
      have kind := of_decide_eq_true at_
      exact .inr ⟨kind, _, ks, n, before,
        passed.advance (by rw [Session.symbol, kind]; rfl) (by simp), same, h⟩
    case isFalse not =>
      cases h
      exact .inl ⟨by simpa using not, rfl⟩
  split at h
  case isTrue terminator =>
    rw [peek_bind, symbolOf_bind] at h
    split at h
    case isTrue found =>
      rw [advance_bind] at h
      cases hk : s.symbol.kind with
      | terminator consumed collapsed =>
        have passed := (Passed.refl sound).advance (k := .terminator consumed collapsed)
          (by rw [hk]; rfl) (by simp)
        have before : ∃ n, BeforeElse [.terminator consumed collapsed] n := by
          cases consumed with
          | true => exact ⟨0, .ending (.taken collapsed)⟩
          | false => exact ⟨1, .taking collapsed⟩
        obtain ⟨n, before⟩ := before
        rcases tail before passed rfl h with ⟨no, -⟩ | found'
        · -- the cursor stands on the `else` that was seen ahead
          rw [Session.symbol] at no
          exact absurd (sound.advance_current found (by simp) (by simp) ▸ found) no
        · exact .inr ⟨.inr ⟨terminator, found⟩, found'.2⟩
      | _ =>
        rw [Symbol.isTerminator, hk] at terminator
        cases terminator
    case isFalse notNext =>
      rcases tail (.ending .none) (.refl sound) rfl h with ⟨notHere, rfl⟩ | found
      · exact .inl ⟨rfl, fun follows => follows.elim notHere fun next => notNext next.2⟩
      · exact .inr ⟨.inl found.1, found.2⟩
  case isFalse word =>
    rcases tail (.ending .none) (.refl sound) rfl h with ⟨notHere, rfl⟩ | found
    · exact .inl ⟨rfl, fun follows => follows.elim notHere fun next => word next.1⟩
    · exact .inr ⟨.inl found.1, found.2⟩

lemma branch_compiled (hi : Compiles inner) (sound : s.Sound)
    (kind : s.symbol.kind = .keyword .branch) (h : branch inner s = .ok () s') :
    Compiled .statement 0 s s' := by
  rw [branch, advance_bind] at h
  have p := passed_keyword sound kind
  obtain ⟨test, s1, h1, h⟩ := bind_ok.mp h
  obtain ⟨head, lines, p1, wrote1, spelledHead⟩ := parenthesisedCondition_ok p.sound h1
  obtain ⟨_, s2, h2, h⟩ := bind_ok.mp h
  obtain ⟨ls, rfl, shows⟩ := emit_ok p1.sound h2
  have tested := spelledHead.behind ((Passed.refl p1.sound).written ls)
  obtain ⟨_, s3, h3, h⟩ := bind_ok.mp h
  obtain ⟨yes, ks, m, p3, ⟨ys, same3, written3⟩, spelled3, fresh3, closed3, filled3, some3⟩ :=
    body_compiled hi (p1.sound.written ls) h3
  rw [written_depth] at written3
  have passed := ((p.trans p1).written ls).trans p3
  have low : s.temporaries ≤ (s1.written ls).temporaries := (p.trans p1).temporaries
  rcases otherwise_ok p3.sound h with ⟨rfl, none⟩ | ⟨follows, s4, between, n, before, p4, same4, h⟩
  · refine ⟨.branch ⟨lines, test.text⟩ yes, _, m, passed, ?_, .branch p tested spelled3,
      fresh3.mono low (Nat.le_refl _), fun _ => none, ⟨some3 rfl, filled3⟩, nofun⟩
    refine wrote1.trans ⟨_, same3.trans ?_, .when (.holds rfl) shows written3 .done⟩
    simp [written]
  · obtain ⟨_, s5, h5, h⟩ := bind_ok.mp h
    obtain ⟨es, rfl, shows'⟩ := emit_ok p4.sound h5
    obtain ⟨no, ks', n', p6, ⟨ns, same6, written6⟩, spelled6, fresh6, closed6, filled6, some6⟩ :=
      body_compiled hi (p4.sound.written es) h
    -- the `else` would belong to a branch at the end of the first body
    have closed : yes.loose = false := by
      by_contra loose
      exact closed3 (by simpa using loose) follows
    have depth : s4.listing.depth = s1.listing.depth := by
      rw [same4, same3, Listing.extend_toPosition, written_depth]
    rw [written_depth, depth] at written6
    rw [depth] at shows'
    have passed' := (passed.trans (p4.written es)).trans p6
    have wrote : s.Wrote 0 s' (Code.desugar (.branchElse ⟨lines, test.text⟩ yes no)) := by
      refine wrote1.trans ⟨_, same6.trans ?_,
        .choose (.holds rfl) shows written3 shows' written6 .done⟩
      simp [written, same4, same3]
    have fresh : (Code.branchElse ⟨lines, test.text⟩ yes no).Fresh s.temporaries s'.temporaries :=
      ⟨fresh3.mono low (Nat.le_trans p4.temporaries p6.temporaries),
        fresh6.mono (Nat.le_trans low (Nat.le_trans p3.temporaries p4.temporaries)) (Nat.le_refl _)⟩
    cases before with
    | ending ending =>
      refine ⟨_, _, m + n', ?_, wrote,
        .branchElse p tested spelled3 closed ending (p4.written es) spelled6, fresh, closed6,
        ⟨⟨some3 rfl, filled3⟩, some6 rfl, filled6⟩, nofun⟩
      simpa using passed'
    | taking collapsed =>
      refine ⟨_, _, m + n' + 1, ?_, wrote,
        .branchTaking collapsed p tested spelled3 closed (p4.written es) spelled6, fresh, closed6,
        ⟨⟨some3 rfl, filled3⟩, some6 rfl, filled6⟩, nofun⟩
      simpa using passed'

end Statement

end AwkToPython
