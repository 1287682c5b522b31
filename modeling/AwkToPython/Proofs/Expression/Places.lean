import AwkToPython.Proofs.Expression.Effect
import AwkToPython.Proofs.Expression.Translation
import AwkToPython.Proofs.Python.Reads

/-!
# Compiled trees

`Places` says that a session has written the block of a tree, and `Compiled` that
a fragment is its value besides: wherever the fragment is put as an operand,
parenthesised or not, Python reads the value there. Every construct of an
expression keeps this.
-/
namespace AwkToPython.Awk

variable {between : String} {assigns : Bool} {depth : Nat}

open Listing Python Fragment Expression Temporary Compile

open Python (Block Written Shows Reads)

variable {ι : Type}

/-- Python reads the text as the expression. -/
def Denotes (e : Python.Expr) (text : String) : Prop := read text = some e

/-- Between two sessions the block of a tree was written. -/
structure Places (s s' : Session) (t : Expr Substitution) (b : Block Python.Expr)
    (v : Python.Expr) : Prop where
  effect : s.Effect s'
  translates : Translates s.temporaries s'.temporaries t b v
  written : ∃ ls, s'.listing = s.listing.extend ls ∧ Written Denotes s.listing.depth b ls

namespace Places

variable {s s1 s' : Session} {t : Expr Substitution} {b : Block Python.Expr} {v : Python.Expr}

/-- A session that has moved on without writing. -/
lemma before (e : s.Effect s1) (listing : s1.listing = s.listing)
    (count : s1.temporaries = s.temporaries) (h : Places s1 s' t b v) : Places s s' t b v := by
  refine ⟨e.trans h.effect, count ▸ h.translates, ?_⟩
  obtain ⟨ls, same, written⟩ := h.written
  exact ⟨ls, by rw [same, listing], by rwa [listing] at written⟩

lemma behind (h : Places s s1 t b v) (e : s1.Effect s') (listing : s'.listing = s1.listing)
    (count : s'.temporaries = s1.temporaries) : Places s s' t b v := by
  refine ⟨h.effect.trans e, count ▸ h.translates, ?_⟩
  obtain ⟨ls, same, written⟩ := h.written
  exact ⟨ls, listing.trans same, written⟩

lemma grow (h : Places s s' t b v) (g : s'.table.Grows table) : Places s { s' with table } t b v :=
  h.behind ((Session.Effect.refl h.effect.sound).grow g) rfl rfl

lemma leaf (e : s.Effect s') (listing : s'.listing = s.listing)
    (count : s'.temporaries = s.temporaries)
    (h : Translates s.temporaries s.temporaries t .done v) : Places s s' t .done v :=
  ⟨e, count ▸ h, [], by simp [listing], .done⟩

end Places

/-- A fragment is the value of a tree whose block was written. -/
structure Compiled (s s' : Session) (e : Expr ι) (level : Nat) (f : Fragment) : Prop where
  places : ∃ t b v, t.erase = e.erase ∧ Places s s' t b v ∧ Reads (f.level.getD 0) f.text v
  level : f.level.getD 0 ≤ level
  tight : f.level.getD 0 ≤ 18
  isString : f.isString = e.isString
  atomic : f.isString = true → f.level = none

namespace Compiled

variable {s s1 s' : Session} {e : Expr ι} {level : Nat} {f : Fragment}

lemma effect (h : Compiled s s' e level f) : s.Effect s' := by
  obtain ⟨t, b, v, -, places, -⟩ := h.places
  exact places.effect

lemma looser (h : Compiled s s' e level f) (le : level ≤ level') : Compiled s s' e level' f :=
  ⟨h.places, Nat.le_trans h.level le, h.tight, h.isString, h.atomic⟩

end Compiled

/-! ### Fragments as operands -/

section Operands

variable {f : Fragment} {v : Python.Expr}

/-- As an operand of an operator a fragment binds tighter than the operator. -/
lemma reads_wrapped (h : Reads (f.level.getD 0) f.text v) (tight : f.level.getD 0 ≤ 18)
    (level : Nat) : ∃ own ≤ f.level.getD 0, (own = 0 ∨ own < level) ∧
      Reads own (f.wrapped level) v := by
  cases hl : f.level with
  | none =>
    rw [hl] at h
    exact ⟨0, Nat.zero_le _, .inl rfl, by simpa [wrapped, hl] using h⟩
  | some own =>
    simp only [hl, Option.getD_some] at h tight
    simp only [wrapped, hl]
    split
    case isTrue => exact ⟨0, Nat.zero_le _, .inl rfl, (h.mono (Nat.le_succ_of_le tight)).parens⟩
    case isFalse below => exact ⟨own, Nat.le_refl _, .inr (Nat.lt_of_not_le below), h⟩

lemma reads_below (h : Reads (f.level.getD 0) f.text v) (tight : f.level.getD 0 ≤ 18)
    {level below : Nat} (le : level ≤ below + 1) : Reads below (f.wrapped level) v := by
  obtain ⟨own, -, bound, reads⟩ := reads_wrapped h tight level
  exact reads.mono (by omega)

lemma reads_grouped (h : Reads (f.level.getD 0) f.text v) (tight : f.level.getD 0 ≤ 18) :
    Reads 0 f.grouped.text v := by
  cases hl : f.level with
  | none => simpa [grouped, hl] using h
  | some own =>
    simp only [hl, Option.getD_some] at h tight
    simpa [grouped, hl] using (h.mono (Nat.le_succ_of_le tight)).parens

lemma reads_stringified (h : Reads (f.level.getD 0) f.text v) (tight : f.level.getD 0 ≤ 18)
    (atomic : f.isString → f.level = none) :
    Reads 0 f.stringified (Expr.asString f.isString v) := by
  rw [stringified, Expr.asString]
  cases hs : f.isString with
  | true => simpa [atomic hs] using h
  | false =>
    have name : IsName "str" := by decide
    simpa [String.append_assoc] using (h.mono (Nat.le_succ_of_le tight)).call name

end Operands

lemma Operator.level_le (op : Operator) : op.level ≤ 18 := by
  cases op <;> decide

/-- Python groups an operator with its operands as they are wrapped. -/
lemma reads_binary {op : Operator} {fl fr : Fragment} {v v' : Python.Expr}
    {leftLevel : Nat} (hl : Reads (fl.level.getD 0) fl.text v) (left : fl.level.getD 0 ≤ op.left)
    (hr : Reads (fr.level.getD 0) fr.text v') (tight : fr.level.getD 0 ≤ 18)
    (joint : (between, op.python) ∈ joints) (bound : leftLevel ≤ op.level + 1)
    (compared : op.kind = .comparison → leftLevel ≤ op.level) :
    Reads op.level (fl.wrapped leftLevel ++ between ++ fr.wrapped op.level)
      (.binary op.python v v') := by
  have levels : ∀ op ∈ Operator.all, op.left ≤ 18 ∧ ∃ right < 18,
      operator? op.python = some (op.level, right) ∧ op.level ≤ right + 1 ∧
        (op.kind = .comparison ∨ op.level ≠ 9) ∧ (op.left = 0 ∨ 6 ≤ op.level) := by decide
  obtain ⟨bound', right, -, found, below, kind, power⟩ := levels op op.mem_all
  obtain ⟨own, least, tighter, reads⟩ := reads_wrapped hl (Nat.le_trans left bound') leftLevel
  have right' : Reads right (fr.wrapped op.level) v' := reads_below hr tight below
  refine reads.binary right' joint found (by omega) (by omega) fun same => ?_
  have compared' : op.kind = .comparison := kind.resolve_right (fun ne => ne same)
  have := compared compared'
  simp only [comparisonLevel] at same
  omega

namespace Places

variable {s s1 s' : Session} {t t' : Expr Substitution} {b b' : Block Python.Expr}
  {v v' : Python.Expr}

lemma written_append (h : Places s s1 t b v) (h' : Places s1 s' t' b' v') :
    ∃ ls, s'.listing = s.listing.extend ls ∧ Written Denotes s.listing.depth (b ++ b') ls := by
  obtain ⟨ls, same, written⟩ := h.written
  obtain ⟨ls', same', written'⟩ := h'.written
  rw [h.effect.depth] at written'
  exact ⟨ls ++ ls', by rw [same', same, extend_extend], written.append written'⟩

lemma binary {op : Operator} (h : Places s s1 t b v) (h' : Places s1 s' t' b' v')
    (plain : op.isLogical → b' = .done) :
    Places s s' (.binary op t t') (b ++ b') (.binary op.python v v') :=
  ⟨h.effect.trans h'.effect, .binary h.translates h'.translates plain, h.written_append h'⟩

lemma concat (h : Places s s1 t b v) (h' : Places s1 s' t' b' v') :
    Places s s' (.concat t t') (b ++ b')
      (.binary "+" (Expr.asString t.isString v) (Expr.asString t'.isString v')) :=
  ⟨h.effect.trans h'.effect, .concat h.translates h'.translates, h.written_append h'⟩

end Places

namespace Compiled

variable {s s1 s' : Session} {e l r : Expr ι} {level level' : Nat} {f fl fr : Fragment}

lemma sign (h : Compiled s s' e level f) (minus : Bool) : Compiled s s' (.sign minus e) 5
    (.operator (Expr.signText minus ++ f.wrapped unaryLevel) unaryLevel) := by
  obtain ⟨t, b, v, same, places, reads⟩ := h.places
  refine ⟨⟨.sign minus t, b, _, by simp [Expr.erase, same],
    ⟨places.effect, .sign minus places.translates, places.written⟩, ?_⟩, Nat.le_refl _,
    (by decide : 5 ≤ 18), rfl, nofun⟩
  have operand : Reads signLevel (f.wrapped unaryLevel) v :=
    reads_below reads h.tight (by decide)
  exact operand.sign (by cases minus <;> simp [Expr.signText])

lemma not (h : Compiled s s' e level f) : Compiled s s' (.not e) 0
    (.atom (parenthesised ("not " ++ f.wrapped unaryLevel))) := by
  obtain ⟨t, b, v, same, places, reads⟩ := h.places
  refine ⟨⟨.not t, b, _, by simp [Expr.erase, same],
    ⟨places.effect, .not places.translates, places.written⟩, ?_⟩, Nat.le_refl _, Nat.zero_le _,
    rfl, nofun⟩
  have operand : Reads notLevel (f.wrapped unaryLevel) v :=
    reads_below reads h.tight (by decide)
  exact (operand.negation.mono (by decide)).parens

lemma binary {op : Operator} {leftLevel : Nat}
    (hl : Compiled s s1 l op.left fl) (hr : Compiled s1 s' r level fr)
    (plain : op.isLogical = false) (joint : (between, op.python) ∈ joints)
    (bound : leftLevel ≤ op.level + 1) (compared : op.kind = .comparison → leftLevel ≤ op.level) :
    Compiled s s' (.binary op l r) op.level { operator
      (fl.wrapped leftLevel ++ between ++ fr.wrapped op.level) op.level with assigns } := by
  obtain ⟨t, b, v, same, places, reads⟩ := hl.places
  obtain ⟨t', b', v', same', places', reads'⟩ := hr.places
  refine ⟨⟨.binary op t t', _, _, by simp [Expr.erase, same, same'],
    places.binary places' (by simp [plain]), ?_⟩, Nat.le_refl _, op.level_le, rfl, nofun⟩
  exact reads_binary reads hl.level reads' hr.tight joint bound compared

lemma concat (hl : Compiled s s1 l level fl) (hr : Compiled s1 s' r level' fr) :
    Compiled s s' (.concat l r) 0
      { string s!"({fl.stringified}+{fr.stringified})" with assigns } := by
  obtain ⟨t, b, v, same, places, reads⟩ := hl.places
  obtain ⟨t', b', v', same', places', reads'⟩ := hr.places
  have strings : t.isString = fl.isString ∧ t'.isString = fr.isString := by
    rw [← Expr.isString_erase t, ← Expr.isString_erase t', same, same', hl.isString, hr.isString]
    simp
  refine ⟨⟨.concat t t', _, _, by simp [Expr.erase, same, same'], places.concat places', ?_⟩,
    Nat.le_refl _, Nat.zero_le _, rfl, fun _ => rfl⟩
  rw [strings.1, strings.2]
  have joined := (reads_stringified reads hl.tight hl.atomic).binary
    ((reads_stringified reads' hr.tight hr.atomic).mono (Nat.zero_le 6))
    (show ("+", "+") ∈ joints by decide)
    (show operator? "+" = some (7, 6) by decide) (by decide) (by decide) (by decide)
  have text : parenthesised (fl.stringified ++ "+" ++ fr.stringified) =
      s!"({fl.stringified}+{fr.stringified})" := by
    rw [← String.toList_inj]
    simp [parenthesised, toString]
  exact text ▸ (joined.mono (by decide)).parens

lemma grouped (h : Compiled s s' e level f) : Compiled s s' e 0 f.grouped := by
  obtain ⟨t, b, v, same, places, reads⟩ := h.places
  exact ⟨⟨t, b, v, same, places, reads_grouped reads h.tight⟩, Nat.le_refl _, Nat.zero_le _,
    h.isString, fun _ => rfl⟩

end Compiled

/-! ### Temporaries -/

lemma isName_cond (n : Nat) : IsName (cond n) :=
  isName_numbered "cond_" (by decide) (by decide) n

lemma isName_choice (n : Nat) : IsName (choice n) :=
  isName_numbered "choice_" (by decide) (by decide) n

lemma isName_count (n : Nat) : IsName (count n) :=
  isName_numbered "num_changed_" (by decide) (by decide) n

/-- A temporary that is stored in a line of its own. -/
lemma store_spelled {name text : String} (h : Denotes v text) :
    (Simple.store name v).Spelled Denotes s!"{name}={text}" := by
  have same : s!"{name}={text}" = name ++ "=" ++ text := by
    rw [← String.toList_inj]
    simp [toString]
  exact same ▸ .store name h

/-- The lines of a conjunction or a disjunction of which the right side runs only
if the left one does not decide. -/
lemma written_guard {depth : Nat} {conjunction : Bool} {left right : String}
    {first test inner last : List String}
    (hl : Denotes v left) (hr : Denotes v' right)
    (shows1 : Shows depth s!"{Temporary.cond n}={left}" first)
    (shows2 : Shows depth ((if conjunction then "if " else "if not ") ++ Temporary.cond n ++ ":")
      test)
    (written : Written Denotes depth b inner)
    (shows3 : Shows (depth + 1) s!"{Temporary.cond n}={right}" last) :
    Written Denotes depth (guardBlock n conjunction v b v')
      (first ++ test ++ (deeper 1 inner ++ last)) := by
  have body := written.under (store_spelled hr) shows3
  have whole : Written Denotes depth (guardBlock n conjunction v b v')
      (first ++ (test ++ (deeper 1 inner ++ last) ++ [])) := by
    refine .line (store_spelled hl) shows1 ?_
    cases conjunction with
    | true => exact .when (.isSet _) shows2 body .done
    | false => exact .when (.isUnset _) (by simpa [← String.append_assoc] using shows2) body .done
  simpa using whole

/-- The lines of a choice of which a branch wrote some. -/
lemma written_branch {depth : Nat} {test yes : String} {first yesLast second noLast : List String}
    (ht : Denotes v test) (hy : Denotes v' yes) (hn : Denotes v'' no)
    (shows1 : Shows depth s!"if {test}:" first) (written : Written Denotes depth b ys)
    (shows2 : Shows (depth + 1) s!"{Temporary.choice n}={yes}" yesLast)
    (shows3 : Shows depth "else:" second) (written' : Written Denotes depth b' ns)
    (shows4 : Shows (depth + 1) s!"{Temporary.choice n}={no}" noLast) :
    Written Denotes depth (branchBlock n v b v' b' v'')
      (first ++ (deeper 1 ys ++ yesLast) ++ second ++ (deeper 1 ns ++ noLast)) := by
  have whole : Written Denotes depth (branchBlock n v b v' b' v'') _ :=
    .choose (.holds ht) shows1 (written.under (store_spelled hy) shows2) shows3
      (written'.under (store_spelled hn) shows4) .done
  rwa [List.append_nil] at whole

namespace Compiled

variable {s s1 s2 s3 s' : Session} {l r test yes no : Expr ι} {level level' level'' : Nat}
  {f fl fr ft fy fn : Fragment}

lemma denotes (h : Reads (f.level.getD 0) f.text v)
    (tight : f.level.getD 0 ≤ 18) : Denotes v f.text :=
  h.read_eq (Nat.le_succ_of_le tight)

/-- What was written since a session can be taken out and goes back to it. -/
lemma taken (h : Places s s' t b v) {ls : List String} {listing : Listing}
    (taken : s'.listing.takeSince s.listing.mark = (ls, listing)) :
    listing = s.listing ∧ Written Denotes s.listing.depth b ls := by
  obtain ⟨ls', same, written⟩ := h.written
  rw [same, takeSince_extend] at taken
  cases taken
  exact ⟨rfl, written⟩

lemma isDone_of_isEmpty (h : Written Denotes depth b ls) (none : ls.isEmpty) : b = .done := by
  have := h.isEmpty_eq
  rw [none] at this
  cases b with
  | done => rfl
  | _ => cases this

/-- The right side of a conjunction or a disjunction wrote lines. -/
lemma guarded {lines : List String} {listing : Listing}
    (logical : op.isLogical) (hl : Compiled s s1 l level fl) (hr : Compiled s1 s2 r level' fr)
    (taken : s2.listing.takeSince s1.listing.mark = (lines, listing)) (some : lines.isEmpty = false)
    (run : guarded fl (op = .and) lines fr { s2 with listing } = .ok f s') :
    Compiled s s' (.binary op l r) 0 f ∧ s'.cursor.shown = s2.cursor.shown := by
  obtain ⟨t, b, v, same, places, reads⟩ := hl.places
  obtain ⟨t', b', v', same', places', reads'⟩ := hr.places
  obtain ⟨rfl, written⟩ := Compiled.taken places' taken
  obtain ⟨straight, ls, taken', isStraight, writtenText⟩ := hr.effect.takeSince
  cases taken.symm.trans taken'
  have back := hr.effect.takeBack
  obtain ⟨first, guard, last, shows1, shows2, shows3, result⟩ :=
    guarded_run back.sound fl fr (op = .and) lines
  have guardEffect := guarded_effect back.sound fl fr (op = .and) isStraight writtenText
  rw [result] at run guardEffect
  cases run
  have hoisted : b' ≠ .done := by
    rintro rfl
    cases written
    cases some
  have guard' := written_guard (denotes reads hl.tight) (denotes reads' hr.tight) shows1 shows2
    written shows3
  rw [places.effect.depth] at guard'
  obtain ⟨before, same1, written1⟩ := places.written
  have listing : s1.listing.extend (first ++ guard ++ (deeper 1 lines ++ last)) =
      s.listing.extend (before ++ (first ++ guard ++ (deeper 1 lines ++ last))) := by
    rw [same1, extend_extend]
  refine ⟨⟨⟨.binary op t t', _, _, by simp [Expr.erase, same, same'],
    ⟨(hl.effect.trans back).trans guardEffect,
      .guarded logical places.translates places'.translates hoisted, _, listing,
      written1.append guard'⟩, .name (isName_cond _)⟩, Nat.le_refl _, Nat.zero_le _, rfl, nofun⟩,
    rfl⟩

/-- A conjunction or a disjunction that is written as one. -/
lemma logical {op : Operator} {lines : List String}
    {listing : Listing} (hl : Compiled s s1 l op.left fl) (hr : Compiled s1 s2 r level fr)
    (taken : s2.listing.takeSince s1.listing.mark = (lines, listing)) (none : lines.isEmpty)
    (joint : (between, op.python) ∈ joints) (compared : op.kind ≠ .comparison) :
    Compiled s { s2 with listing } (.binary op l r) op.level { operator
      (fl.wrapped (op.level + 1) ++ between ++ fr.wrapped op.level) op.level with assigns } := by
  obtain ⟨t, b, v, same, places, reads⟩ := hl.places
  obtain ⟨t', b', v', same', places', reads'⟩ := hr.places
  obtain ⟨rfl, written⟩ := Compiled.taken places' taken
  have done := isDone_of_isEmpty written none
  have placed : Places s1 { s2 with listing := s1.listing } t' .done v' :=
    ⟨hr.effect.takeBack, done ▸ places'.translates, [], by simp, .done⟩
  refine ⟨⟨.binary op t t', _, _, by simp [Expr.erase, same, same'],
    places.binary placed (fun _ => rfl), ?_⟩, Nat.le_refl _, op.level_le, rfl, nofun⟩
  exact reads_binary reads hl.level reads' hr.tight joint (Nat.le_refl _)
    fun same => absurd same compared

section Choice

variable {thenLines elseLines : List String} {inner outer : Listing}

/-- A choice that is written as a conditional expression. -/
lemma choose {assigns : Bool} (ht : Compiled s s1 test level ft)
    (hy : Compiled s1 s2 yes level' fy) (hn : Compiled s2 s3 no level'' fn)
    (takenNo : s3.listing.takeSince s2.listing.mark = (elseLines, inner))
    (takenYes : inner.takeSince s1.listing.mark = (thenLines, outer))
    (none : thenLines.isEmpty ∧ elseLines.isEmpty) :
    Compiled s { s3 with listing := outer } (.choose test yes no) 0
      { atom (Expression.choiceText ft fy fn) with
      assigns, isString := fy.isString && fn.isString } := by
  obtain ⟨t, b, v, same, places, reads⟩ := ht.places
  obtain ⟨t', b', v', same', places', reads'⟩ := hy.places
  obtain ⟨t'', b'', v'', same'', places'', reads''⟩ := hn.places
  obtain ⟨rfl, writtenNo⟩ := Compiled.taken places'' takenNo
  obtain ⟨rfl, writtenYes⟩ := Compiled.taken places' takenYes
  have done' := isDone_of_isEmpty writtenYes none.1
  have done'' := isDone_of_isEmpty writtenNo none.2
  subst done' done''
  have back := (hy.effect.trans hn.effect).takeBack
  obtain ⟨ls, listing, written⟩ := places.written
  refine ⟨⟨.choose t t' t'', b, .choose v' v v'', by simp [Expr.erase, same, same', same''],
    ⟨ht.effect.trans back, .choose places.translates places'.translates places''.translates, ls,
      listing, written⟩, ?_⟩, Nat.le_refl _, Nat.zero_le _, by
        simp [Expr.isString, hy.isString, hn.isString], fun _ => rfl⟩
  have whole := ((reads_below reads' hy.tight (by decide : 19 ≤ 18 + 1)).choose
    (reads_below reads ht.tight (by decide : 19 ≤ 18 + 1))
    ((reads_below reads'' hn.tight (by decide : 19 ≤ 18 + 1)).mono (by decide))).parens
  have text : parenthesised (fy.wrapped 19 ++ " if " ++ ft.wrapped 19 ++ " else " ++
      fn.wrapped 19) = Expression.choiceText ft fy fn := by
    rw [← String.toList_inj]
    simp [parenthesised, toString, ternaryLevel]
  exact text ▸ whole

/-- A choice of which a branch wrote lines. -/
lemma chosen (ht : Compiled s s1 test level ft)
    (hy : Compiled s1 s2 yes level' fy) (hn : Compiled s2 s3 no level'' fn)
    (takenNo : s3.listing.takeSince s2.listing.mark = (elseLines, inner))
    (takenYes : inner.takeSince s1.listing.mark = (thenLines, outer))
    (some : (thenLines.isEmpty && elseLines.isEmpty) = false)
    (run : choice ft thenLines fy elseLines fn { s3 with listing := outer } = .ok f s') :
    Compiled s s' (.choose test yes no) 0 f ∧ s'.cursor.shown = s3.cursor.shown := by
  obtain ⟨t, b, v, same, places, reads⟩ := ht.places
  obtain ⟨t', b', v', same', places', reads'⟩ := hy.places
  obtain ⟨t'', b'', v'', same'', places'', reads''⟩ := hn.places
  obtain ⟨rfl, writtenNo⟩ := Compiled.taken places'' takenNo
  obtain ⟨rfl, writtenYes⟩ := Compiled.taken places' takenYes
  obtain ⟨_, ys, taken, straight, textYes⟩ := hy.effect.takeSince
  cases takenYes.symm.trans taken
  obtain ⟨_, ns, taken', straight', textNo⟩ := hn.effect.takeSince
  cases takenNo.symm.trans taken'
  rw [hy.effect.depth] at writtenNo textNo
  have back := (hy.effect.trans hn.effect).takeBack
  obtain ⟨first, yesLast, second, noLast, shows1, shows2, shows3, shows4, result⟩ :=
    choice_run back.sound ft fy fn thenLines elseLines
  have choiceEffect := choice_effect back.sound ft fy fn straight straight' textYes textNo
  rw [result] at run choiceEffect
  cases run
  have hoisted : b' ≠ .done ∨ b'' ≠ .done := by
    rw [writtenYes.isEmpty_eq, writtenNo.isEmpty_eq, Bool.and_eq_false_iff] at some
    rcases some with some | some
    · exact .inl (by rintro rfl; cases some)
    · exact .inr (by rintro rfl; cases some)
  have branch := written_branch (denotes reads ht.tight) (denotes reads' hy.tight)
    (denotes reads'' hn.tight) shows1 writtenYes shows2 shows3 writtenNo shows4
  rw [places.effect.depth] at branch
  obtain ⟨before, same1, written1⟩ := places.written
  have listing : ∀ ls, s1.listing.extend ls = s.listing.extend (before ++ ls) := fun ls => by
    rw [same1, extend_extend]
  refine ⟨⟨⟨.choose t t' t'', _, _, by simp [Expr.erase, same, same', same''],
    ⟨(ht.effect.trans back).trans choiceEffect,
      .chosen places.translates places'.translates places''.translates hoisted, _, listing _,
      written1.append branch⟩, .name (isName_choice _)⟩, Nat.le_refl _, Nat.zero_le _, by
        simp [Expr.isString, hy.isString, hn.isString], fun _ => rfl⟩, rfl⟩

end Choice

end Compiled

/-! ### Substitutions -/

/-- The step writes a substitution whose count is a temporary. -/
def Substitutes (n : Nat) (s : Session) (x : Compile Unit) : Prop :=
  ∃ (label : Substitution) (ls : List String), label.count = Temporary.count n ∧
    x s = .ok () (s.written ls) ∧ Written Denotes s.listing.depth label.block ls

section Substitution

variable {s : Session} (sound : s.Sound) (n : Nat)

include sound

/-- One line substitutes. -/
lemma substitutes_emit {first call text : String}
    (spelled : text = first ++ ", " ++ count n ++ " = " ++ call) : Substitutes n s (emit text) := by
  obtain ⟨ls, run, shows⟩ := emit_run sound text
  subst spelled
  exact ⟨⟨first, count n, call, none⟩, ls, rfl, run, .single (.unpack _ _ _) shows⟩

/-- One line substitutes, and the next one sets a field. -/
lemma substitutes_set {first call text behind : String}
    (spelled : text = first ++ ", " ++ count n ++ " = " ++ call) :
    Substitutes n s (do emit text; emit behind) := by
  obtain ⟨ls, run, shows⟩ := emit_run sound text
  obtain ⟨ls', run', shows'⟩ := emit_run (sound.written ls) behind
  subst spelled
  refine ⟨⟨first, count n, call, some behind⟩, ls ++ ls', rfl,
    bind_ok.mpr ⟨_, _, run, by simpa using run'⟩, ?_⟩
  exact .line (.unpack _ _ _) shows (.single (.plain behind) (by simpa using shows'))

/-- Whatever is changed, the number of replacements is left in a temporary. -/
lemma writeSubstitution_run (call : String → String) (target : Option Fragment) :
    Substitutes n s (writeSubstitution n call target) := by
  have spelled : ∀ first text : String, s!"{first}, num_changed_{n} = " ++ text =
      first ++ ", " ++ count n ++ " = " ++ text := fun first text => by
    rw [← String.toList_inj]
    simp [count, toString]
  have numbered : ∀ text : String, s!"target_{n}, num_changed_{n} = " ++ text =
      s!"target_{n}" ++ ", " ++ count n ++ " = " ++ text := fun text => by
    rw [← String.toList_inj]
    simp [count, toString]
  have record : Substitutes n s (writeSubstitution.record n call) :=
    substitutes_set sound n (numbered _)
  cases target with
  | none => exact record
  | some f =>
    rcases ht : f.target with _ | (id | ⟨base, index⟩ | index)
    · simp only [writeSubstitution, ht]
      have lead : ∀ text : String, s!"_, num_changed_{n} = " ++ text =
          "_" ++ ", " ++ count n ++ " = " ++ text := fun text => by
        rw [← String.toList_inj]
        simp [count, toString]
      exact substitutes_emit sound n (lead _)
    · simp only [writeSubstitution, ht]
      exact substitutes_emit sound n (spelled _ _)
    · simp only [writeSubstitution, ht]
      have element : ∀ text : String, s!"{base}[{index}], num_changed_{n} = " ++ text =
          s!"{base}[{index}]" ++ ", " ++ count n ++ " = " ++ text := fun text => by
        rw [← String.toList_inj]
        simp [count, toString]
      exact substitutes_emit sound n (element _)
    · simp only [writeSubstitution, ht]
      split
      · exact record
      · exact substitutes_set sound n (numbered _)

end Substitution

/-- The block of a tree was written, whatever becomes of its value. -/
def Carried (s s' : Session) (e : Expr ι) : Prop := ∃ t b v, t.erase = e.erase ∧ Places s s' t b v

lemma Compiled.carried {level : Nat} (h : Compiled s s' e level f) : Carried s s' e := by
  obtain ⟨t, b, v, same, places, -⟩ := h.places
  exact ⟨t, b, v, same, places⟩

/-- The number of replacements takes the place of a substitution. -/
lemma Compiled.call {pattern replacement target : Expr ι} (label : ι) (first : Carried s s1 pattern)
    (second : Carried s1 s2 replacement)
    (third : Carried s2 s3 target)
    (substitutes : Substitutes (s3.temporaries + 1) { s3 with temporaries := s3.temporaries + 1 } x)
    (effect : s3.Effect s')
    (run : x { s3 with temporaries := s3.temporaries + 1 } = .ok () s') :
    Compiled s s' (.call label pattern replacement target) 0
        { atom (count (s3.temporaries + 1)) with hoisted := true } ∧
      s'.cursor.shown = s3.cursor.shown := by
  obtain ⟨t, b, v, same, places⟩ := first
  obtain ⟨t', b', v', same', places'⟩ := second
  obtain ⟨t'', b'', v'', same'', places''⟩ := third
  obtain ⟨label', ls, counted, written, block⟩ := substitutes
  rw [written] at run
  cases run
  obtain ⟨ls1, same1, written1⟩ := places.written
  obtain ⟨ls2, same2, written2⟩ := places'.written
  obtain ⟨ls3, same3, written3⟩ := places''.written
  have depth1 := places.effect.depth
  have depth2 := places'.effect.depth
  have depth3 := places''.effect.depth
  simp only [depth3, depth2, depth1] at written2 written3 block
  have listing : s3.listing.extend ls = s.listing.extend (ls1 ++ ls2 ++ ls3 ++ ls) := by
    rw [same3, same2, same1]
    simp [List.append_assoc]
  refine ⟨⟨⟨.call label' t t' t'', _, _, by simp [Expr.erase, same, same', same''],
    ⟨((places.effect.trans places'.effect).trans places''.effect).trans effect,
      .call places.translates places'.translates places''.translates counted, _, listing,
      ((written1.append written2).append written3).append block⟩, .name (isName_count _)⟩,
    Nat.le_refl _, Nat.zero_le _, rfl, nofun⟩, rfl⟩

end AwkToPython.Awk
