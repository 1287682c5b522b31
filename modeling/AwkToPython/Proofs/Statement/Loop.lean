import AwkToPython.Proofs.Statement.Compound

/-!
# Loops are compiled as their trees say

The lines of a test are taken out where they were written and put back where the
test is made.
-/
namespace AwkToPython

open Python (Block Written Shows)
open Compile Awk

namespace Session

variable {s : Session}

/-- The session after lines were written, with the next ones some levels deeper. -/
def nested (s : Session) (levels : Nat) (ls : List String) : Session :=
  { s with
    cursor := { s.cursor with comments := [] }
    listing := (s.listing.extend ls).inward levels }

lemma written_eq_nested (s : Session) (ls : List String) : s.written ls = s.nested 0 ls := rfl

lemma Sound.nested (h : s.Sound) (levels : Nat) (ls : List String) : (s.nested levels ls).Sound :=
  ⟨h.marked, h.proper, h.tokens, by simp [Session.nested], h.prior, h.lastWord, h.ends⟩

variable {α : Type} {levels : Nat} {ls : List String}

lemma nested_emit (levels : Nat) (ls : List String) (sound : s.Sound) (text : String)
    (f : Unit → Compile α) : ∃ xs, Shows (s.listing.depth + levels) text xs ∧
      (emit text >>= f) (s.nested levels ls) = f () (s.nested levels (ls ++ xs)) := by
  obtain ⟨xs, run, shows⟩ := emit_run (sound.nested levels ls) text
  refine ⟨xs, by simpa [nested] using shows, ?_⟩
  have same : (s.nested levels ls).written xs = s.nested levels (ls ++ xs) := by
    simp [written, nested]
  simp only [Bind.bind, EStateM.bind, run, same]

lemma nested_indent (f : Unit → Compile α) :
    (indent >>= f) (s.nested levels ls) = f () (s.nested (levels + 1) ls) := rfl

lemma nested_dedent (f : Unit → Compile α) :
    (dedent >>= f) (s.nested (levels + 1) ls) = f () (s.nested levels ls) := rfl

lemma nested_appendLines (lines : List String) (deeper : Nat) (f : Unit → Compile α) :
    (appendLines lines deeper >>= f) (s.nested levels ls) =
      f () (s.nested levels (ls ++ Listing.deeper deeper lines)) := by
  rw [appendLines, write_bind, Listing.appendLines_eq_extend]
  simp [nested]

end Session

namespace Statement

variable {inner : Compile Unit} {s s' : Session} {levels : Nat} {ls : List String}

open Session

lemma nested_breakUnless {α : Type} (levels : Nat) (ls : List String) (sound : s.Sound)
    (test : Fragment) (f : Unit → Compile α) : ∃ xs, Written Eq (s.listing.depth + levels)
        (.when (.fails test.text) (.line .breakLoop .done) .done) xs ∧
      (breakUnless test >>= f) (s.nested levels ls) = f () (s.nested levels (ls ++ xs)) := by
  obtain ⟨xs, shows, run⟩ := nested_emit levels ls sound
    s!"if not ({test.text}):" fun _ => do indent; emit "break"; dedent; f ()
  obtain ⟨ys, shows', run'⟩ := nested_emit (levels + 1) (ls ++ xs) sound "break"
    fun _ => do dedent; f ()
  have written : Written Eq (s.listing.depth + levels)
      (.when (.fails test.text) (.line .breakLoop .done) .done) (xs ++ ys ++ []) := by
    refine .when (.fails rfl) ?_ (.single .breakLoop shows') .done
    have text : "if " ++ ("not (" ++ test.text ++ ")") ++ ":" =
        "if not (" ++ test.text ++ "):" := by
      rw [← String.toList_inj]
      simp
    exact text ▸ shows
  rw [List.append_nil] at written
  refine ⟨xs ++ ys, written, ?_⟩
  have start : (breakUnless test >>= f) (s.nested levels ls) =
      (do emit s!"if not ({test.text}):"; indent; emit "break"; dedent; f ())
      (s.nested levels ls) := by
    simp [breakUnless, bind_assoc]
  rw [start, run, nested_indent, run', nested_dedent, List.append_assoc]

lemma takeSince_wrote (wrote : s.Wrote 0 s1 lines) :
    ∃ ls, s1.listing.takeSince s.listing.mark = (ls, s.listing) ∧
      Written Eq s.listing.depth lines ls := by
  obtain ⟨ls, same, written⟩ := wrote
  exact ⟨ls, by rw [same, Listing.takeSince_extend], written⟩

/-- The lines before the body of a loop whose test is made before each pass. -/
def WhileHead (d : Nat) (test : Awk.Test) (hs : List String) : Prop :=
  if test.lines.isDone then Shows d ("while " ++ test.text ++ ":") hs
  else ∃ ws ls xs, hs = ws ++ Listing.deeper 1 ls ++ xs ∧ Shows d "while True:" ws ∧
    Written Eq d test.lines ls ∧
    Written Eq (d + 1) (.when (.fails test.text) (.line .breakLoop .done) .done) xs

lemma WhileHead.written {code : Code}
    (head : WhileHead d test hs) (body : Written Eq (d + 1) code.desugar bs) :
    Written Eq d (Code.whileLoop test code).desugar (hs ++ bs) := by
  rw [Code.desugar]
  rw [WhileHead] at head
  split at head
  case isTrue done =>
    rw [if_pos done]
    simpa using Written.loop (.holds rfl) head body .done
  case isFalse lines =>
    rw [if_neg lines]
    obtain ⟨ws, ls, xs, rfl, shows, written, exit⟩ := head
    have inner := ((Nat.add_comm 1 d ▸ written.deeper 1).append exit).append body
    rw [Block.append_assoc] at inner
    simpa [Code.exitUnless] using Written.loop .always shows inner .done

lemma whileLoop_compiled (hi : Compiles inner) (sound : s.Sound)
    (kind : s.symbol.kind = .keyword .whileLoop) (h : whileLoop inner s = .ok () s') :
    Compiled .statement 0 s s' := by
  rw [whileLoop, advance_bind, mark_bind] at h
  have p := passed_keyword sound kind
  obtain ⟨test, s1, h1, h⟩ := bind_ok.mp h
  obtain ⟨head, lines, p1, wrote, spelledHead⟩ := parenthesisedCondition_ok p.sound h1
  obtain ⟨taken, since, written⟩ := takeSince_wrote wrote
  rw [takeSince_bind, since, written.isEmpty_eq] at h
  let s2 : Session := { s1 with listing := s.listing }
  have passed : s.Passed s2 (.keyword .whileLoop :: head) := (p.trans p1).relist s.listing s.listing
  have head : ∃ hs, WhileHead s.listing.depth ⟨lines, test.text⟩ hs ∧
      body inner (s2.written hs) = .ok () s' := by
    split at h
    case isTrue done =>
      obtain ⟨_, s3, h3, h⟩ := bind_ok.mp h
      obtain ⟨ws, rfl, shows⟩ := emit_ok passed.sound h3
      exact ⟨ws, by rw [WhileHead, if_pos done]; exact shows, h⟩
    case isFalse some =>
      obtain ⟨_, s3, h3, h⟩ := bind_ok.mp h
      obtain ⟨ws, rfl, shows⟩ := emit_ok passed.sound h3
      obtain ⟨xs, exit, run⟩ := nested_breakUnless 1
        (ws ++ Listing.deeper 1 taken) passed.sound test fun _ => do dedent; body inner
      rw [written_eq_nested, nested_appendLines, nested_indent, run, nested_dedent] at h
      exact ⟨_, by rw [WhileHead, if_neg some]; exact ⟨ws, taken, xs, rfl, shows, written, exit⟩, h⟩
  obtain ⟨hs, head, h⟩ := head
  obtain ⟨code, ks, n, p2, ⟨bs, same, writtenBody⟩, spelled, fresh, closed, filled, some⟩ :=
    body_compiled hi (passed.sound.written hs) h
  rw [written_depth] at writtenBody
  have tested := spelledHead.behind
    (((Passed.refl p1.sound).relist s1.listing s.listing).written hs)
  refine ⟨.whileLoop ⟨lines, test.text⟩ code, _, n, (passed.written hs).trans p2,
    ⟨hs ++ bs, ?_, head.written writtenBody⟩, .whileLoop p tested spelled,
    fresh.mono passed.temporaries (Nat.le_refl _), closed, ⟨some rfl, filled⟩, nofun⟩
  rw [same]
  simp [Session.written, s2]

/-! ### Loops with their test at the end -/

/-- The lines before the body of a loop whose first pass is not tested. -/
def doHead (d : Nat) (flag text : String) (lines : List String) : List String :=
  if lines.isEmpty then [Listing.indentation d ++ s!"while {flag} or ({text}):"]
  else
    [Listing.indentation d ++ "while True:", Listing.indentation d ++ s!"    if not {flag}:"] ++
      Listing.deeper 2 lines ++ [Listing.indentation d ++ s!"        if not ({text}):",
        Listing.indentation d ++ "            break"]

/-- The head is put between the lines before a mark and those behind it. -/
lemma insertLoopHead_run {l : Listing} {a b : List String} (same : s.listing = l.extend (a ++ b))
    (flag : String) (test : Fragment) (lines : List String) :
    insertLoopHead (l.mark + a.length) flag test lines s = .ok () { s with
      listing := l.extend (a ++ doHead l.depth flag test.text lines ++ b) } := by
  rw [insertLoopHead, doHead]
  split
  · change EStateM.Result.ok () { s with listing := s.listing.insert _ _ } = _
    rw [same, Listing.insert_extend]
  · -- each line goes behind those that were put there before it
    let loop := Listing.indentation l.depth ++ "while True:"
    let guard := Listing.indentation l.depth ++ s!"    if not {flag}:"
    let exit := Listing.indentation l.depth ++ s!"        if not ({test.text}):"
    have at2 : l.mark + a.length + 1 = l.mark + (a ++ [loop]).length := by
      simp only [List.length_append, List.length_singleton]
      omega
    have at3 : l.mark + a.length + 2 = l.mark + (a ++ [loop] ++ [guard]).length := by
      simp only [List.length_append, List.length_singleton]
      omega
    have at4 : l.mark + a.length + 2 + lines.length =
        l.mark + (a ++ [loop] ++ [guard] ++ Listing.deeper 2 lines).length := by
      simp only [List.length_append, List.length_singleton, Listing.deeper, List.length_map]
      omega
    have at5 : l.mark + a.length + 3 + lines.length =
        l.mark + (a ++ [loop] ++ [guard] ++ Listing.deeper 2 lines ++ [exit]).length := by
      simp only [List.length_append, List.length_singleton, Listing.deeper, List.length_map]
      omega
    change EStateM.Result.ok () { s with listing :=
      ((((s.listing.insert _ _).insert _ _).insertLines _ _ _).insert _ _).insert _ _ } = _
    rw [at5, at4, at3, at2, same, Listing.insert_extend, Listing.insert_extend,
      Listing.insertLines_extend, Listing.insert_extend, Listing.insert_extend]
    simp

/-- The flag is set, the head stands before the line that clears it, and the body
comes last. -/
lemma written_doLoop (test : Test) {code : Code}
    (first : Shows d (Code.flag n ++ "=True") fs) (written : Written Eq d test.lines taken)
    (body : Written Eq (d + 1) code.desugar bs) : Written Eq d (Code.doLoop n code test).desugar
      (fs ++ (doHead d (Code.flag n) test.text taken ++
        ([Listing.indentation (d + 1) ++ (Code.flag n ++ "=False")] ++ bs))) := by
  rw [Code.desugar, doHead, written.isEmpty_eq]
  refine .line (.setFlag _ true) first ?_
  have pass : Written Eq (d + 1) (.line (.setFlag (Code.flag n) false) code.desugar)
      ([Listing.indentation (d + 1) ++ (Code.flag n ++ "=False")] ++ bs) :=
    .line (.setFlag _ false) (Shows.bare (d + 1) 0 (by simp [Listing.indentation])) body
  split
  · have head : Shows d ("while " ++ (Code.flag n ++ " or (" ++ test.text ++ ")") ++ ":")
        [Listing.indentation d ++ s!"while {Awk.Code.flag n} or ({test.text}):"] := by
      refine Shows.bare d 0 ?_
      rw [← String.toList_inj]
      simp [Listing.indentation, toString]
    simpa using Written.loop (.isSetOr _ rfl) head pass .done
  · have loop : Shows d "while True:" [Listing.indentation d ++ "while True:"] :=
      Shows.bare d 0 (by decide)
    have guard : Shows (d + 1) ("if " ++ ("not " ++ Code.flag n) ++ ":")
        [Listing.indentation d ++ s!"    if not {Awk.Code.flag n}:"] := by
      refine Shows.bare d 1 ?_
      rw [← String.toList_inj]
      simp [Listing.indentation, Listing.step, toString]
    have exit : Shows (d + 2) ("if " ++ ("not (" ++ test.text ++ ")") ++ ":")
        [Listing.indentation d ++ s!"        if not ({test.text}):"] := by
      refine Shows.bare d 2 ?_
      rw [← String.toList_inj]
      simp [Listing.indentation, Listing.step, toString]
    have leave : Shows (d + 3) "break" [Listing.indentation d ++ "            break"] :=
      Shows.bare d 3 (by decide)
    have again : Written Eq (d + 2) (Code.exitUnless test .done) _ :=
      (Nat.add_comm 2 d ▸ written.deeper 2).append
        (.when (.fails rfl) exit (.single .breakLoop leave) .done)
    simpa using Written.loop .always loop (.when (.isUnset _) guard again pass) .done

lemma doLoop_compiled (hi : Compiles inner) (sound : s.Sound)
    (kind : s.symbol.kind = .keyword .doLoop) (h : doLoop inner s = .ok () s') :
    Compiled .statement 0 s s' := by
  rw [doLoop, advance_bind, nextTemporary_bind] at h
  have p := (passed_keyword sound kind).count (Nat.le_succ s.temporaries)
  let s0 : Session := { s with cursor := s.cursor.advance, temporaries := s.temporaries + 1 }
  let flag := Code.flag (s.temporaries + 1)
  let clear := Listing.indentation (s.listing.depth + 1) ++ (flag ++ "=False")
  obtain ⟨_, s1, h1, h⟩ := bind_ok.mp h
  obtain ⟨fs, rfl, first⟩ := emit_ok p.sound h1
  rw [mark_bind, indent, write_bind, write_bind, dedent, write_bind] at h
  obtain ⟨_, s2, h2, h⟩ := bind_ok.mp h
  have start : body inner (s0.written (fs ++ [clear])) = .ok () s2 := by
    have same : (((s0.written fs).listing.indent).line (flag ++ "=False")).dedent =
        (s0.written (fs ++ [clear])).listing := by
      rw [Listing.line_eq_extend, Listing.indent_extend, Listing.dedent_indent]
      simp [Session.written, s0, clear]
    refine Eq.trans ?_ h2
    change _ = body inner { s0.written fs with
      listing := (((s0.written fs).listing.indent).line (flag ++ "=False")).dedent }
    rw [same]
    rfl
  obtain ⟨code, ks, n, p2, ⟨bs, same2, writtenBody⟩, spelled, fresh, -, filled, -⟩ :=
    body_compiled hi (p.sound.written _) start
  rw [written_depth] at writtenBody
  have listing2 : s2.listing = s.listing.extend (fs ++ ([clear] ++ bs)) := by
    rw [same2]
    simp [Session.written]
  have passed := (p.written (fs ++ [clear])).trans p2
  rw [skipTerminators_bind, atKind_bind] at h
  obtain ⟨between, p3, separators⟩ := (Passed.refl p2.sound).skipTerminators
  obtain ⟨found, h⟩ := check_ok h
  beta_reduce at h
  rw [advance_bind, mark_bind] at h
  have kind3 : (s2.table.symbol (s2.cursor.skip fun t =>
      (s2.table.symbol t.symbol).isConsumedTerminator).current.symbol).kind =
        .keyword .whileLoop := by simpa using found
  have p4 := p3.advance (k := .keyword .whileLoop) (by rw [Session.symbol, kind3]; rfl) (by simp)
  obtain ⟨test, s5, h5, h⟩ := bind_ok.mp h
  obtain ⟨head, lines, p5, wrote, spelledHead⟩ := parenthesisedCondition_ok p4.sound h5
  obtain ⟨taken, since, written⟩ := takeSince_wrote wrote
  rw [takeSince_bind, since] at h
  obtain ⟨_, s6, h6, h⟩ := bind_ok.mp h
  have mark : (s0.written fs).listing.mark = s.listing.mark + fs.length := Listing.mark_extend _ _
  have run := insertLoopHead_run (s := { s5 with listing := s2.listing }) listing2 flag test taken
  rw [← mark] at run
  cases h6.symm.trans run
  have depth2 : s2.listing.depth = s.listing.depth := by
    rw [listing2, Listing.extend_toPosition]
  rw [depth2] at written
  have inserted := (Passed.refl p5.sound).relist s5.listing
    (s.listing.extend (fs ++ doHead s.listing.depth flag test.text taken ++ ([clear] ++ bs)))
  have tested := spelledHead.behind inserted
  have p6 := (passed.trans p4).trans (p5.trans inserted)
  obtain ⟨ending, p7, hending, same7, -⟩ := endSimple_ok p6.sound h
  have wroteAll := written_doLoop ⟨lines, test.text⟩ first written writtenBody
  refine ⟨.doLoop (s.temporaries + 1) code ⟨lines, test.text⟩, _, n, ?_, ⟨_, ?_, wroteAll⟩,
    .doLoop (s.temporaries + 1) (p.written (fs ++ [clear])) spelled separators p4 tested hending p7,
    ?_, (fun loose => by cases loose), filled, fun body => by cases body⟩
  · simpa using p6.trans p7
  · rw [same7, List.append_assoc]
  · exact ⟨Nat.lt_succ_self _, Nat.le_trans p2.temporaries (p5.temporaries.trans p7.temporaries),
      fresh.mono (Nat.le_refl _) (p5.temporaries.trans p7.temporaries)⟩

end Statement

end AwkToPython
