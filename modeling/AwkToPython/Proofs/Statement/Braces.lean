import AwkToPython.Proofs.Statement.ForLoop
import AwkToPython.Proofs.Token.Reading

/-!
# The braces of a statement

Whatever a statement is made of, the tokens that it passes close as many braces
as they open, and one more for each closing brace that a branch takes before an
`else` although the block that it closes is around the branch. So the braces
balance exactly if no branch does that.
-/
namespace AwkToPython

variable {s s' : Session}

/-- A statement passes tokens that spell it. Its braces balance, and each `else`
belongs to the branch that owns the block before it, exactly if no branch takes a
brace from around it. -/
theorem Statement.statementWithin_braces (depth : Nat) (sound : s.Sound)
    (run : statementWithin depth s = .ok () s') :
    ∃ ts code n, s.cursor.shown = ts ++ s'.cursor.shown ∧
      Awk.Code.Spelled .statement code s s' (s.kinds ts) n ∧
      closes (s.kinds ts) = opens (s.kinds ts) + n ∧ (Balanced (s.kinds ts) ↔ n = 0) := by
  obtain ⟨code, ks, n, passed, -, spelled, -⟩ := statementWithin_compiled depth s s' sound run
  obtain ⟨ts, shown, rfl⟩ := passed.shown
  exact ⟨ts, code, n, shown, spelled, spelled.excess.total, spelled.excess.balanced_iff⟩

/-- A branch inside a block, with the `else` of the branch around it. -/
theorem Statement.statementWithin_braces_nested :
    let s := Session.ofWords ["if", "(", "NR", ")", "\x7b", "if", "(", "NF", ")", "print", ";", ";",
      "\x7d", "else", "print"]
    let s' := Compile.after (Statement.statementWithin 4 s)
    s.Sound ∧ statementWithin 4 s = .ok () s' ∧ ∃ ts code n,
      s.cursor.shown = ts ++ s'.cursor.shown ∧
      Awk.Code.Spelled .statement code s s' (s.kinds ts) n ∧
      closes (s.kinds ts) = opens (s.kinds ts) + n ∧ (Balanced (s.kinds ts) ↔ n = 0) := by
  intro s s'
  have run : statementWithin 4 s = .ok () s' := Compile.ok_after (by decide +kernel)
  exact ⟨Session.ofWords_sound _, run, statementWithin_braces 4 (Session.ofWords_sound _) run⟩

/-- The branch in `if (NR) print } else print }` takes the brace that closes the
block around it and the `else` behind that, so one brace is closed too many. -/
theorem Statement.not_balanced_before_else :
    let s := Session.ofWords ["if", "(", "NR", ")", "print", "\x7d", "else", "print", "\x7d"]
    let s' := Compile.after (Statement.statementWithin 2 s)
    s.Sound ∧ statementWithin 2 s = .ok () s' ∧
      ∃ ts, s.cursor.shown = ts ++ s'.cursor.shown ∧ ¬Balanced (s.kinds ts) := by
  intro s s'
  have run : statementWithin 2 s = .ok () s' := Compile.ok_after (by decide +kernel)
  have passed : s.cursor.shown = s.cursor.shown.take 8 ++ s'.cursor.shown := by decide +kernel
  refine ⟨Session.ofWords_sound _, run, _, passed, fun balanced => ?_⟩
  exact absurd balanced.2 (by decide +kernel)

end AwkToPython
