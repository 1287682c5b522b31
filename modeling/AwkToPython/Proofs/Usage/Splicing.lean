import AwkToPython.Program
import AwkToPython.Proofs.Usage.Source

/-!
# How often an operand is written

A construct calls what its operands call as often as it writes them. Most constructs
write an operand once, but a substitution writes the place of its target where it
reads it and where it stores it.
-/
namespace AwkToPython.Expression

open Compile Python

/-! ### Texts -/

/-- The text behind an equals sign is apart from the number in front of it. -/
lemma helps_store (head text : String) (n : Nat) :
    helps (head ++ toString n ++ " = " ++ text) = helps head + helps text := by
  have equals : helps " = " = 0 := by decide
  have cut : endsCut (head ++ toString n ++ " = ") = true := by
    rw [endsCut_append (by decide)]
    decide
  rw [helps_append_endsCut cut, helps_append_startsCut (by decide), helps_numbered, equals,
    Nat.add_zero]

lemma helps_bracketed (head : String) (n : Nat) :
    helps (head ++ toString n ++ ")") = helps head := by
  have bracket : helps ")" = 0 := by decide
  rw [helps_append_startsCut (b := ")") (by decide), helps_numbered, bracket, Nat.add_zero]

lemma helps_stringified (f : Fragment) : helps f.stringified = helps f.text := by
  rw [Fragment.stringified]
  split
  · rfl
  · exact helps_fixed "str(" [none, some ")"] [f.text] (by decide) rfl

lemma helps_substitution (regex new subject : String) (count : Nat) :
    helps s!"{regex}.subn({new}, {subject}, {count})" =
      helps regex + helps new + helps subject := by
  have all : helps s!"{regex}.subn({new}, {subject}, {count})" =
      helpsAll [regex, new, subject, toString count] :=
    helps_gap regex [some ".subn(", none, some ", ", none, some ", ", none, some ")"]
      [new, subject, toString count] (by decide) rfl
  rw [all]
  simp only [helpsAll, helps_toString]
  omega

/-! ### Constructs -/

lemma forM_one (text : String) : [text].forM emit = emit text := by simp

lemma forM_two (first second : String) :
    [first, second].forM emit = (do emit first; emit second) := by simp

variable {s s' : Session}

/-- A substitution writes the place of its target twice, and anything that is no
place once. -/
theorem substitution_writes_places_twice (n count : Nat) (regex new : String) (f : Fragment) :
    ∃ texts,
      writeSubstitution n (fun subject => s!"{regex}.subn({new}, {subject}, {count})") (some f) =
        texts.forM emit ∧
      helpsAll texts = helps regex + helps new + match f.target with
        | some (.var _) => 2 * helps f.text
        | some (.element base index) => 2 * (helps base + helps index)
        | some (.field index) => 2 * helps index
        | none => helps f.text := by
  let call (subject : String) : String := s!"{regex}.subn({new}, {subject}, {count})"
  have line : ∀ head subject, helps (head ++ toString n ++ " = " ++ call subject) =
      helps head + (helps regex + helps new + helps subject) := fun head subject =>
    (helps_store head _ n).trans (congrArg _ (helps_substitution regex new subject count))
  have changed : helps ", num_changed_" = 0 ∧ helps "_, num_changed_" = 0 := by decide
  rcases target : f.target with _ | (id | ⟨base, index⟩ | index)
  · refine ⟨["_, num_changed_" ++ toString n ++ " = " ++ call f.stringified],
      by rw [forM_one]; simp only [writeSubstitution, target]; rfl, ?_⟩
    rw [helpsAll, line, helps_stringified, changed.2, Nat.zero_add]
  · refine ⟨[f.text ++ ", num_changed_" ++ toString n ++ " = " ++ call f.stringified],
      by rw [forM_one]; simp only [writeSubstitution, target]; rfl, ?_⟩
    rw [helpsAll, line, helps_stringified, helps_append_startsCut (by decide), changed.1]
    change _ = helps regex + helps new + 2 * helps f.text
    omega
  · refine ⟨[s!"{base}[{index}], num_changed_" ++ toString n ++ " = " ++
        call s!"str({base}[{index}])"],
      by rw [forM_one]; simp only [writeSubstitution, target]; rfl, ?_⟩
    have stored : helps s!"{base}[{index}], num_changed_" = helps base + helps index :=
      helps_gap base [some "[", none, some "], num_changed_"] [index] (by decide) rfl
    have read : helps s!"str({base}[{index}])" = helps base + helps index :=
      helps_fixed "str(" [none, some "[", none, some "])"] [base, index] (by decide) rfl
    rw [helpsAll, line, stored, read]
    change _ = helps regex + helps new + 2 * (helps base + helps index)
    omega
  · have read : helps s!"str(self._FLDS[{index}])" = helps index :=
      helps_fixed "str(self._FLDS[" [none, some "])"] [index] (by decide) rfl
    have stored : helps ("target_" ++ toString n ++ ", num_changed_") = 0 := by
      have silent : helps "target_" = 0 := by decide
      rw [helps_append_startsCut (by decide), helps_numbered, silent, changed.1]
    by_cases zero : index = "0"
    · subst zero
      refine ⟨["target_" ++ toString n ++ ", num_changed_" ++ toString n ++ " = " ++
          call "str(self._FLDS[0])", "self._set_dollar_fields(target_" ++ toString n ++ ")"],
        by rw [forM_two]; simp only [writeSubstitution, target]; rfl, ?_⟩
      have set : helps "self._set_dollar_fields(target_" = 0 := by decide
      rw [helpsAll_cons, helpsAll, line, stored, helps_bracketed, set, Nat.zero_add]
      exact congrArg _ read
    · refine ⟨["target_" ++ toString n ++ ", num_changed_" ++ toString n ++ " = " ++
          call s!"str(self._FLDS[{index}])",
          s!"self._set_dollar_field({index}, target_" ++ toString n ++ ")"],
        by rw [forM_two]; simp only [writeSubstitution, target, zero]; rfl, ?_⟩
      have set : helps s!"self._set_dollar_field({index}, target_" = helps index :=
        helps_fixed "self._set_dollar_field(" [none, some ", target_"] [index] (by decide) rfl
      rw [helpsAll_cons, helpsAll, line, stored, read, helps_bracketed, set]
      change _ = helps regex + helps new + 2 * helps index
      omega

/-- One step in the index of a target is written twice; the same index is kept in a
temporary where a field is updated. -/
theorem index_stepped_twice :
    let lines := fun source : String =>
      Program.sectionLines (Call.last {} [.source (.program source)]).listing .start
    helpsAll (lines "BEGIN \x7b sub(/x/, \"y\", $(i++)) \x7d") = 2 ∧
      helpsAll (lines "BEGIN \x7b $(i++) += 1 \x7d") = 1 := by
  decide +kernel

end AwkToPython.Expression
