import AwkToPython.Proofs.Expression.Plain
import AwkToPython.Proofs.Usage.Writes

/-!
# What an expression says of its variables

Where an operand ends with the name of a variable, the fragment stands for that
variable, or it is known to be a scalar already. So an assignment that follows is
one to the variable right before it.
-/
namespace AwkToPython

variable {id : SymbolId} {line : Nat} {s s' : Session}

open Compile Expression List AwkToPython.Symbol Table Session

namespace Session

variable {s s' s'' : Session} {f : Fragment} {target : Option Target} {k : SymbolKind}

/-- A variable right before the current token is what a fragment stands for, or a
scalar. -/
def Settled (s : Session) (target : Option Target) : Prop :=
  ∀ p ∈ s.cursor.prior, (s.table.symbol p.symbol).isVariable = true →
    target = some (.var p.symbol) ∨ s.table.isScalar p.symbol = true

namespace Settled

lemma any (h : s.Settled none) (target : Option Target) : s.Settled target := fun p mem var =>
  .inr ((h p mem var).resolve_left nofun)

lemma grows {t : Table} (h : s.Settled target) (sound : s.Sound) (g : s.table.Grows t) :
    Settled { s with table := t } target := by
  intro p mem var
  rw [isVariable_of_word (g.word _ (sound.prior p mem).valid)] at var
  exact (h p mem var).imp_right g.isScalar

lemma alike (h : s.Settled target) (alike : s.Alike s') : s'.Settled target := by
  intro p mem var
  rw [alike.prior] at mem
  rw [alike.table] at var ⊢
  exact h p mem var

/-- After a token that is no variable. -/
lemma past (kind : s.symbol.kind = k) (plain : ∀ use, k ≠ .var use) :
    s.past.Settled target := by
  intro p mem var
  rw [Cursor.advance_prior, Option.mem_some_iff] at mem
  obtain ⟨use, found⟩ := isVariable_iff.mp var
  rw [← mem] at found
  exact absurd (kind.symm.trans found) (plain use)

/-- A variable that is marked is a scalar from then on. -/
lemma mark (h : s.Settled (some (.var id))) (sound : s.Sound)
    (run : markScalar id line s = .ok () s') : s'.Settled none := by
  obtain ⟨t, changed, rfl⟩ := changeTable_eq run
  have g := grows_markScalar changed
  intro p mem var
  rw [isVariable_of_word (g.word _ (sound.prior p mem).valid)] at var
  rcases h p mem var with same | scalar
  · cases same
    exact .inr (isScalar_of_markScalar changed var)
  · exact .inr (g.isScalar scalar)

/-- What a fragment stands for is a scalar once its value is used. -/
lemma use (h : s.Settled f.target) (sound : s.Sound) (run : useAsScalar f s = .ok () s') :
    s'.Settled none := by
  rcases ht : f.target with _ | (id | _ | _)
  case some.var =>
    simp only [useAsScalar, ht, line_bind] at run
    exact (ht ▸ h).mark sound run
  all_goals
    simp only [useAsScalar, ht] at run
    cases run
    rw [ht] at h
    exact fun p mem var => .inr ((h p mem var).resolve_left (by simp))

end Settled

/-- A scalar stays settled whatever else is used. -/
lemma Settled.later (h : s.Settled target) (sound : s.Sound)
    (run : useAsScalar f s = .ok () s') : s'.Settled target := by
  obtain ⟨t, g, rfl⟩ := useAsScalar_ok run
  exact h.grows sound g

/-- A note leaves the current token as it is. -/
lemma noted_symbol : s.noted.symbol = s.symbol := by
  rw [noted]
  split <;> rfl

namespace Trip

lemma use (h : s.Trip s') (run : useAsScalar f s' = .ok () s'') : s.Trip s'' := by
  obtain ⟨t, g, rfl⟩ := useAsScalar_ok run
  exact h.grow g

lemma markScalar (h : s.Trip s')
    (run : Compile.markScalar id line s' = .ok () s'') : s.Trip s'' := by
  obtain ⟨t, g, rfl⟩ := markScalar_ok run
  exact h.grow g

lemma markArray (h : s.Trip s') (run : Compile.markArray id line s' = .ok () s'') : s.Trip s'' := by
  obtain ⟨t, g, rfl⟩ := markArray_ok run
  exact h.grow g

lemma without (h : s.Trip s') (mark : Nat) : s.Trip (s'.without mark) :=
  h.alike ⟨rfl, rfl, rfl, rfl, rfl, congrArg Position.bucket (Listing.takeSince_toPosition _ _),
    fun _ => id⟩ (congrArg Position.depth (Listing.takeSince_toPosition _ _))

/-- Pass a token of a kind that says nothing of the one before it. -/
lemma pastKind (h : s.Trip s') (kind : s'.symbol.kind = k)
    (passable : (k.isSilent && k != .endOfInput)) : s.Trip s'.past := by
  simp only [Bool.and_eq_true, bne_iff_ne] at passable
  exact h.past (kind ▸ passable.2) (kind ▸ passable.1)

/-- What comes after the current token makes good what it says of the one before
it. -/
lemma pastFirst (sound : s.Sound) (h : s.past.Trip s') (inner : s.symbol.kind ≠ .endOfInput)
    (linked : ∀ p ∈ s.cursor.prior, Token.Linked s'.table p s.cursor.current) : s.Trip s' := by
  obtain ⟨ts, shown, prior, links⟩ := h.tokens
  rw [Cursor.advance_prior] at prior
  rw [Links, Cursor.advance_prior] at links
  refine ⟨⟨sound, h.table, h.position, h.setting, h.sound⟩, s.cursor.current :: ts, ?_, ?_, ?_⟩
  · rw [sound.shown_advance inner, shown]
    rfl
  · rw [prior]
    cases s.cursor.prior <;> simp
  · rw [Links]
    cases found : s.cursor.prior with
    | none => exact links
    | some p => exact isChain_cons_cons.mpr ⟨linked p found, links⟩

end Trip

end Session

namespace Expression

section Operators

variable {s : Session} {op : Symbol} {limit : Nat}

/-- The operator stands at the current token, or that token is a sign. -/
lemma operates_cases (here : s.Operates op limit) :
    (∃ unary binary, s.symbol.kind = .ambiguous unary binary ∧ op = s.table.symbol binary) ∨
      s.symbol = op ∧ op.isBinary := by
  have found := here.1
  rw [operatorAt] at found
  cases kind : s.symbol.kind with
  | ambiguous unary binary =>
    simp only [kind, Option.some.injEq] at found
    exact .inl ⟨unary, binary, rfl, found.symm⟩
  | binary k =>
    simp only [kind, Option.some.injEq] at found
    exact .inr ⟨found, by rw [isBinary, ← found, kind]⟩
  | _ => simp [kind] at found

/-- Only arithmetic binds as tight as an operator at one operand. -/
lemma loose_of_operates {k : BinaryOp} (sound : s.Sound) (here : s.Operates op limit)
    (kind : op.kind = .binary k) (ne : k ≠ .arithmetic) : ¬ limit ≤ unaryLevel := by
  have binary : op.isBinary := by rw [isBinary, kind]
  have regular : op.Regular := by
    rcases operates_cases here with ⟨_, other, -, rfl⟩ | ⟨rfl, -⟩ <;> exact sound.proper.regular _
  have level : 5 ≤ op.awkLevel := by
    refine (regular.loose binary).2.resolve_left fun arithmetic => ne ?_
    simpa [kind] using arithmetic
  have := here.2
  simp only [unaryLevel]
  omega

end Operators

/-- What has to be given of a variable before a phrase. -/
def Phrase.Begins (s : Session) : Phrase → Prop
  | .goal (.rest left _ limit) | .extension left _ limit =>
    left.target ≠ none ∨ limit ≤ unaryLevel → s.Settled left.target
  | .call function _ => s.symbol.kind = .function function
  | .getlineTarget => s.Settled none
  | .getline _ => s.symbol.kind = .keyword .getline
  | _ => True

/-- What is known of a variable at the end of a phrase. -/
def Phrase.Ends (s : Session) (fs : List Fragment) (s' : Session) : Phrase → Prop
  | .goal (.operation _ limit) | .goal (.rest _ _ limit) | .extension _ _ limit =>
    ∀ f ∈ fs, f.target ≠ none ∨ limit ≤ unaryLevel → s'.Settled f.target
  | .goal (.signed _) | .goal (.operand _) | .call _ _ | .getline _ => ∀ f ∈ fs, s'.Settled f.target
  | .arguments _ => s'.Settled none
  | .getlineTarget => s'.Settled (fs.head?.bind (·.target))
  | .getlineSource _ => ∀ target, s.Settled target → s'.Settled target
  | _ => True

lemma trip_assignment {op : Symbol} {limit : Nat} {left : Fragment}
    (sound : s.Sound) (here : s.Operates op limit) (kind : op.kind = .binary .assign)
    (settled : s.Settled left.target) (trip : s.past.Trip s')
    (marked : ∀ p ∈ s.cursor.prior, (s'.table.symbol p.symbol).isVariable →
      left.target = some (.var p.symbol) → s'.table.isScalar p.symbol) : s.Trip s' := by
  have word := trip.table.word _ sound.current.valid
  have plain : s.symbol.kind ≠ .endOfInput ∧ s.symbol.kind ≠ .bracket .openBracket := by
    rcases operates_cases here with ⟨_, _, sign, -⟩ | ⟨same, -⟩
    · simp [sign]
    · simp [same, kind]
  refine .pastFirst sound trip plain.1 fun p mem var => ⟨fun subscript => ?_, fun _ => ?_⟩
  · exact absurd (kind_of_word word.symm (of_decide_eq_true subscript) (by simp)) plain.2
  · have before := var
    rw [isVariable_of_word (trip.table.word _ (sound.prior p mem).valid)] at before
    exact (settled p mem before).elim (marked p mem var) trip.table.isScalar

end Expression

end AwkToPython
