import AwkToPython.Format.Template
import Mathlib.Tactic.Lemma

/-!
# The parts of a formatted call

A replacement field is made in steps, of which some are left out. Here each step
stands alone, so that it can be reasoned about on its own, and the code of a call
is said in terms of the texts of its pieces and of the slots they fill.
-/
namespace AwkToPython.Format

namespace Slots

/-- What is worth reporting of a flag. -/
def noteFlag : Option Char → Fill Unit
  | some flag => if flag ≠ '-' then warn (.ignoredFlag flag) else pure ()
  | none => pure ()

/-- The slot of a value and what ends its replacement field. -/
def valueSlot (c : Conversion) (position : Nat) :
    Option (String × Option String) → Fill (Nat × String)
  | some (format, count) => do return (← percentSlot format count position, "")
  | none => do return (← slot position c, c.suffix)

/-- The replacement field of a slot. -/
def replacementField (s : Specifier) (width point : String) (value : Nat × String) : String :=
  if width ++ point = "" then braced (toString value.1)
  else braced (toString value.1 ++ ":" ++ (if s.flag = some '-' then "<" else ">") ++ width ++
    point ++ value.2)

/-- The precision of a specifier, or that of its conversion. -/
def precisionText (s : Specifier) (c : Conversion) : String :=
  if s.precision = "" then c.precision.getD "" else s.precision

/-- The width, if there is anything to shape. -/
def widthPart (s : Specifier) (c : Conversion) : Fill String :=
  if s.width ≠ "" || precisionText s c ≠ "" then width s c.isInteger else pure ""

/-- The percent format of an integer with a precision. -/
def digitsPart (s : Specifier) (c : Conversion) : Fill (Option (String × Option String)) :=
  if c.isInteger && precisionText s c ≠ "" then some <$> digits c (precisionText s c) else pure none

/-- The precision of what is no integer. -/
def pointPart (s : Specifier) (c : Conversion) : Fill String :=
  if !c.isInteger && precisionText s c ≠ "" then point (precisionText s c) else pure ""

lemma field_eq (s : Specifier) (c : Conversion) : field s c = (do
    noteFlag s.flag let width ← widthPart s c let digits ← digitsPart s c let point ← pointPart s c
    let position ← position s let value ← valueSlot c position digits
    return replacementField s width point value) := by
  -- what follows a branch stands in both of its arms
  have noted : ∀ f : Unit → Fill String, (match s.flag with
      | some flag => if flag ≠ '-' then warn (.ignoredFlag flag) >>= f else f ()
      | none => f ()) = noteFlag s.flag >>= f := by
    intro f
    cases s.flag with
    | none => rfl
    | some flag =>
      unfold noteFlag
      dsimp only
      split <;> rfl
  have branch : ∀ {α : Type} (b : Bool) (x : Fill α) (a : α) (f : α → Fill String),
      (if b = true then x >>= f else pure a >>= f) = (if b = true then x else pure a) >>= f := by
    intro α b x a f
    split <;> rfl
  unfold field widthPart digitsPart pointPart
  refine (noted _).trans (bind_congr fun _ => ?_)
  refine (branch _ _ _ _).trans (bind_congr fun width => ?_)
  refine (branch _ _ _ _).trans (bind_congr fun digits => ?_)
  refine (branch _ _ _ _).trans (bind_congr fun point => bind_congr fun position => ?_)
  unfold replacementField
  rcases digits with _ | ⟨format, count⟩
  all_goals
    simp only [valueSlot, bind_assoc, pure_bind]
    refine bind_congr fun slot => ?_
    split <;> rfl

end Slots

/-- A template with the texts that fill its slots. -/
def callText (doubled : Bool) (template : String) (outputs : List String) : String :=
  if outputs.isEmpty then if doubled then template ++ ".format()" else template
  else template ++ ".format(" ++ Text.join ", " outputs ++ ")"

lemma compileLiteral_code
    (run : (pieces format.toList).mapM Slots.piece { arguments } = (texts, slots)) :
    (compileLiteral format arguments).code =
      callText ((pieces format.toList).any isBracePiece) (String.join texts)
        slots.outputs.toList := by
  simp only [compileLiteral, StateT.run, run]
  rfl

end AwkToPython.Format
