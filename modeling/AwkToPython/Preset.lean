import AwkToPython.Decimal.Notation
import AwkToPython.Session

/-!
# Presets

A preset `name=value` lets a variable start the program with a value. A value
that reads as a number stays one.
-/
namespace AwkToPython

namespace Preset

/-- A text of digits, points, exponent marks and signs, with at least one digit. -/
def looksNumeric (value : List Char) : Bool :=
  value.any Char.isDigit &&
    value.all fun c => c.isDigit || c = '.' || c = 'e' || c = 'E' || c = '+' || c = '-'

/-- The value of a floating-point text, in the fewest digits that read back. -/
def decimal? (value : String) : Option String :=
  if looksNumeric value.toList then (Decimal.numeral? value.toList).map (·.text) else none

/-- The Python literal of a value: an integer, a decimal number, or a string whose
escapes are those of an AWK string. -/
def literal (value : String) : String :=
  match Text.signed64? value with
  | some n => toString n
  | none => (decimal? value).getD (Literal.python (Literal.value ("\"" ++ value ++ "\"")))

def applied? (s : Symbol) (value : String) : Option Symbol :=
  match s.kind with
  | .var use =>
    if use.isArray then none
    else some { s with kind := .var { use with builtIn := false, isScalar := true },
                       initial := literal value }
  | _ => none

end Preset

namespace Compile

/-- Preset a variable; it must not be an array or a word of the language. -/
def preset (assignment : String) : Compile Unit := do
  match Text.cut? "=" assignment with
  | none => throw (.usage (.invalidAssignment assignment))
  | some (name, value) =>
    if !Name.isName name then throw (.usage (.invalidName name))
    let (space, bare) := (← get).registry.resolve name
    modify fun s => { s with registry := s.registry.meet space }
    let id ← intern (·.internVariable (space.key bare) space.pythonLead bare)
    match Preset.applied? ((← get).table.symbol id) value with
    | none => throw (.conflict (.notPresettable name))
    | some symbol =>
      changeTable fun table => .ok (table.set id symbol)
      addHeader (.preset name value)

end Compile

end AwkToPython
