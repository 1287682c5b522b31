import AwkToPython.Expression.Builtin

/-!
# Operands

Literals, fields, variables, array elements, groups, calls and `getline`.
-/
namespace AwkToPython.Expression

open Compile

/-- A field with a computed index. The index is one operand, with the operators
before it, so that `$i++` steps the field and `$NF-1` subtracts from it. -/
def computedField (parts : Parts) (context : Context) : Compile Fragment := do
  advance
  let index ← match ← kind with
    | .unary _ | .ambiguous _ _ => parts (.signed context)
    | .field _ => parts (.operation context 3)
    | _ => parts (.operand context)
  useAsScalar index
  let position := if (Text.unsigned64? index.text).isSome then index.text
    else s!"int({index.text})"
  return { Fragment.string s!"self._FLDS[{position}]" with target := some (.field position) }

/-- An expression between parentheses, or a tuple of them. -/
def group (parts : Parts) (context : Context) : Compile Fragment := do
  advance
  skipNewlines
  let members ← items skipNewlines (whole parts { keepMissing := context.keepMissing })
  skipNewlines
  expectBracket .closeParen ")"
  match members with
  | [member] => return member.grouped
  | _ => return .atom (Fragment.parenthesised (Text.join ", " (members.map (·.text))))

/-- A variable, an element of an array, or a call if a parenthesis follows
without a blank. -/
def variableOperand (parts : Parts) (token : Token) (context : Context) : Compile Fragment := do
  let next ← peek 1
  let nextSymbol ← symbolOf next
  let python ← pythonOf token.symbol
  if nextSymbol.kind = .bracket .openParen && !next.spaced then userCall parts token
  else if nextSymbol.kind = .bracket .openBracket then
    markArray token.symbol token.line
    advance
    advance
    let index ← subscript parts skipNewlines
    let text := if context.keepMissing then s!"{python}.get({index}, \"\")"
      else s!"{python}[{index}]"
    return { Fragment.atom text with target := some (.element python index) }
  else
    advance
    return { Fragment.atom python with target := some (.var token.symbol) }

/-- What a line is read into: the operand that follows, if it is a variable or a
field. -/
def getlineTarget (parts : Parts) : Compile (Option Target) := do
  match ← kind with
  | .var _ | .field _ => return (← parts (.operand {})).target
  | _ => return none

def getlineSource (parts : Parts) (command : Option String) : Compile String := do
  match command with
  | some command => return s!"self._access_file({command}, \"|r\")"
  | none =>
    if ← atKey "<" then
      advance
      let file ← parts (.operand {})
      useAsScalar file
      return s!"self._access_file({file.text}, \"r\")"
    else return "self._std_in_out"

/-- The input operator, with the command that is piped into it. -/
def getline (parts : Parts) (command : Option String) : Compile Fragment := do
  needMainLoop
  advance
  let target ← getlineTarget parts
  let source ← getlineSource parts command
  match target with
  | none => return .atom s!"{source}.get_into_dollar_fields()"
  | some (.field index) =>
    if index = "0" then return .atom s!"{source}.get_into_dollar_fields()"
    else return .atom s!"{source}.get_into_dollar_field({index})"
  | some (.var id) =>
    markScalar id (← line)
    let (owner, name) := ownerAndName (← pythonOf id)
    return .atom s!"{source}.get_into_variable({owner}, \"{name}\")"
  | some (.element base index) =>
    return .atom s!"{source}.get_into_array({base}, {index})"

def operand (parts : Parts) (context : Context) : Compile Fragment := do
  let token ← current
  let s ← symbol
  match s.kind with
  | .number =>
    advance
    return .atom s.python
  | .string =>
    advance
    return { Fragment.string s.python with literal := some token.symbol }
  | .regex =>
    advance
    return { Fragment.atom s!"{s.python}.search(str(self._FLDS[0]))" with
      literal := some token.symbol }
  | .field (some index) =>
    advance
    return { Fragment.string s.python with target := some (.field (toString index)) }
  | .field none => computedField parts context
  | .bracket .openParen => group parts context
  | .var _ => variableOperand parts token context
  | .function function => call parts token function context
  | .keyword .getline => getline parts none
  | _ => unexpected .operand

end AwkToPython.Expression
