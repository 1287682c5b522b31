import AwkToPython.Format.Conversion
import AwkToPython.Format.Specifier
import AwkToPython.Text.Integer
import AwkToPython.Text.Lines

/-!
# Format templates

A format that is a string literal becomes a template for `str.format`, with one
slot for each argument and coercion. Any other format is left to the runtime.
-/
namespace AwkToPython.Format

/-- What is worth reporting but does not stop a format. -/
inductive Warning where
  | noFormat
  | missingArgument (number : Nat)
  | ignoredFlag (flag : Char)
  | badReference (parameter : String)
deriving DecidableEq, Repr

def Warning.message : Warning → String
  | .noFormat => "sprintf called without a format"
  | .missingArgument number => s!"format refers to missing argument {number}"
  | .ignoredFlag flag => s!"printf flag '{flag}' is not supported and was ignored"
  | .badReference parameter => s!"bad positional reference {parameter}"

structure Slots where
  arguments : List String
  next : Nat := 0
  filled : List ((Nat × Char) × Nat) := []
  outputs : Array String := #[]
  warnings : Array Warning := #[]
deriving DecidableEq, Repr

abbrev Fill := StateM Slots

namespace Slots

def warn (warning : Warning) : Fill Unit :=
  modify fun s => { s with warnings := s.warnings.push warning }

def takeNext : Fill Nat :=
  modifyGet fun s => (s.next, { s with next := s.next + 1 })

/-- The text of an argument; a missing one is reported and counts as empty. -/
def argument (position : Nat) : Fill String := do
  match (← get).arguments[position]? with
  | some text => return text
  | none =>
    warn (.missingArgument (position + 1))
    return "AwkEmptyVarInstance"

def output (text : String) : Fill Nat :=
  modifyGet fun s => (s.outputs.size, { s with outputs := s.outputs.push text })

/-- The slot of an argument under a conversion, filled at its first use. -/
def slot (position : Nat) (conversion : Conversion) : Fill Nat := do
  match (← get).filled.lookup (position, conversion.letter) with
  | some slot => return slot
  | none =>
    let slot ← output (conversion.apply (← argument position))
    modify fun s => { s with filled := s.filled ++ [((position, conversion.letter), slot)] }
    return slot

def braced (text : String) : String := "\x7b" ++ text ++ "\x7d"

def starField : Fill String := do
  let slot ← slot (← takeNext) .star
  return braced (toString slot)

/-- The width in a replacement field. A point needs a width before it, except
where percent formatting takes the precision. -/
def width (specifier : Specifier) (integer : Bool) : Fill String :=
  if specifier.width = "" then pure (if integer then "" else "0")
  else if specifier.width = "*" then starField
  else pure specifier.width

/-- The precision of an integer: a percent format, and the argument that gives
the number of digits if a star stands for it. -/
def digits (conversion : Conversion) (precision : String) : Fill (String × Option String) := do
  let letter := conversion.percentLetter
  if precision = "*" then
    let count ← argument (← takeNext)
    return (s!"%.*{letter}", some count)
  else return (s!"%.{precision}{letter}", none)

def point (precision : String) : Fill String := do
  if precision = "*" then return "." ++ (← starField)
  else return "." ++ precision

def position (specifier : Specifier) : Fill Nat :=
  if specifier.parameter = "" then takeNext
  else
    let number := String.ofList (specifier.parameter.toList.takeWhile (· ≠ '$'))
    match Text.unsigned64? number with
    | some (n + 1) => pure n
    | _ => do
      warn (.badReference specifier.parameter)
      return 0

/-- The slot of a value under percent formatting; it is not shared. -/
def percentSlot (format : String) (count : Option String) (position : Nat) : Fill Nat := do
  let value ← argument position
  match count with
  | some count => output s!"\"{format}\" % (int({count}), int({value}))"
  | none => output s!"\"{format}\" % int({value})"

/-- The replacement field of a conversion. Width and precision take their
arguments before the value does. -/
def field (specifier : Specifier) (conversion : Conversion) : Fill String := do
  match specifier.flag with
  | some flag => if flag ≠ '-' then warn (.ignoredFlag flag)
  | none => pure ()
  let precision :=
    if specifier.precision = "" then conversion.precision.getD "" else specifier.precision
  let integer := conversion.isInteger
  let shaped := specifier.width ≠ "" || precision ≠ ""
  let width ← if shaped then width specifier integer else pure ""
  let digits ← if integer && precision ≠ "" then some <$> digits conversion precision
    else pure none
  let point ← if !integer && precision ≠ "" then point precision else pure ""
  let position ← position specifier
  let (slot, suffix) ← match digits with
    | some (format, count) => do
      let slot ← percentSlot format count position
      pure (slot, "")
    | none => do
      let slot ← slot position conversion
      pure (slot, conversion.suffix)
  if width ++ point = "" then return braced (toString slot)
  else
    let align := if specifier.flag = some '-' then "<" else ">"
    return braced (toString slot ++ ":" ++ align ++ width ++ point ++ suffix)

def piece : Piece → Fill String
  | .plain c => pure (String.ofList [c])
  | .percent => pure "%"
  | .brace c => pure (String.ofList [c, c])
  | .field specifier =>
    match Conversion.find? specifier.letter with
    | some conversion => field specifier conversion
    | none => pure ""

end Slots

structure Compiled where
  code : String
  warnings : List Warning := []
deriving DecidableEq, Repr

def isBracePiece : Piece → Bool
  | .brace _ => true
  | _ => false

/-- The text of a template; without slots it is formatted only if braces were
doubled in it. -/
def compileLiteral (format : String) (arguments : List String) : Compiled :=
  let pieces := pieces format.toList
  let (texts, slots) := (pieces.mapM Slots.piece).run { arguments }
  let template := String.join texts
  let outputs := slots.outputs.toList
  let code :=
    if outputs.isEmpty then
      if pieces.any isBracePiece then template ++ ".format()" else template
    else template ++ ".format(" ++ Text.join ", " outputs ++ ")"
  { code, warnings := slots.warnings.toList }

def isQuoted (text : String) : Bool :=
  2 ≤ text.length && text.toList.head? = some '"' && text.toList.getLast? = some '"'

def compile : List String → Compiled
  | [] => { code := "\"\"", warnings := [.noFormat] }
  | format :: arguments =>
    if isQuoted format then compileLiteral format arguments
    else { code := "self.sprintf(" ++ Text.join ", " (format :: arguments) ++ ")" }

end AwkToPython.Format
