import AwkToPython.Session

/-!
# Goals of expression compilation

Expressions are compiled by what is asked for at the current token: an operand,
an operand with its signs, or a whole operation up to a level. Each construct
below takes the compiler of its parts as an argument, so that it can be read,
and reasoned about, on its own.
-/
namespace AwkToPython

inductive Goal where
  /-- Operations that bind tighter than `limit`, from a fresh operand on. -/
  | operation (context : Context) (limit : Nat)
  /-- The same, from an operand that is compiled already. -/
  | rest (operand : Fragment) (context : Context) (limit : Nat)
  | signed (context : Context)
  | operand (context : Context)
deriving DecidableEq, Repr

abbrev Parts := Goal → Compile Fragment

namespace Expression

def powerLevel : Nat := 4
def unaryLevel : Nat := 5
def additiveLevel : Nat := 7
def ternaryLevel : Nat := 19

/-- A limit that admits every operator. -/
def anyLevel : Nat := Symbol.assignmentLevel + 1

open Compile

def useAsScalar (f : Fragment) : Compile Unit := do
  match f.target with
  | some (.var id) => markScalar id (← line)
  | _ => pure ()

def whole (parts : Parts) (context : Context) : Compile Fragment := do
  let f ← parts (.operation context anyLevel)
  if !context.argument then useAsScalar f
  return f

def moreItems {α : Type} (afterComma : Compile Unit) (item : Compile α) :
    Nat → List α → Compile (List α)
  | 0, _ => throw .exhausted
  | fuel + 1, items => do
    if ← atKind .comma then
      advance
      afterComma
      moreItems afterComma item fuel (items ++ [← item])
    else return items

def items {α : Type} (afterComma : Compile Unit) (item : Compile α) : Compile (List α) := do
  let first ← item
  moreItems afterComma item ((← remaining) + 1) [first]

def arguments (parts : Parts) (context : Context) : Compile (List Fragment) := do
  expectBracket .openParen "("
  skipNewlines
  if ← atBracket .closeParen then
    advance
    return []
  let args ← items skipNewlines do
    let argument ← whole parts context
    skipNewlines
    return argument
  if ← atBracket .closeParen then
    advance
    return args
  else unexpected .nextArgument

/-- One key as it is, several as a tuple. -/
def tuple : List String → String
  | [key] => key
  | keys => Fragment.parenthesised (Text.join ", " keys)

/-- The subscript after an opening bracket, and the closing one. -/
def subscript (parts : Parts) (afterComma : Compile Unit) : Compile String := do
  let keys ← items afterComma (whole parts {})
  expectBracket .closeBracket "]"
  return tuple (keys.map (·.text))

def ownerAndName (python : String) : String × String :=
  (Text.cut? "." python).getD ("self", python)

end Expression

end AwkToPython
