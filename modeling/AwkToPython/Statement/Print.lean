import AwkToPython.Statement.Simple

/-!
# Output statements
-/
namespace AwkToPython.Statement

open Compile

/-- Prints the record. It is also the action of a pattern that has none. -/
def printRecord : String := "print(self._FLDS[0], sep=self.OFS, end=self.ORS)"

structure Redirection where
  target : String
  mode : String
deriving DecidableEq, Repr

def redirectionMode? (key : String) : Option String :=
  if key = ">" then some "w"
  else if key = ">>" then some "a"
  else if key = "|" then some "|w"
  else none

def atOutputEnd : Compile Bool := do
  if ← atStatementEnd then return true
  else return (redirectionMode? (← symbol).key).isSome

def moreOutput (context : Context) (first : Fragment) : Compile (List Fragment) := do
  Expression.moreItems skipNewlines (expression context) ((← remaining) + 1) [first]

/-- The items to print. Parentheses around the first may enclose the whole list or
only the first operand of the first item. -/
def outputItems : Compile (List Fragment) := do
  let context : Context := { printing := true, keepMissing := true }
  if ← atOutputEnd then return []
  if ← atBracket .openParen then
    let group ← Expression.arguments Expression.compiler { keepMissing := true }
    if ← atOutputEnd then return group
    match group with
    | [first] =>
      let first ← Expression.compiler (.rest first.grouped context Expression.anyLevel)
      Expression.useAsScalar first
      moreOutput context first
    | _ => unexpected .printEnd
  else moreOutput context (← expression context)

def redirection : Compile (Option Redirection) := do
  match redirectionMode? (← symbol).key with
  | none => return none
  | some mode =>
    advance
    let target ← Expression.compiler
      (.operation { printing := true } (Symbol.concatenationLevel + 1))
    Expression.useAsScalar target
    return some { target := target.text, mode }

/-- An item as an argument of Python's `print`. -/
def printed (f : Fragment) : String :=
  if f.isString then f.text else s!"self.awkpy__to_string({f.text})"

def printCall (items : List Fragment) : String :=
  if items.isEmpty then printRecord
  else "print(" ++ Text.join ", " (items.map printed) ++ ", sep=self.OFS, end=self.ORS)"

def printfCall (items : List Fragment) : Compile String := do
  if items.isEmpty then unexpected (.arguments "a format" "printf")
  let code ← formatted items
  return "print(" ++ code ++ ", end='')"

def writeCall (redirect : Option Redirection) (call : String) : Compile Unit := do
  match redirect with
  | some r =>
    emit s!"file_handle = self._access_file({r.target}, \"{r.mode}\")"
    emit s!"file_handle.{call}"
  | none => emit call
  endSimple

def print (withFormat : Bool) : Compile Unit := do
  advance
  let items ← outputItems
  let redirect ← redirection
  let call ← if withFormat then printfCall items else pure (printCall items)
  writeCall redirect call

end AwkToPython.Statement
