import AwkToPython.Expression.Operator

/-!
# Simple statements

Statements that hold no other statement, output apart.
-/
namespace AwkToPython.Statement

open Compile

/-- A simple statement takes the semicolon or the line end after it with it; it
may also stand before a closing brace or the end of input. -/
def endSimple : Compile Unit := do
  let s ← symbol
  if s.isConsumedTerminator then advance
  else if !(s.isTerminator || s.isEnd) then unexpected .statementEnd

/-- `split` alone is a Python assignment; any other expression whose work is done
already leaves no line. -/
def expressionStatement : Compile Unit := do
  let statement := match ← kind with
    | .function f => f.strategy = .split
    | _ => false
  let f ← expression { statement }
  if !f.hoisted then emit f.text
  endSimple

/-- A statement that is one word. -/
def jump : Compile Unit := do
  let s ← symbol
  advance
  emit s.python
  endSimple

def exit : Compile Unit := do
  advance
  if !(← atStatementEnd) then
    let code ← expression {}
    emit s!"AwkpyRuntimeWrapper._ans={code.text}"
  emit "raise AwkExit"
  endSimple

def returnValue : Compile Unit := do
  advance
  if ← atStatementEnd then emit "return"
  else
    let value ← expression {}
    emit s!"return {value.text}"
  endSimple

/-- Delete one element of an array, or all. The keys stand on one line. -/
def delete : Compile Unit := do
  advance
  let token ← current
  if !(← symbol).isVariable then unexpected .arrayName
  markArray token.symbol token.line
  let array ← pythonOf token.symbol
  advance
  if ← atBracket .openBracket then
    advance
    let key ← Expression.subscript Expression.compiler (pure ())
    emit s!"{array}.pop({key}, None)"
  else emit s!"{array}.clear()"
  endSimple

end AwkToPython.Statement
