import AwkToPython.Statement.Print

/-!
# Blocks, branches and loops

Each construct takes the compiler of the statements inside it as an argument.
Python has no loop with the test at its end and none with a step, and a test
whose work needs lines of its own is made anew on every pass.
-/
namespace AwkToPython.Statement

open Compile

def statements (inner : Compile Unit) : Nat → Compile Unit
  | 0 => throw .exhausted
  | fuel + 1 => do
    skipTerminators
    if ← atKey "\x7d" then advance
    else if (← symbol).isEnd then unexpected (.mark "\x7d")
    else
      inner
      statements inner fuel

/-- Python needs a statement in every block. -/
def passUnlessWritten (before : Nat) : Compile Unit := do
  if (← get).listing.statementsSince before = 0 then emit "pass"

def block (inner : Compile Unit) : Compile Unit := do
  expectBracket .openBrace "\x7b"
  let before ← mark
  statements inner ((← remaining) + 1)
  passUnlessWritten before

def indented {α : Type} (x : Compile α) : Compile α := do
  indent
  restoring x fun s => { s with listing := s.listing.dedent }

def body (inner : Compile Unit) : Compile Unit := do
  skipNewlines
  indented do
    let before ← mark
    if ← atKey ";" then advance else inner
    passUnlessWritten before

def parenthesisedCondition : Compile Fragment := do
  expectBracket .openParen "("
  skipNewlines
  let test ← condition
  skipNewlines
  expectBracket .closeParen ")"
  return test

/-- A branch; one terminator may stand before `else`. -/
def branch (inner : Compile Unit) : Compile Unit := do
  advance
  let test ← parenthesisedCondition
  emit s!"if {test.text}:"
  body inner
  if (← symbol).isTerminator then
    if (← symbolOf (← peek 1)).kind = .elseWord then advance
  if ← atKind .elseWord then
    advance
    emit "else:"
    body inner

def breakUnless (test : Fragment) : Compile Unit := do
  emit s!"if not ({test.text}):"
  indent
  emit "break"
  dedent

def whileLoop (inner : Compile Unit) : Compile Unit := do
  advance
  let before ← mark
  let test ← parenthesisedCondition
  let lines ← takeSince before
  if lines.isEmpty then emit s!"while {test.text}:"
  else
    emit "while True:"
    appendLines lines 1
    indent
    breakUnless test
    dedent
  body inner

/-- The head of a loop whose first pass is not tested, put before its body at
`start`. The lines of the test run on every later pass. -/
def insertLoopHead (start : Nat) (flag : String) (test : Fragment) (lines : List String) :
    Compile Unit := do
  if lines.isEmpty then write (·.insert start s!"while {flag} or ({test.text}):")
  else
    let count := lines.length
    write (·.insert start "while True:")
    write (·.insert (start + 1) s!"    if not {flag}:")
    write (·.insertLines (start + 2) lines 2)
    write (·.insert (start + 2 + count) s!"        if not ({test.text}):")
    write (·.insert (start + 3 + count) "            break")

/-- A loop with its test at the end. A flag marks the first pass. -/
def doLoop (inner : Compile Unit) : Compile Unit := do
  advance
  let n ← nextTemporary
  let flag := s!"do_first_{n}"
  emit s!"{flag}=True"
  let start ← mark
  indent
  write (·.line s!"{flag}=False")
  dedent
  body inner
  skipTerminators
  if !(← atKind (.keyword .whileLoop)) then unexpected (.mark "while")
  advance
  let before ← mark
  let test ← parenthesisedCondition
  let lines ← takeSince before
  insertLoopHead start flag test lines
  endSimple

def forEach (inner : Compile Unit) (key array : Token) : Compile Unit := do
  advance
  markScalar key.symbol key.line
  advance
  advance
  markArray array.symbol array.line
  advance
  expectBracket .closeParen ")"
  let element ← pythonOf key.symbol
  let array ← pythonOf array.symbol
  emit s!"for {element} in list({array}):"
  body inner

/-- A part of the head of a loop that may be left out. -/
def optional (absent : Compile Bool) (part : Compile Fragment) : Compile (Option Fragment) := do
  if ← absent then return none else some <$> part

def emitPart : Option Fragment → Compile Unit
  | some f => if f.hoisted then pure () else emit f.text
  | none => pure ()

/-- The generator that drives a loop with a step: `continue` in the body comes
back to it after `yield`, so that the step runs before the next test. -/
def generator (n : Nat) (test : Option Fragment) (testLines : List String)
    (step : Option Fragment) (stepLines : List String) : Compile Unit := do
  emit s!"def _generator__{n}():"
  indent
  match test, testLines.isEmpty with
  | some test, false =>
    emit "while True:"
    appendLines testLines 2
    indent
    breakUnless test
  | test, _ =>
    emit ("while " ++ (test.map (·.text)).getD "True" ++ ":")
    indent
  emit "yield True"
  appendLines stepLines 2
  emitPart step
  dedent
  dedent

def countedLoop (inner : Compile Unit) : Compile Unit := do
  advance
  skipNewlines
  let start ← optional (atKey ";") (expression {})
  expectSemicolon
  let testMark ← mark
  let test ← optional (atKey ";") condition
  expectSemicolon
  let stepMark ← mark
  let step ← optional (atBracket .closeParen) (expression {})
  skipNewlines
  expectBracket .closeParen ")"
  let stepLines ← takeSince stepMark
  let testLines ← takeSince testMark
  let n ← nextTemporary
  emitPart start
  generator n test testLines step stepLines
  emit s!"for _dummy__{n} in _generator__{n}():"
  body inner

/-- The key and the array of the head of a loop over keys, if one stands here. -/
def keysHead? : Compile (Option (Token × Token)) := do
  let key ← peek 1
  let op ← peek 2
  let array ← peek 3
  let closing ← peek 4
  let isHead := (← symbolOf key).isVariable && (← symbolOf op).kind = .binary .membership &&
    (← symbolOf array).isVariable && (← symbolOf closing).kind = .bracket .closeParen
  return if isHead then some (key, array) else none

def forLoop (inner : Compile Unit) : Compile Unit := do
  advance
  if !(← atBracket .openParen) then unexpected (.mark "(")
  match ← keysHead? with
  | some (key, array) => forEach inner key array
  | none => countedLoop inner

def keywordStatement (inner : Compile Unit) : Keyword → Compile Unit
  | .print => print false
  | .printf => print true
  | .branch => branch inner
  | .whileLoop => whileLoop inner
  | .doLoop => doLoop inner
  | .forLoop => forLoop inner
  | .breakLoop | .continueLoop | .next | .nextFile => jump
  | .exit => exit
  | .returnValue => returnValue
  | .delete => delete
  | .getline => expressionStatement
  | .function => unexpected .statement

/-- One statement, in terms of those inside it. -/
def statement (inner : Compile Unit) : Compile Unit := do
  match ← kind with
  | .bracket .openBrace => block inner
  | .keyword keyword => keywordStatement inner keyword
  | _ => expressionStatement

/-- A statement in which others are nested at most `depth` deep. -/
def statementWithin : Nat → Compile Unit
  | 0 => throw .exhausted
  | depth + 1 => statement (statementWithin depth)

end AwkToPython.Statement

namespace AwkToPython.Compile

/-- A block between braces. Every nested statement takes a token, so the tokens
that remain bound the depth. -/
def action : Compile Unit := do
  Statement.block (Statement.statementWithin ((← remaining) + 1))

end AwkToPython.Compile
