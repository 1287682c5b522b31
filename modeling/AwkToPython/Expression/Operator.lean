import AwkToPython.Expression.Operand
import AwkToPython.Expression.Update

/-!
# Operators

Operators are compiled by climbing levels: a lower level binds tighter. An
operand is parenthesised when its own operator binds no tighter than the one
applied to it. Lines that an operand writes before the current one may run only
where AWK would evaluate that operand, so they move into a branch.
-/
namespace AwkToPython.Expression

open Compile

/-- A conjunction or a disjunction whose right side wrote lines: they run only if
the left side does not decide. -/
def guarded (left : Fragment) (conjunction : Bool) (lines : List String) (right : Fragment) :
    Compile Fragment := do
  let n ← nextTemporary
  let temporary := s!"cond_{n}"
  emit s!"{temporary}={left.text}"
  emit ((if conjunction then "if " else "if not ") ++ temporary ++ ":")
  appendLines lines 1
  indent
  emit s!"{temporary}={right.text}"
  dedent
  return { Fragment.atom temporary with
    assigns := left.assigns || right.assigns, hoisted := true }

/-- A choice of which a branch wrote lines: they run only if it is chosen. -/
def choice (test : Fragment) (thenLines : List String) (yes : Fragment)
    (elseLines : List String) (no : Fragment) : Compile Fragment := do
  let n ← nextTemporary
  let temporary := s!"choice_{n}"
  emit s!"if {test.text}:"
  appendLines thenLines 1
  indent
  emit s!"{temporary}={yes.text}"
  dedent
  emit "else:"
  appendLines elseLines 1
  indent
  emit s!"{temporary}={no.text}"
  dedent
  return { Fragment.atom temporary with
    assigns := test.assigns || yes.assigns || no.assigns
    isString := yes.isString && no.isString
    hoisted := true }

def subtraction (parts : Parts) (left : Fragment) (context : Context) : Compile Fragment := do
  let digits := String.ofList ((← symbol).python.toList.dropWhile (· = '-'))
  advance
  let right ← parts (.rest (.atom digits) context additiveLevel)
  useAsScalar left
  return .operator (left.wrapped additiveLevel ++ "-" ++ right.wrapped additiveLevel)
    additiveLevel

def concatenation (parts : Parts) (left : Fragment) (context : Context) : Compile Fragment := do
  let right ← parts (.operation context Symbol.concatenationLevel)
  useAsScalar left
  useAsScalar right
  return { Fragment.string s!"({left.stringified}+{right.stringified})" with
    assigns := left.assigns || right.assigns }

/-- Arithmetic and comparisons. Powers associate to the right, all else to the
left; comparisons are never chained. -/
def arithmetic (parts : Parts) (left : Fragment) (op : Symbol) (context : Context) :
    Compile Fragment := do
  advance
  let level := op.awkLevel
  let right ← parts (.operation context (if level = powerLevel then level + 1 else level))
  useAsScalar left
  useAsScalar right
  let leftLevel := if op.kind = .binary .comparison then level else level + 1
  return { Fragment.operator (left.wrapped leftLevel ++ op.python ++ right.wrapped level) level
    with assigns := left.assigns || right.assigns }

def logical (parts : Parts) (left : Fragment) (op : Symbol) (context : Context) :
    Compile Fragment := do
  advance
  skipNewlines
  let level := op.awkLevel
  let before ← mark
  let right ← parts (.operation context level)
  useAsScalar left
  useAsScalar right
  let lines ← takeSince before
  if lines.isEmpty then
    return { Fragment.operator (left.wrapped (level + 1) ++ op.python ++ right.wrapped level)
      level with assigns := left.assigns || right.assigns }
  else guarded left (op.kind = .binary .and) lines right

def matching (parts : Parts) (left : Fragment) (op : Symbol) (context : Context) :
    Compile Fragment := do
  advance
  let regex ← regexOperand parts context op.awkLevel
  useAsScalar left
  let search := s!"{regex}.search({left.stringified})"
  let text := if op.kind = .binary .regexMismatch then s!"(not {search})" else search
  return { Fragment.atom text with assigns := left.assigns }

def membership (left : Fragment) (op : Symbol) : Compile Fragment := do
  advance
  let token ← current
  if !(← symbol).isVariable then unexpected .arrayName
  markArray token.symbol token.line
  let array ← pythonOf token.symbol
  advance
  useAsScalar left
  return { Fragment.operator s!"{left.wrapped op.awkLevel} in {array}" op.awkLevel with
    assigns := left.assigns }

def pipe (parts : Parts) (left : Fragment) : Compile Fragment := do
  advance
  if !(← atKind (.keyword .getline)) then unexpected (.mark "getline")
  useAsScalar left
  getline parts (some left.text)

def conditional (parts : Parts) (test : Fragment) (context : Context) : Compile Fragment := do
  advance
  skipNewlines
  let thenMark ← mark
  let yes ← parts (.operation context anyLevel)
  skipNewlines
  if !(← atKind (.binary .colon)) then unexpected (.mark ":")
  advance
  skipNewlines
  let elseMark ← mark
  let no ← parts (.operation context Symbol.assignmentLevel)
  useAsScalar test
  useAsScalar yes
  useAsScalar no
  let elseLines ← takeSince elseMark
  let thenLines ← takeSince thenMark
  if thenLines.isEmpty && elseLines.isEmpty then
    let yesText := yes.wrapped ternaryLevel
    let testText := test.wrapped ternaryLevel
    let noText := no.wrapped ternaryLevel
    return { Fragment.atom s!"({yesText} if {testText} else {noText})" with
      assigns := test.assigns || yes.assigns || no.assigns
      isString := yes.isString && no.isString }
  else choice test thenLines yes elseLines no

/-- One operation with `op` on the left operand; `none` where `op` does not
operate, so that the expression ends before it. -/
def operation (parts : Parts) (left : Fragment) (op : Symbol) (kind : BinaryOp)
    (context : Context) : Compile (Option Fragment) := do
  match kind with
  | .arithmetic | .comparison =>
    if context.printing && op.key = ">" then return none
    else some <$> arithmetic parts left op context
  | .and | .or => some <$> logical parts left op context
  | .regexMatch | .regexMismatch => some <$> matching parts left op context
  | .membership => some <$> membership left op
  | .pipe => if context.printing then return none else some <$> pipe parts left
  | .append => if context.printing then return none else unexpected .operator
  | .question => some <$> conditional parts left context
  | .colon => return none
  | .assign => some <$> assignment parts left op.python context

def operatorAt (table : Table) (token : Token) : Option Symbol :=
  let s := table.symbol token.symbol
  match s.kind with
  | .ambiguous _ binary => some (table.symbol binary)
  | .binary _ => some s
  | _ => none

/-- The next step after an operand: the operand extended by one operation, or
`none` if nothing that binds tighter than `limit` follows. -/
def extend (parts : Parts) (left : Fragment) (context : Context) (limit : Nat) :
    Compile (Option Fragment) := do
  let token ← current
  let s ← symbol
  match operatorAt (← get).table token with
  | some op =>
    match op.kind with
    | .binary kind =>
      if limit ≤ op.awkLevel then return none
      else operation parts left op kind context
    | _ => return none
  | none =>
    if s.kind = .number && Text.startsWith "-" s.key then
      if limit ≤ additiveLevel then return none
      else some <$> subtraction parts left context
    else if s.startsOperand then
      if limit ≤ Symbol.concatenationLevel then return none
      else some <$> concatenation parts left context
    else return none

def rest (parts : Parts) (left : Fragment) (context : Context) (limit : Nat) :
    Compile Fragment := do
  match ← extend parts left context limit with
  | some extended => parts (.rest extended context limit)
  | none => return left

def sign (parts : Parts) (python : String) (context : Context) : Compile Fragment := do
  advance
  let operand ← parts (.operation context unaryLevel)
  useAsScalar operand
  return .operator (python ++ operand.wrapped unaryLevel) unaryLevel

def negation (parts : Parts) (s : Symbol) (context : Context) : Compile Fragment := do
  advance
  let operand ← parts (.operation context unaryLevel)
  useAsScalar operand
  let text := s!"{s.python} {operand.wrapped unaryLevel}"
  if s.needsGrouping then return .atom (Fragment.parenthesised text)
  else return .operator text unaryLevel

def stepAfter (operand : Fragment) : Compile Fragment := do
  if operand.target.isNone then return operand
  match ← kind with
  | .unary .increment =>
    advance
    step operand true false
  | .unary .decrement =>
    advance
    step operand false false
  | _ => return operand

def signed (parts : Parts) (context : Context) : Compile Fragment := do
  let s ← symbol
  match s.kind with
  | .ambiguous unary _ => sign parts (← pythonOf unary) context
  | .unary .minus | .unary .plus => sign parts s.python context
  | .unary .not => negation parts s context
  | .unary .increment =>
    advance
    step (← parts (.operand context)) true true
  | .unary .decrement =>
    advance
    step (← parts (.operand context)) false true
  | _ => stepAfter (← parts (.operand context))

/-- One goal, in terms of the goals of its parts. -/
def reach (parts : Parts) : Goal → Compile Fragment
  | .operation context limit => do
    let left ← parts (.signed context)
    parts (.rest left context limit)
  | .rest left context limit => rest parts left context limit
  | .signed context => signed parts context
  | .operand context => operand parts context

/-- Goals nested at most `depth` deep. -/
def reachWithin : Nat → Parts
  | 0, _ => throw .exhausted
  | depth + 1, goal => reach (reachWithin depth) goal

/-- Between two tokens at most four goals are nested, so the tokens that remain
bound the depth. -/
def depthBound (remaining : Nat) : Nat := 4 * (remaining + 2)

def compiler : Parts := fun goal => do
  reachWithin (depthBound (← remaining)) goal

end AwkToPython.Expression

namespace AwkToPython.Compile

def expression (context : Context) : Compile Fragment :=
  Expression.whole Expression.compiler context

/-- A pattern or the test of a branch or loop, which must not assign. -/
def condition : Compile Fragment := do
  let f ← expression {}
  if f.assigns then unexpected .condition else return f

end AwkToPython.Compile
