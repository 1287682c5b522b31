import AwkToPython.Item.Rule

/-!
# Function definitions

The parameters of a function live on an owner made for each call. While the body
is compiled, their symbols stand for attributes of that owner.
-/
namespace AwkToPython.Item

open Compile

/-- Take the name of a function, which was read as a variable; the result is the
name of the Python method. -/
def defineFunction : Compile String := do
  let token ← current
  let s ← symbol
  match s.kind with
  | .var use =>
    if use.builtIn || use.isArray || use.isScalar then
      throw (.conflict (.functionIsVariable s.key token.line))
  | .function { strategy := .user, .. } =>
    throw (.conflict (.functionRepeated s.key token.line))
  | _ => unexpected .functionName
  changeTable fun table => .ok (table.set token.symbol
    { s with kind := .function { strategy := .user }, initial := "" })
  advance
  return (Text.after? "self." s.python).getD s.python

def parameters : Nat → List Token → Compile (List Token)
  | 0, _ => throw .exhausted
  | fuel + 1, found => do
    if ← atBracket .closeParen then return found
    if !(← symbol).isVariable then unexpected .parameterName
    let token ← current
    advance
    skipNewlines
    if ← atKind .comma then
      advance
      skipNewlines
    else if !(← atBracket .closeParen) then unexpected .nextArgument
    parameters fuel (found ++ [token])

/-- A parameter, with the symbol to be put back after the body. -/
structure Parameter where
  id : SymbolId
  name : String
  saved : Symbol
deriving DecidableEq, Repr

namespace Parameter

def ofToken (table : Table) (token : Token) : Parameter :=
  let saved := table.symbol token.symbol
  { id := token.symbol, name := Name.python (Name.bare saved.key), saved }

def redirect (p : Parameter) (table : Table) : Table :=
  table.modify p.id fun s => { s with kind := .var {}, python := "_locals." ++ p.name }

def restore (p : Parameter) (table : Table) : Table := table.set p.id p.saved

def line (p : Parameter) : String := s!"_locals.{p.name}={p.name}"

/-- A parameter used as an array gets a new array if the caller leaves it out. -/
def arrayLine (p : Parameter) : String :=
  s!"_locals.{p.name}={p.name} if {p.name} is not {emptyValue} else {emptyArray}"

def signature (p : Parameter) : String := s!"{p.name}={emptyValue}"

/-- Give the parameter its line for an array if it is used as one. -/
def settle (table : Table) (listing : Listing) (p : Parameter) (position : Nat) : Listing :=
  if table.isArray p.id then listing.replace position p.line p.arrayLine else listing

end Parameter

/-- Settle the lines of the parameters, from the line `first` on. -/
def settleParameters (table : Table) (first : Nat) (params : List Parameter)
    (listing : Listing) : Listing :=
  params.zipIdx.foldl (fun l entry => entry.1.settle table l (first + entry.2)) listing

/-- What follows a body, whether it was compiled or not. -/
def closeBody (first : Nat) (params : List Parameter) (s : Session) : Session :=
  let listing := settleParameters s.table first params s.listing
  { s with
    table := params.foldl (fun table p => p.restore table) s.table
    listing := listing.dedent.line "" }

def functionBody (method : String) (params : List Parameter) : Compile Unit := do
  let signature := "self" :: params.map Parameter.signature
  emit (s!"def {method}(" ++ Text.join ", " signature ++ "):")
  indent
  write (·.line "_locals=AwkpyRuntimeVarOwner()")
  let first ← mark
  write fun l => params.foldl (fun l p => l.line p.line) l
  changeTable fun table => .ok (params.foldl (fun table p => p.redirect table) table)
  restoring action (closeBody first params)

def definition : Compile Unit := do
  advance
  let method ← defineFunction
  expectBracket .openParen "("
  skipNewlines
  let tokens ← parameters ((← remaining) + 1) []
  advance
  skipNewlines
  if !(← atBracket .openBrace) then unexpected (.mark "\x7b")
  let table := (← get).table
  inBucket .functions (functionBody method (tokens.map (Parameter.ofToken table)))

end AwkToPython.Item
