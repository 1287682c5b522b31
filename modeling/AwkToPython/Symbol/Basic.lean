/-!
# Symbols

A symbol says what a word of the source is and how it is written in Python.
Every occurrence of a word shares one symbol, so what is learnt at one of them
holds at all of them.
-/
namespace AwkToPython

abbrev SymbolId := Nat

inductive Bracket where
  | openBrace
  | openParen
  | closeParen
  | openBracket
  | closeBracket
deriving DecidableEq, Repr

inductive UnaryOp where
  | not
  | increment
  | decrement
  | minus
  | plus
deriving DecidableEq, Repr

inductive BinaryOp where
  | arithmetic
  | comparison
  | and
  | or
  | regexMatch
  | regexMismatch
  | membership
  | pipe
  | append
  | question
  | colon
  | assign
deriving DecidableEq, Repr

/-- What is known of a variable. It is never both an array and a scalar. -/
structure VariableUse where
  builtIn : Bool := false
  isArray : Bool := false
  isScalar : Bool := false
deriving DecidableEq, Repr

inductive Strategy where
  | call
  | method (name : String)
  | index
  | regexMatch
  | length
  | substr
  | split
  | substitute (everywhere : Bool)
  | sprintf
  | user
deriving DecidableEq, Repr

structure Function where
  strategy : Strategy
  library : Option String := none
deriving DecidableEq, Repr

inductive Keyword where
  | breakLoop
  | continueLoop
  | delete
  | doLoop
  | exit
  | forLoop
  | function
  | getline
  | branch
  | next
  | nextFile
  | print
  | printf
  | returnValue
  | whileLoop
deriving DecidableEq, Repr

inductive Section where
  | start
  | fileStart
  | record
  | fileEnd
  | finish
deriving DecidableEq, Repr

namespace Section

def all : List Section := [.start, .fileStart, .record, .fileEnd, .finish]

def method : Section → String
  | .start => "BEGIN"
  | .fileStart => "BEGINFILE"
  | .record => "MAINLOOP"
  | .fileEnd => "ENDFILE"
  | .finish => "END"

end Section

inductive SymbolKind where
  | bracket (bracket : Bracket)
  /-- A field with a literal index, or the bare field operator. -/
  | field (index : Option Nat)
  | unary (op : UnaryOp)
  | binary (op : BinaryOp)
  /-- One of two operators, by whether an operand stands before it. -/
  | ambiguous (unary binary : SymbolId)
  | var (use : VariableUse)
  | regex
  | function (function : Function)
  | keyword (keyword : Keyword)
  | elseWord
  | terminator (consumed collapsed : Bool)
  | heading (part : Section)
  | string
  | number
  | comma
  | comment (ownLine : Bool)
  | endOfInput
deriving DecidableEq, Repr

structure Symbol where
  /-- The spelling, with the namespace's lead; also the key in the table. -/
  key : String
  kind : SymbolKind
  /-- How loosely AWK's operator binds; a lower level binds tighter. -/
  awkLevel : Nat := 0
  pythonLevel : Nat := 0
  python : String
  /-- The Python text of the initial value; empty if there is none. -/
  initial : String := ""
deriving DecidableEq, Repr

namespace Symbol

def concatenationLevel : Nat := 8

/-- Assignments bind at this level, looser than all else. -/
def assignmentLevel : Nat := 20

def startsOperand (s : Symbol) : Bool :=
  match s.kind with
  | .string | .number | .var _ | .field _ | .regex | .function _ => true
  | .bracket .openParen => true
  | .keyword .getline => true
  | _ => false

def isOperator (s : Symbol) : Bool :=
  match s.kind with
  | .unary _ | .binary _ | .ambiguous _ _ | .comma => true
  | _ => false

def variableUse? (s : Symbol) : Option VariableUse :=
  match s.kind with
  | .var use => some use
  | _ => none

def isVariable (s : Symbol) : Bool := s.variableUse?.isSome

def isFunction (s : Symbol) : Bool :=
  match s.kind with
  | .function _ => true
  | _ => false

def isTerminator (s : Symbol) : Bool :=
  match s.kind with
  | .terminator _ _ => true
  | _ => false

/-- A semicolon or a line end, which a statement takes with it. -/
def isConsumedTerminator (s : Symbol) : Bool :=
  match s.kind with
  | .terminator consumed _ => consumed
  | _ => false

def isEnd (s : Symbol) : Bool := s.kind = .endOfInput

/-- Python's operator binds looser than AWK's, so it has to be parenthesised. -/
def needsGrouping (s : Symbol) : Bool := s.awkLevel < s.pythonLevel

def endOfInput : Symbol := { key := "<end of input>", kind := .endOfInput, python := "" }

instance : Inhabited Symbol := ⟨endOfInput⟩

end Symbol

end AwkToPython
