import AwkToPython.Symbol.Basic

/-!
# Fragments

A fragment is the Python text of an expression together with what its
surroundings have to know of it: how loosely its outermost operator binds, what
it can be assigned to, and whether its work is already done.
-/
namespace AwkToPython

inductive Target where
  | var (id : SymbolId)
  | element (base index : String)
  | field (index : String)
deriving DecidableEq, Repr

structure Fragment where
  text : String
  /-- AWK's level of the outermost operator; `none` if there is no such operator. -/
  level : Option Nat := none
  assigns : Bool := false
  isString : Bool := false
  target : Option Target := none
  /-- The symbol, if it is a lone string or regex literal. -/
  literal : Option SymbolId := none
  /-- Its work is done by lines written before the current one. -/
  hoisted : Bool := false
deriving DecidableEq, Repr

namespace Fragment

def atom (text : String) : Fragment := { text }

def string (text : String) : Fragment := { text, isString := true }

def operator (text : String) (level : Nat) : Fragment := { text, level := some level }

def parenthesised (text : String) : String := "(" ++ text ++ ")"

/-- The text as an operand of an operator at a level: parenthesised unless its
own operator binds tighter. -/
def wrapped (f : Fragment) (level : Nat) : String :=
  match f.level with
  | some own => if level ≤ own then parenthesised f.text else f.text
  | none => f.text

def stringified (f : Fragment) : String :=
  if f.isString then f.text else "str(" ++ f.text ++ ")"

/-- The fragment between parentheses. An atom needs none, and nothing between
parentheses can be assigned to. -/
def grouped (f : Fragment) : Fragment :=
  { f with
    text := if f.level.isSome then parenthesised f.text else f.text
    level := none
    target := none }

end Fragment

structure Context where
  /-- In a print statement, where `>`, `>>` and `|` redirect. -/
  printing : Bool := false
  /-- Reading an array element must not create it. -/
  keepMissing : Bool := false
  /-- An argument of a function, where a bare name may be an array. -/
  argument : Bool := false
  statement : Bool := false
deriving DecidableEq, Repr

end AwkToPython
