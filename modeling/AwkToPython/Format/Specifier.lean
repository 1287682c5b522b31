/-!
# printf specifiers

A format is read from left to right as pieces: conversions, percent signs,
braces, and all other characters as they are. A backslash or a percent sign in
front of a percent sign makes it a plain one.
-/
namespace AwkToPython.Format

/-- The parts of a conversion after its percent sign, as written. Parts that are
left out are empty. -/
structure Specifier where
  /-- The position of the argument, with the dollar sign after it. -/
  parameter : String
  flag : Option Char
  width : String
  precision : String
  letter : Char
deriving DecidableEq, Repr

inductive Piece where
  | plain (c : Char)
  | percent
  | brace (c : Char)
  | field (specifier : Specifier)
deriving DecidableEq, Repr

def isFlag (c : Char) : Bool := "-+ 0'#".toList.contains c

def isLetter (c : Char) : Bool := "aAcdeEfFgGiosuxX".toList.contains c

def takeParameter (cs : List Char) : List Char × List Char :=
  match cs.dropWhile Char.isDigit with
  | '$' :: rest => (cs.takeWhile Char.isDigit ++ ['$'], rest)
  | _ => ([], cs)

def takeFlag (cs : List Char) : Option Char × List Char :=
  match cs with
  | c :: rest => if isFlag c then (some c, rest) else (none, cs)
  | [] => (none, [])

/-- A star or a digit other than zero, and the digits after it. -/
def takeWidth (cs : List Char) : List Char × List Char :=
  match cs with
  | c :: rest =>
    if c = '*' || (c.isDigit && c ≠ '0') then
      (c :: rest.takeWhile Char.isDigit, rest.dropWhile Char.isDigit)
    else ([], cs)
  | [] => ([], [])

def isPrecision (c : Char) : Bool := c.isDigit || c = '*'

/-- Digits and stars after a point, at least one. -/
def takePrecision (cs : List Char) : List Char × List Char :=
  match cs with
  | '.' :: rest =>
    if (rest.takeWhile isPrecision).isEmpty then ([], cs)
    else (rest.takeWhile isPrecision, rest.dropWhile isPrecision)
  | _ => ([], cs)

def specifier? (cs : List Char) : Option (Specifier × List Char) :=
  let (parameter, cs) := takeParameter cs
  let (flag, cs) := takeFlag cs
  let (width, cs) := takeWidth cs
  let (precision, cs) := takePrecision cs
  match cs with
  | letter :: rest =>
    if isLetter letter then
      some ({ parameter := String.ofList parameter, flag, width := String.ofList width,
              precision := String.ofList precision, letter }, rest)
    else none
  | [] => none

def isBrace (c : Char) : Bool := c = '\x7b' || c = '\x7d'

/-- The pieces of a text of at most `fuel` characters. -/
def piecesWithin : Nat → List Char → List Piece
  | 0, _ => []
  | _, [] => []
  | fuel + 1, c :: rest =>
    if (c = '\\' || c = '%') && rest.head? = some '%' then
      .percent :: piecesWithin fuel (rest.drop 1)
    else if isBrace c then .brace c :: piecesWithin fuel rest
    else
      match if c = '%' then specifier? rest else none with
      | some (specifier, behind) => .field specifier :: piecesWithin fuel behind
      | none => .plain c :: piecesWithin fuel rest

def pieces (cs : List Char) : List Piece := piecesWithin cs.length cs

end AwkToPython.Format
