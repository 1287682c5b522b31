import AwkToPython.Name
import AwkToPython.Text.Blank

/-!
# Spans

A span is the text that one lexeme takes from the front of a line. Literals end
at their delimiter or with the line. A regex literal inside a line needs an
operator in front of it, or its slash would divide.
-/
namespace AwkToPython

inductive Shape where
  | comment
  | quoted
  | regex
  | plain
deriving DecidableEq, Repr

/-- A span has at least one character; `more` counts the others. -/
structure Span where
  shape : Shape
  more : Nat
deriving DecidableEq, Repr

namespace Span

def quotedLength (quote : Char) : List Char → Nat
  | [] => 0
  | ['\\'] => 1
  | '\\' :: _ :: rest => 2 + quotedLength quote rest
  | c :: rest => if c = quote then 1 else 1 + quotedLength quote rest

/-- The number of characters up to and with the slash that closes a regex. A
slash inside a complete bracket expression does not close it; a bracket that is
never closed is an ordinary character. -/
def regexLength (inBrackets : Bool) : List Char → Nat
  | [] => 0
  | c :: rest =>
    if inBrackets then 1 + regexLength (c ≠ ']') rest
    else if c = '/' then 1
    else if c = '\\' then
      match rest with
      | [] => 1
      | _ :: rest => 2 + regexLength false rest
    else if c = '[' then 1 + regexLength (rest.contains ']') rest
    else 1 + regexLength false rest

def regexLeads : List String :=
  ["!~", "&&", "||", "==", "!=", "<=", ">=", "**=", "-=", "+=", "*=", "%=", "^=",
   "~", "(", ",", "\x7b", "\x7d", ";", "!", "?", ":", "="]

/-- An operator, blanks, and a regex literal, if they stand here. -/
def ledRegexLength (cs : List Char) : Nat :=
  (regexLeads.findSome? fun lead =>
    match lead.toList.isPrefixOf? cs with
    | none => none
    | some rest =>
      match Text.trimStart rest with
      | '/' :: body => some (cs.length - body.length + regexLength false body)
      | _ => none).getD 0

def nameLength : List Char → Nat
  | [] => 0
  | c :: cs => if Name.isStart c then 1 + (cs.takeWhile Name.isInner).length else 0

/-- A name, qualified or not, or a directive's word. -/
def wordLength (cs : List Char) : Nat :=
  let lead := if cs.head? = some '@' then 1 else 0
  let name := nameLength (cs.drop lead)
  if name = 0 then 0
  else
    let member := match cs.drop (lead + name) with
      | ':' :: ':' :: rest => if nameLength rest = 0 then 0 else 2 + nameLength rest
      | _ => 0
    lead + name + member

def digitsLength (cs : List Char) : Nat := (cs.takeWhile Char.isDigit).length

def fieldLength : List Char → Nat
  | '$' :: rest => if digitsLength rest = 0 then 0 else 1 + digitsLength rest
  | _ => 0

def isHexDigit (c : Char) : Bool :=
  c.isDigit || ('a' ≤ c && c ≤ 'f') || ('A' ≤ c && c ≤ 'F')

def exponentLength : List Char → Nat
  | c :: rest =>
    if c = 'e' || c = 'E' then
      let sign := match rest with
        | d :: _ => if d = '-' || d = '+' then 1 else 0
        | [] => 0
      let digits := digitsLength (rest.drop sign)
      if digits = 0 then 0 else 1 + sign + digits
    else 0
  | [] => 0

def hexLength : List Char → Nat
  | '0' :: mark :: rest =>
    let digits := (rest.takeWhile isHexDigit).length
    if (mark = 'x' || mark = 'X') && 0 < digits then 2 + digits else 0
  | _ => 0

/-- Digits with at most one point among or before them, and an exponent. -/
def decimalLength (cs : List Char) : Nat :=
  let whole := digitsLength cs
  let fraction := match cs.drop whole with
    | '.' :: rest => if whole = 0 && digitsLength rest = 0 then 0 else 1 + digitsLength rest
    | _ => 0
  if whole + fraction = 0 then 0
  else whole + fraction + exponentLength (cs.drop (whole + fraction))

def unsignedLength (cs : List Char) : Nat :=
  if hexLength cs = 0 then decimalLength cs else hexLength cs

/-- A number literal; a minus sign right before it belongs to it. -/
def numberLength (cs : List Char) : Nat :=
  match cs with
  | '-' :: rest => if unsignedLength rest = 0 then 0 else 1 + unsignedLength rest
  | _ => unsignedLength cs

/-- The operators of more than one character, longer ones before their parts. -/
def longOperators : List String :=
  ["!~", "++", "--", "**=", "**", "||", "&&", ">>",
   "-=", "+=", "*=", "/=", "%=", "^=", "==", "!=", "<=", ">="]

def shortOperators : List Char := "-+*/%^!~()\x7b\x7d[],:;?$<>=|".toList

def operatorLength (cs : List Char) : Nat :=
  match longOperators.find? (fun operator => operator.toList.isPrefixOf cs) with
  | some operator => operator.length
  | none =>
    match cs with
    | c :: _ => if shortOperators.contains c then 1 else 0
    | [] => 0

/-- The first of the readings that takes something. -/
def plainLength (cs : List Char) : Nat :=
  ([wordLength, fieldLength, numberLength, operatorLength].map (· cs)).find? (0 < ·) |>.getD 0

/-- The span at the front of a text that starts with `c`. -/
def at? (c : Char) (cs : List Char) : Option Span :=
  if c = '#' then some ⟨.comment, cs.length⟩
  else if c = '"' || c = '\'' then some ⟨.quoted, quotedLength c cs⟩
  else if 0 < ledRegexLength (c :: cs) then some ⟨.regex, ledRegexLength (c :: cs) - 1⟩
  else if 0 < plainLength (c :: cs) then some ⟨.plain, plainLength (c :: cs) - 1⟩
  else none

/-- The characters before the first place where a span starts, if there is one. -/
def skipped? : List Char → Option (List Char)
  | [] => none
  | c :: cs =>
    match at? c cs with
    | some _ => some []
    | none => (skipped? cs).map (c :: ·)

/-- The span at the front of a text; the first on a line may be a bare regex. -/
def front? (first : Bool) (c : Char) (cs : List Char) : Option Span :=
  if first && c = '/' then some ⟨.regex, regexLength false cs⟩ else at? c cs

end Span

end AwkToPython
