import AwkToPython.Lexeme.Span

/-!
# Python expressions

How Python reads an expression. A text is cut into words, and the words are
parsed by climbing the levels of Python's operators; a lower level binds tighter.
Comparisons that follow one another are chained, powers and conditional
expressions associate to the right.
-/
namespace AwkToPython.Python

inductive Expr where
  | name (text : String)
  | number (text : String)
  | string (text : String)
  | attribute (owner : Expr) (name : String)
  | subscript (base index : Expr)
  | call (function argument : Expr)
  | unary (op : String) (operand : Expr)
  | binary (op : String) (left right : Expr)
  /-- A comparison whose left side is the comparison before it. -/
  | chain (op : String) (left right : Expr)
  | choose (yes test no : Expr)
deriving DecidableEq, Repr

inductive Word where
  | name (text : String)
  | number (text : String)
  | string (text : String)
  /-- An operator, a bracket or a keyword of expressions. -/
  | mark (text : String)
  | bad
deriving DecidableEq, Repr

namespace Word

def keywordMarks : List String := ["and", "or", "not", "if", "else"]

/-- Keywords that stand in none of the expressions read here. -/
def otherKeywords : List String :=
  ["False", "None", "True", "as", "assert", "async", "await", "break", "class", "continue", "def",
   "del", "elif", "except", "finally", "for", "from", "global", "import", "in", "is", "lambda",
   "nonlocal", "pass", "raise", "return", "try", "while", "with", "yield"]

def ofName (text : String) : Word :=
  if keywordMarks.contains text then .mark text
  else if otherKeywords.contains text then .bad
  else .name text

/-- The characters of a number; Python refuses a zero in front of other digits. -/
def numberLength (cs : List Char) : Nat :=
  if 0 < Span.hexLength cs then Span.hexLength cs
  else
    match cs with
    | '0' :: c :: _ => if c.isDigit then 0 else Span.decimalLength cs
    | _ => Span.decimalLength cs

/-- The characters after an opening quote, up to and with the closing one. -/
def stringLength? : List Char → Option Nat
  | [] => none
  | '"' :: _ => some 1
  | '\n' :: _ => none
  | '\\' :: _ :: rest => (stringLength? rest).map (· + 2)
  | _ :: rest => (stringLength? rest).map (· + 1)

def longMarks : List String := ["**", "//", "<<", ">>", "<=", ">=", "==", "!="]

def shortMarks : List Char := ['+', '-', '*', '/', '%', '<', '>', '(', ')', '[', ']', '.']

/-- The mark at the front of a text, and whether it has a second character. -/
def markAt (c : Char) (cs : List Char) : Word × Nat :=
  let long := String.ofList (c :: cs.take 1)
  if longMarks.contains long then (.mark long, 1)
  else if shortMarks.contains c then (.mark (String.ofList [c]), 0)
  else (.bad, 0)

/-- The word at the front of a text, and how many characters it has after `c`. -/
def front (c : Char) (cs : List Char) : Word × Nat :=
  if Name.isStart c then
    let inner := cs.takeWhile Name.isInner
    (ofName (String.ofList (c :: inner)), inner.length)
  else if c = '"' then
    match stringLength? cs with
    | some n => (.string (String.ofList (c :: cs.take n)), n)
    | none => (.bad, cs.length)
  else if 0 < numberLength (c :: cs) then
    let more := numberLength (c :: cs) - 1
    (.number (String.ofList (c :: cs.take more)), more)
  else markAt c cs

end Word

/-- The words of a text. -/
def lex : List Char → List Word
  | [] => []
  | c :: cs =>
    if c = ' ' then lex cs
    else
      (Word.front c cs).1 :: lex (cs.drop (Word.front c cs).2)
termination_by cs => cs.length

/-! ### Operators -/

def signLevel : Nat := 5
def comparisonLevel : Nat := 9
def notLevel : Nat := 10
def chooseLevel : Nat := 19

def isSign (op : String) : Bool := op = "+" || op = "-"

/-- The level of a binary operator and that of its right operand. -/
def operator? (op : String) : Option (Nat × Nat) :=
  if op = "**" then some (4, signLevel)
  else if op = "*" || op = "/" || op = "%" then some (6, 5)
  else if op = "+" || op = "-" then some (7, 6)
  else if op = "<" || op = "<=" || op = "==" || op = "!=" || op = ">" || op = ">=" then
    some (comparisonLevel, 8)
  else if op = "and" then some (17, 16)
  else if op = "or" then some (18, 17)
  else none

inductive Goal where
  /-- An expression whose operators bind at a level or tighter. -/
  | operation (level : Nat)
  /-- The same, from an operand that is read already but may have a trailer. -/
  | trailer (left : Expr) (level : Nat)
  /-- The same, from a left side; `compared` if it is a comparison that may go on. -/
  | rest (left : Expr) (compared : Bool) (level : Nat)

/-- Move past a mark that has to stand here. -/
def expect (mark : String) : List Word → Option (List Word)
  | w :: ws => if w = .mark mark then some ws else none
  | [] => none

/-- A parser for the parts of an expression. -/
abbrev Parser := Goal → List Word → Option (Expr × List Word)

/-- An operand from its first word on. -/
def parseOperation (parts : Parser) (level : Nat) : List Word → Option (Expr × List Word)
  | .name text :: ws => parts (.trailer (.name text) level) ws
  | .number text :: ws => parts (.trailer (.number text) level) ws
  | .string text :: ws => parts (.trailer (.string text) level) ws
  | .mark op :: ws =>
    if op = "(" then do
      let (e, ws) ← parts (.operation chooseLevel) ws
      parts (.trailer e level) (← expect ")" ws)
    else if isSign op && signLevel ≤ level then do
      let (e, ws) ← parts (.operation signLevel) ws
      parts (.rest (.unary op e) false level) ws
    else if op = "not" && notLevel ≤ level then do
      let (e, ws) ← parts (.operation notLevel) ws
      parts (.rest (.unary op e) false level) ws
    else none
  | _ => none

/-- Attributes, subscripts and calls after an operand. -/
def parseTrailer (parts : Parser) (left : Expr) (level : Nat) :
    List Word → Option (Expr × List Word)
  | .mark op :: ws =>
    if op = "." then
      match ws with
      | .name text :: ws => parts (.trailer (.attribute left text) level) ws
      | _ => none
    else if op = "[" then do
      let (index, ws) ← parts (.operation chooseLevel) ws
      parts (.trailer (.subscript left index) level) (← expect "]" ws)
    else if op = "(" then do
      let (argument, ws) ← parts (.operation chooseLevel) ws
      parts (.trailer (.call left argument) level) (← expect ")" ws)
    else parts (.rest left false level) (.mark op :: ws)
  | ws => parts (.rest left false level) ws

/-- Operators after a left side. -/
def parseRest (parts : Parser) (left : Expr) (compared : Bool) (level : Nat) :
    List Word → Option (Expr × List Word)
  | .mark op :: ws =>
    if op = "if" && chooseLevel ≤ level then do
      let (test, ws) ← parts (.operation (chooseLevel - 1)) ws
      let (no, ws) ← parts (.operation chooseLevel) (← expect "else" ws)
      parts (.rest (.choose left test no) false level) ws
    else
      match operator? op with
      | some (own, right) =>
        if own ≤ level then do
          let (e, ws) ← parts (.operation right) ws
          let joined := if compared && own = comparisonLevel then Expr.chain op left e
            else .binary op left e
          parts (.rest joined (own = comparisonLevel) level) ws
        else some (left, .mark op :: ws)
      | none => some (left, .mark op :: ws)
  | ws => some (left, ws)

/-- One goal, in terms of the goals of its parts. -/
def parseGoal (parts : Parser) : Parser
  | .operation level, ws => parseOperation parts level ws
  | .trailer left level, ws => parseTrailer parts left level ws
  | .rest left compared level, ws => parseRest parts left compared level ws

/-- Goals nested at most `depth` deep. -/
def parse : Nat → Parser
  | 0, _, _ => none
  | depth + 1, goal, ws => parseGoal (parse depth) goal ws

/-- Between two words at most three goals are nested. -/
def depthBound (words : Nat) : Nat := 3 * (words + 1)

/-- The expression that a text spells. -/
def read (text : String) : Option Expr :=
  let ws := lex text.toList
  match parse (depthBound ws.length) (.operation chooseLevel) ws with
  | some (e, []) => some e
  | _ => none

example : read "-self.x**2" = some (.unary "-" (.binary "**" (.attribute (.name "self") "x")
    (.number "2"))) := by cbv

example : read "1<2<3" = some (.chain "<" (.binary "<" (.number "1") (.number "2"))
    (.number "3")) := by cbv

end AwkToPython.Python
