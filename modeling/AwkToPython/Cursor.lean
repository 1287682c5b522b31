import AwkToPython.Token.Basic

/-!
# Cursors

A cursor reads a token stream. It never stands on a comment, and of line ends
that follow each other it shows the last. The comments it passes are kept until
someone takes them.
-/
namespace AwkToPython

/-- `passed` are the tokens before the current one, the nearest first, hidden
ones included; `comments` are those not taken yet, in order. -/
structure Cursor where
  passed : List Token := []
  current : Token
  ahead : List Token := []
  prior : Option Token := none
  comments : List Token := []
deriving DecidableEq, Repr

namespace Cursor

def newlineFollows (ahead : List Token) : Bool :=
  match ahead.dropWhile Token.isComment with
  | [] => false
  | t :: _ => t.isNewline

/-- Move past what the cursor does not show: comments, and line ends before
further line ends. The last token of all is shown whatever it is. -/
def settle (passed : List Token) (current : Token) (ahead comments : List Token)
    (prior : Option Token) : Cursor :=
  match ahead with
  | [] => { passed, current, ahead := [], prior, comments }
  | next :: rest =>
    if current.isComment then
      settle (current :: passed) next rest (comments ++ [current]) prior
    else if current.isNewline && newlineFollows (next :: rest) then
      settle (current :: passed) next rest comments prior
    else { passed, current, ahead := next :: rest, prior, comments }

/-- The cursor at the start of a stream. An empty one counts as its end. -/
def ofTokens : List Token → Cursor
  | [] => { current := Token.endOfInput 1 }
  | first :: rest => settle [] first rest [] none

/-- The number of tokens after the current one, hidden ones included. -/
def remaining (c : Cursor) : Nat := c.ahead.length

/-- Move to the next token shown; at the end of the stream stay there. -/
def advance (c : Cursor) : Cursor :=
  match c.ahead with
  | [] => { c with prior := some c.current }
  | next :: rest => settle (c.current :: c.passed) next rest c.comments (some c.current)

/-- The `n`th token from a place on that is no comment; the last one of all if
there are fewer. -/
def nth (n : Nat) (last : Token) : List Token → Token
  | [] => last
  | t :: rest =>
    if t.isComment then nth n t rest
    else if n = 1 then t
    else nth (n - 1) t rest

def peek (c : Cursor) (n : Nat) : Token := nth n c.current c.ahead

def takeComments (c : Cursor) : List Token × Cursor := (c.comments, { c with comments := [] })

def windowSize : Nat := 4

/-- The tokens before and after the current one for a report. The search before
it looks at twice as many tokens as it shows. -/
def window (c : Cursor) : List Token × List Token :=
  (((c.passed.take (windowSize * 2)).filter fun t => !t.isComment).take windowSize |>.reverse,
   (c.ahead.filter fun t => !t.isComment).take windowSize)

def skipWhile (p : Token → Bool) : Nat → Cursor → Cursor
  | 0, c => c
  | fuel + 1, c => if p c.current then skipWhile p fuel c.advance else c

def skip (p : Token → Bool) (c : Cursor) : Cursor := skipWhile p (c.remaining + 1) c

end Cursor

end AwkToPython
