import AwkToPython.Symbol.Initial

/-!
# Tokens

A token is an occurrence of a symbol: where it stands and whether a blank or the
start of a line stands before it.
-/
namespace AwkToPython

/-- What a reader of tokens has to know without looking at the symbol. -/
inductive Role where
  | word
  | comment
  | newline
deriving DecidableEq, Repr

structure Token where
  symbol : SymbolId
  place : Place
  spaced : Bool
  role : Role := .word
deriving DecidableEq, Repr

namespace Token

def line (t : Token) : Nat := t.place.line

def isComment (t : Token) : Bool := t.role = .comment

def isNewline (t : Token) : Bool := t.role = .newline

/-- The end of the input, as it stands after the last line with a token. -/
def endOfInput (line : Nat) : Token :=
  { symbol := Table.endOfInput, place := ⟨line, 0⟩, spaced := true }

def text (t : Token) (table : Table) : String :=
  let key := (table.symbol t.symbol).key
  if key = "\n" then "\\n" else key

end Token

end AwkToPython
