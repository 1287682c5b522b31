/-!
# Conversions

How the argument of each conversion letter is coerced in Python, and how its
replacement field ends.
-/
namespace AwkToPython.Format

structure Conversion where
  letter : Char
  opening : String
  closing : String
  suffix : String := ""
  /-- The precision if none is written. -/
  precision : Option String := none
deriving DecidableEq, Repr

namespace Conversion

def apply (c : Conversion) (argument : String) : String := c.opening ++ argument ++ c.closing

def recipe (c : Conversion) : String := c.apply "\x7b\x7d"

def integer (letter : Char) : Conversion := { letter, opening := "int(", closing := ")" }

def floating (letter : Char) : Conversion :=
  { letter, opening := "float(", closing := ")", suffix := String.ofList [letter],
    precision := some "6" }

def all : List Conversion :=
  [{ letter := 'a', opening := "hex(float(", closing := "))[2:]" },
   { letter := 'A', opening := "hex(float(", closing := "))[2:].upper()" },
   { letter := 'c', opening := "str(", closing := ")[0]" },
   integer 'd', integer 'i', integer 'u',
   floating 'e', floating 'E', floating 'f', floating 'F',
   { letter := 'g', opening := "self._format_g(", closing := ")" },
   { letter := 'G', opening := "self._format_g(", closing := ").upper()" },
   { letter := 'o', opening := "oct(int(", closing := "))[2:]" },
   { letter := 's', opening := "str(", closing := ")" },
   { letter := 'x', opening := "hex(int(", closing := "))[2:]" },
   { letter := 'X', opening := "hex(int(", closing := "))[2:].upper()" }]

def find? (letter : Char) : Option Conversion := all.find? fun c => c.letter = letter

/-- Conversions of integers take a precision as the least number of digits. -/
def isInteger (c : Conversion) : Bool := ['d', 'i', 'u', 'o', 'x', 'X'].contains c.letter

/-- The letter of the same conversion in Python's percent formatting. -/
def percentLetter (c : Conversion) : Char :=
  if c.letter = 'i' || c.letter = 'u' then 'd' else c.letter

def star : Conversion := integer 'd'

end Conversion

end AwkToPython.Format
