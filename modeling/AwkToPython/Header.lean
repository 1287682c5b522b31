import AwkToPython.Text.Integer
import AwkToPython.Text.Lines

/-!
# Headers

The comments at the top of a generated program say what it was made from.
-/
namespace AwkToPython

inductive Header where
  | program (firstLine : String)
  | file (path : String)
  | included (path : String)
  | preset (name value : String)
  /-- The tokens of a source text, for debugging. -/
  | tokens (texts : List String)
deriving DecidableEq, Repr

namespace Header

def isControl (c : Char) : Bool := c.toNat < 0x20 || (0x7f ≤ c.toNat && c.toNat < 0xa0)

def escaped (c : Char) : List Char :=
  if c = '\t' then ['\\', 't']
  else if c = '\r' then ['\\', 'r']
  else if c = '\n' then ['\\', 'n']
  else if isControl c then ("\\u\x7b" ++ Text.hex c.toNat ++ "\x7d").toList
  else [c]

/-- A text with its control characters spelled out, so that it stays on its line. -/
def visible (s : String) : String := String.ofList (s.toList.flatMap escaped)

def text : Header → String
  | .program firstLine => "# -e " ++ visible firstLine
  | .file path => "# -f " ++ path
  | .included path => "# -i " ++ path
  | .preset name value => "# -v " ++ name ++ "=" ++ visible value
  | .tokens texts => "# tokens: " ++ Text.join " " texts

/-- The header of a program text: its first line stands for it. -/
def ofProgram (source : String) : Header :=
  .program (String.ofList ((Text.lines source.toList).head?.getD []))

end Header

end AwkToPython
