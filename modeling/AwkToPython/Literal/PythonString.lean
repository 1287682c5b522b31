import AwkToPython.Text.Integer

/-!
# Python string literals

A value is written between double quotes. Backslashes, quotes and control
characters are escaped, so that the literal ends at its last quote and stands on
one line. A raw literal cannot escape: there a quote gets a backslash of its own
unless it already has one.
-/
namespace AwkToPython.Literal

/-- Two hexadecimal digits. -/
def hexPair (n : Nat) : List Char :=
  [Nat.digitChar (n / 16), Nat.digitChar (n % 16)]

def quotedChar (c : Char) : List Char :=
  match c with
  | '\\' => ['\\', '\\']
  | '"' => ['\\', '"']
  | '\n' => ['\\', 'n']
  | '\t' => ['\\', 't']
  | '\r' => ['\\', 'r']
  | c => if c.toNat < 0x20 || c.toNat = 0x7f then '\\' :: 'x' :: hexPair c.toNat else [c]

/-- The Python literal that denotes `value`. -/
def python (value : String) : String :=
  String.ofList ('"' :: value.toList.flatMap quotedChar ++ ['"'])

/-- Put a backslash before each quote that an even run of backslashes precedes;
`odd` says whether the run before the text is odd. -/
def guardQuotes (odd : Bool) : List Char → List Char
  | [] => []
  | c :: rest =>
    if c = '"' && !odd then '\\' :: c :: guardQuotes false rest
    else c :: guardQuotes (c = '\\' && !odd) rest

def compiledRegex (body : String) : String :=
  "re.compile(r\"(?:" ++ String.ofList (guardQuotes false body.toList) ++ ")\")"

/-- The compiled pattern of a string used as a regex; `literal` is its Python text. -/
def compiledString (literal : String) : String :=
  "re.compile(\"(?:\" + " ++ literal ++ " + \")\")"

end AwkToPython.Literal
