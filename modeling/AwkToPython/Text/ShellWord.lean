import AwkToPython.Text.Lines

/-!
# Shell words

How a message names a file. A name that a shell would read as itself stands as it
is. Any other is quoted so that a shell would read the name back: between double
quotes if apostrophes are all that troubles, else between apostrophes, outside of
which apostrophes and escapes are written.
-/
namespace AwkToPython.Text

def octalTriple (n : Nat) : List Char :=
  [Nat.digitChar (n / 64), Nat.digitChar (n / 8 % 8), Nat.digitChar (n % 8)]

/-- The escape of a character that is not printed. Beyond ASCII each byte has one. -/
def shellEscape? (c : Char) : Option (List Char) :=
  match c with
  | '\x07' => some ['\\', 'a']
  | '\x08' => some ['\\', 'b']
  | '\t' => some ['\\', 't']
  | '\n' => some ['\\', 'n']
  | '\x0b' => some ['\\', 'v']
  | '\x0c' => some ['\\', 'f']
  | '\r' => some ['\\', 'r']
  | c =>
    if 0x20 ≤ c.toNat && c.toNat < 0x7f then none
    else some (c.toString.toUTF8.toList.flatMap fun byte => '\\' :: octalTriple byte.toNat)

/-- A character that means itself to a shell, except `#` and `~` in front and a
brace alone. -/
def isPlain (c : Char) : Bool := c.isAlphanum || "#%+,-./@]_\x7b\x7d~".toList.contains c

def isShellWord (word : List Char) : Bool :=
  word ≠ [] && word.all isPlain && word ≠ ['\x7b'] && word ≠ ['\x7d'] &&
    word.head? ≠ some '#' && word.head? ≠ some '~'

/-- A character that needs no care between double quotes. -/
def isTame (c : Char) : Bool := c.isAlphanum || " %'+,-./:@]_".toList.contains c

def fitsDoubleQuotes (word : List Char) : Bool :=
  word.contains '\'' &&
    match word with
    | [] => true
    | c :: rest => (isTame c || c = '#' || c = '~') && rest.all isTame

/-- The inside of a quoted word; `escaping` says whether it is within escapes. -/
def quotedInside (escaping : Bool) : List Char → List Char
  | [] => []
  | c :: rest =>
    match shellEscape? c with
    | some text => (if escaping then text else "'$'".toList ++ text) ++ quotedInside true rest
    | none =>
      if c = '\'' then "'\\''".toList ++ quotedInside false rest
      else (if escaping then ['\'', '\'', c] else [c]) ++ quotedInside false rest

def shellWord (name : String) : String :=
  let word := name.toList
  if isShellWord word then name
  else if fitsDoubleQuotes word then "\"" ++ name ++ "\""
  else "'" ++ String.ofList (quotedInside false word) ++ "'"

end AwkToPython.Text
