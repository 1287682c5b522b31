/-!
# Values of AWK string literals

Inside a literal a backslash starts an escape. The named escapes and up to three
octal digits stand for one character, any other escaped character for itself,
and a backslash at the very end for itself.
-/
namespace AwkToPython.Literal

def isOctal (c : Char) : Bool := '0' ≤ c && c ≤ '7'

def octalValue (cs : List Char) : Nat :=
  cs.foldl (fun value c => value * 8 + (c.toNat - '0'.toNat)) 0

def octalChar (cs : List Char) : Char := Char.ofNat (octalValue cs)

def escapedChar (c : Char) : Char :=
  match c with
  | 'n' => '\n'
  | 't' => '\t'
  | 'r' => '\r'
  | 'a' => '\x07'
  | 'b' => '\x08'
  | 'f' => '\x0c'
  | 'v' => '\x0b'
  | other => other

def unescape : List Char → List Char
  | [] => []
  | ['\\'] => ['\\']
  | '\\' :: c :: rest =>
    if isOctal c then
      match rest with
      | [] => [octalChar [c]]
      | d :: rest' =>
        if isOctal d then
          match rest' with
          | [] => [octalChar [c, d]]
          | e :: rest'' =>
            if isOctal e then octalChar [c, d, e] :: unescape rest''
            else octalChar [c, d] :: unescape (e :: rest'')
        else octalChar [c] :: unescape (d :: rest')
    else escapedChar c :: unescape rest
  | c :: rest => c :: unescape rest

def isQuote (c : Char) : Bool := c = '"' || c = '\''

/-- What stands between the quotes. A missing closing quote is no harm, and a
text that starts with no quote is taken whole. -/
def unquote (token : List Char) : List Char :=
  match token with
  | q :: rest =>
    if isQuote q then
      if rest.getLast? = some q then rest.dropLast else rest
    else token
  | [] => []

def value (token : String) : String :=
  String.ofList (unescape (unquote token.toList))

end AwkToPython.Literal
