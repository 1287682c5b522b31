import AwkToPython.Text.Lines

/-!
# Names

AWK names are ASCII words; a qualified name puts a scope and two colons before
one. Names without lower-case letters belong to every namespace alike, and names
that Python reserves get a trailing underscore.
-/
namespace AwkToPython.Name

def isStart (c : Char) : Bool := c.isAlpha || c = '_'

def isInner (c : Char) : Bool := c.isAlphanum || c = '_'

def isIdentifierChars : List Char → Bool
  | [] => false
  | c :: cs => isStart c && cs.all isInner

def isIdentifier (s : String) : Bool := isIdentifierChars s.toList

/-- At least one letter and no lower-case letter. -/
def isAllUpper (s : String) : Bool :=
  s.toList.any Char.isAlpha && !s.toList.any Char.isLower

def separator : String := "::"

/-- The scope and the bare name of a qualified name: both halves of the text
around the first separator have to be identifiers. -/
def qualified? (s : String) : Option (String × String) :=
  (Text.cut? separator s).filter fun parts => isIdentifier parts.1 && isIdentifier parts.2

def bare (s : String) : String := ((qualified? s).map (·.2)).getD s

def isName (s : String) : Bool := isIdentifier s || (qualified? s).isSome

def pythonKeywords : List String :=
  ["False", "None", "True", "and", "as", "assert", "async", "await", "class", "def", "del",
   "elif", "except", "finally", "from", "global", "import", "is", "lambda", "nonlocal", "not",
   "or", "pass", "raise", "try", "with", "yield"]

def python (s : String) : String :=
  if pythonKeywords.contains s then s ++ "_" else s

end AwkToPython.Name
