/-!
# Lines, byte lengths and cuts

A line ends at a line feed, and a carriage return right before that line feed
belongs to the line's end. Columns count bytes of UTF-8, so a text's length is
measured in bytes as well as in characters.
-/
namespace AwkToPython.Text

/-- The lines of a text, without their ends. The piece after the last line feed
is a line only if it is not empty, and it keeps a carriage return. -/
def lines : List Char → List (List Char)
  | [] => []
  | '\n' :: rest => [] :: lines rest
  | '\r' :: '\n' :: rest => [] :: lines rest
  | c :: rest =>
    match lines rest with
    | [] => [[c]]
    | first :: others => (c :: first) :: others

/-- The number of bytes the characters take in UTF-8. -/
def byteLength : List Char → Nat
  | [] => 0
  | c :: cs => c.utf8Size + byteLength cs

@[simp] theorem byteLength_append (as bs : List Char) :
    byteLength (as ++ bs) = byteLength as + byteLength bs := by
  induction as with
  | nil => simp [byteLength]
  | cons c cs ih => simp [byteLength, ih, Nat.add_assoc]

def hasNul (s : String) : Bool := s.toList.contains '\x00'

/-- What follows `lead` in `s`, if `s` begins with it. -/
def after? (lead s : String) : Option String :=
  (lead.toList.isPrefixOf? s.toList).map String.ofList

def startsWith (lead s : String) : Bool := lead.toList.isPrefixOf s.toList

/-- Cut a character list at the first place where `mark` stands. -/
def cutChars (mark : List Char) : List Char → Option (List Char × List Char)
  | [] => if mark.isEmpty then some ([], []) else none
  | c :: cs =>
    match mark.isPrefixOf? (c :: cs) with
    | some rest => some ([], rest)
    | none => (cutChars mark cs).map fun parts => (c :: parts.1, parts.2)

/-- Cut a text at the first place where `mark` stands: what comes before it and
what comes after it. -/
def cut? (mark s : String) : Option (String × String) :=
  (cutChars mark.toList s.toList).map fun parts =>
    (String.ofList parts.1, String.ofList parts.2)

/-- Put `new` in the first place where `old` stands. -/
def replaceFirst (old new s : String) : String :=
  match cut? old s with
  | some (before, behind) => before ++ new ++ behind
  | none => s

/-- The pieces of a text between the places where the character `mark` stands. -/
def pieces (mark : Char) : List Char → List (List Char)
  | [] => [[]]
  | c :: cs =>
    if c = mark then [] :: pieces mark cs
    else
      match pieces mark cs with
      | [] => [[c]]
      | first :: others => (c :: first) :: others

def join (separator : String) (parts : List String) : String :=
  separator.intercalate parts

example : lines "a\r\nb\n\nc\r".toList = ["a".toList, "b".toList, [], "c\r".toList] := by decide

end AwkToPython.Text
