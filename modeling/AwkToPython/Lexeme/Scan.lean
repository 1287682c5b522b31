import AwkToPython.Error
import AwkToPython.Lexeme.Span

/-!
# Lexemes

Scanning cuts a source text into words, comments and line ends, each with its
place. A literal that is still open at the end of its line goes on in the next
line, which is stitched to it without being trimmed; a line that ends in a lone
backslash is joined with the next. The first text that is no lexeme ends the
scan with a fault.
-/
namespace AwkToPython

inductive Lexeme where
  | word (text : String) (place : Place) (spaced : Bool)
  | comment (text : String) (place : Place) (spaced ownLine : Bool)
  | lineEnd (place : Place)
  | fault (fault : LexicalFault) (place : Place)
deriving DecidableEq, Repr

namespace Lexeme

/-- Whether a literal lacks its closing delimiter: its last character is another
one, or a backslash escapes it. -/
def isOpen (literal : List Char) : Bool :=
  match literal with
  | [] => false
  | delimiter :: body =>
    if delimiter = '"' || delimiter = '\'' || delimiter = '/' then
      if body.getLast? = some delimiter then
        (body.dropLast.reverse.takeWhile (· = '\\')).length % 2 = 1
      else true
    else false

/-- The text of a span before its literal and the literal. Only a regex may have
an operator and blanks in front. -/
def splitLead (shape : Shape) (text : List Char) : List Char × List Char :=
  if shape = .regex then (text.takeWhile (· ≠ '/'), text.dropWhile (· ≠ '/')) else ([], text)

/-- What an open literal contributes to the stitched line: a backslash at its end
is dropped. -/
def continued (text : List Char) : List Char :=
  if text.getLast? = some '\\' then text.dropLast else text

theorem length_continued_le (text : List Char) : (continued text).length ≤ text.length := by
  rw [continued]
  split <;> simp

def openFault (literal : List Char) : LexicalFault :=
  if literal.head? = some '/' then .openRegex (String.ofList literal)
  else .openString (String.ofList literal)

/-- The one or two words of a span that starts after `pos` bytes of its line. -/
def words (number pos : Nat) (spaced : Bool) (lead literal : List Char) : List Lexeme :=
  let operator := Text.trim lead
  let place : Place := ⟨number, pos + 1 + Text.byteLength lead⟩
  if operator.isEmpty then [.word (String.ofList literal) place spaced]
  else
    [.word (String.ofList operator) ⟨number, pos + 1⟩ spaced,
     .word (String.ofList literal) place (operator.length < lead.length)]

/-- Scan the rest of a line and the lines after it. `number` is the line's
number, `pos` the bytes before the rest, `first` whether no word of the line has
been seen, and `spaced` whether the next lexeme follows a blank. -/
def scanLine (number pos : Nat) (first spaced : Bool) (rest : List Char)
    (later : List (List Char)) : List Lexeme :=
  match rest, later with
  | [], [] => [.lineEnd ⟨number, pos + 1⟩]
  | [], line :: later =>
    .lineEnd ⟨number, pos + 1⟩ :: scanLine (number + 1) 0 true true (Text.trim line) later
  | c :: cs, later =>
    let place : Place := ⟨number, pos + 1⟩
    if Text.isBlank c then scanLine number (pos + c.utf8Size) first true cs later
    else if c = '\\' && cs.isEmpty then
      match later with
      | [] => scanLine (number + 1) 0 first true [] []
      | line :: later => scanLine (number + 1) 0 first true (Text.trim line) later
    else
      match Span.front? first c cs with
      | none =>
        let text := match Span.skipped? (c :: cs) with
          | some skipped => Text.trimEnd skipped
          | none => c :: cs
        [.fault (.unrecognised (String.ofList text)) place]
      | some span =>
        let text := c :: cs.take span.more
        if span.shape = .comment then
          .comment (String.ofList text) place spaced first ::
            scanLine number (pos + Text.byteLength (c :: cs)) first spaced [] later
        else
          let parts := splitLead span.shape text
          if span.shape ≠ .plain && isOpen parts.2 then
            match later with
            | [] => [.fault (openFault parts.2) place]
            | line :: later =>
              scanLine (number + 1) pos first spaced (continued text ++ line) later
          else
            words number pos spaced parts.1 parts.2 ++
              scanLine number (pos + Text.byteLength text) false false (cs.drop span.more) later
termination_by rest.length + later.flatten.length + later.length
decreasing_by
  all_goals simp only [List.length_nil, List.length_cons, List.length_append, List.length_drop,
    List.flatten_nil, List.flatten_cons]
  · have := Text.length_trim_le line
    omega
  · omega
  · omega
  · have := Text.length_trim_le line
    omega
  · omega
  · have kept := length_continued_le (c :: cs.take span.more)
    have taken := List.length_take_le' span.more cs
    rw [List.length_cons] at kept
    omega
  · omega

def scan (source : String) : List Lexeme :=
  match Text.lines source.toList with
  | [] => []
  | line :: later => scanLine 1 0 true true (Text.trim line) later

end Lexeme

end AwkToPython
