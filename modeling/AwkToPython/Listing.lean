import AwkToPython.Symbol.Basic
import AwkToPython.Text.Blank
import AwkToPython.Text.Lines

/-!
# Listings

The lines of the generated program, one list for each section and one for the
functions. Lines are written to the current list at the current depth. A mark is
a number of lines: the lines after it can be taken out and put back deeper. A
mark behind the last line marks no place, and a listing remembers that one was
used.
-/
namespace AwkToPython

inductive Bucket where
  | part (part : Section)
  | functions
deriving DecidableEq, Repr

structure Position where
  bucket : Bucket := .part .record
  depth : Nat := 0
deriving DecidableEq, Repr

structure Listing extends Position where
  start : Array String := #[]
  fileStart : Array String := #[]
  record : Array String := #[]
  fileEnd : Array String := #[]
  finish : Array String := #[]
  functions : Array String := #[]
  /-- A mark was used that lay behind the last line. -/
  strayed : Bool := false
deriving DecidableEq, Repr

namespace Listing

def step : String := "    "

def indentation (depth : Nat) : String :=
  String.ofList (List.replicate depth step.toList).flatten

def linesOf (l : Listing) : Bucket → Array String
  | .part .start => l.start
  | .part .fileStart => l.fileStart
  | .part .record => l.record
  | .part .fileEnd => l.fileEnd
  | .part .finish => l.finish
  | .functions => l.functions

def lines (l : Listing) : Array String := l.linesOf l.bucket

def setLines (l : Listing) (lines : Array String) : Listing :=
  match l.bucket with
  | .part .start => { l with start := lines }
  | .part .fileStart => { l with fileStart := lines }
  | .part .record => { l with record := lines }
  | .part .fileEnd => { l with fileEnd := lines }
  | .part .finish => { l with finish := lines }
  | .functions => { l with functions := lines }

/-- Switch to a bucket, at its outermost level. -/
def enter (l : Listing) (bucket : Bucket) : Listing := { l with bucket, depth := 0 }

def leave (l : Listing) (saved : Position) : Listing := { l with toPosition := saved }

def indent (l : Listing) : Listing := { l with depth := l.depth + 1 }

def dedent (l : Listing) : Listing := { l with depth := l.depth - 1 }

def line (l : Listing) (text : String) : Listing :=
  l.setLines (l.lines.push (indentation l.depth ++ text))

/-- Write at the end of the last line; nothing happens if there is none. -/
def append (l : Listing) (text : String) : Listing :=
  match l.lines.back? with
  | some last => l.setLines (l.lines.pop.push (last ++ text))
  | none => l

def mark (l : Listing) : Nat := l.lines.size

/-- Use a mark, which has to lie within the lines. -/
def visit (l : Listing) (mark : Nat) : Listing :=
  if mark ≤ l.lines.size then l else { l with strayed := true }

def splice (l : Listing) (mark : Nat) (lines : List String) : Listing :=
  (l.visit mark).setLines (l.lines.take mark ++ lines.toArray ++ l.lines.drop mark)

def insert (l : Listing) (mark : Nat) (text : String) : Listing :=
  l.splice mark [indentation l.depth ++ text]

def takeSince (l : Listing) (mark : Nat) : List String × Listing :=
  ((l.lines.drop mark).toList, (l.visit mark).setLines (l.lines.take mark))

def deeper (levels : Nat) (lines : List String) : List String :=
  lines.map (indentation levels ++ ·)

def appendLines (l : Listing) (lines : List String) (levels : Nat) : Listing :=
  l.setLines (l.lines ++ (deeper levels lines).toArray)

def insertLines (l : Listing) (mark : Nat) (lines : List String) (levels : Nat) : Listing :=
  l.splice mark (deeper levels lines)

/-- Change the first `old` in one line. -/
def replace (l : Listing) (position : Nat) (old new : String) : Listing :=
  match l.lines[position]? with
  | some line => l.setLines (l.lines.setIfInBounds position (Text.replaceFirst old new line))
  | none => { l with strayed := true }

def isComment (line : String) : Bool := (Text.trimStart line.toList).head? = some '#'

/-- The number of lines after a mark that are no comments. -/
def statementsSince (l : Listing) (mark : Nat) : Nat :=
  ((l.lines.drop mark).toList.filter fun line => !isComment line).length

end Listing

end AwkToPython
