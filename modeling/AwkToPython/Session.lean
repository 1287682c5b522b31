import AwkToPython.Cursor
import AwkToPython.Format.Template
import AwkToPython.Fragment
import AwkToPython.Header
import AwkToPython.Listing
import AwkToPython.Token.Reading

/-!
# Sessions

A session holds all that is known while the sources of one program are compiled
one after the other. A step that fails leaves a session behind on which later
steps can go on.
-/
namespace AwkToPython

/-- Something worth reporting that does not stop compilation. -/
structure Diagnostic where
  line : Nat
  warning : Format.Warning
deriving DecidableEq, Repr

def Diagnostic.text (d : Diagnostic) : String := s!"line {d.line}: " ++ d.warning.message

structure Options where
  debug : Bool := false
  library : Library := {}
deriving DecidableEq, Repr

structure Session extends Vocabulary where
  options : Options := {}
  cursor : Cursor := Cursor.ofTokens []
  listing : Listing := {}
  /-- Python modules that calls need, in the order of their first use. -/
  imports : List String := []
  headers : List Header := []
  hasMainLoop : Bool := false
  /-- Calls of names that were no functions yet, with their lines. -/
  calls : List (SymbolId × Nat) := []
  temporaries : Nat := 0
  diagnostics : List Diagnostic := []
deriving DecidableEq, Repr

abbrev Compile := EStateM Error Session

namespace Compile

def current : Compile Token := return (← get).cursor.current

def symbolOf (token : Token) : Compile Symbol := return (← get).table.symbol token.symbol

def symbol : Compile Symbol := do symbolOf (← current)

def kind : Compile SymbolKind := return (← symbol).kind

def peek (n : Nat) : Compile Token := return (← get).cursor.peek n

def line : Compile Nat := return (← current).line

/-- The number of tokens after the current one; it bounds what can still be read. -/
def remaining : Compile Nat := return (← get).cursor.remaining

def moveCursor (move : Cursor → Cursor) : Compile Unit :=
  modify fun s => { s with cursor := move s.cursor }

def advance : Compile Unit := moveCursor Cursor.advance

def skipNewlines : Compile Unit := moveCursor (Cursor.skip Token.isNewline)

def skipTerminators : Compile Unit :=
  modify fun s =>
    { s with cursor := s.cursor.skip fun t => (s.table.symbol t.symbol).isConsumedTerminator }

def unexpected {α : Type} (expected : Expectation) : Compile α := do
  let s ← get
  let text (t : Token) : String := t.text s.table
  let found := text s.cursor.current
  let (before, behind) := s.cursor.window
  let window := before.map text ++ [">>>" ++ found ++ "<<<"] ++ behind.map text
  throw (.unexpected expected found (Text.join " " window) s.cursor.current.place)

def atKind (kind : SymbolKind) : Compile Bool := return (← symbol).kind = kind

def atBracket (bracket : Bracket) : Compile Bool := atKind (.bracket bracket)

def atKey (key : String) : Compile Bool := return (← symbol).key = key

/-- Whether a semicolon, a line end, a closing brace or the end of input stands here. -/
def atStatementEnd : Compile Bool := do
  let s ← symbol
  return s.isTerminator || s.isEnd

def expectBracket (bracket : Bracket) (text : String) : Compile Unit := do
  if ← atBracket bracket then advance else unexpected (.mark text)

/-- Move past a comma that has to stand here, and past line ends after it. -/
def expectComma : Compile Unit := do
  if ← atKind .comma then
    advance
    skipNewlines
  else unexpected (.mark ",")

def expectSemicolon : Compile Unit := do
  if ← atKey ";" then
    advance
    skipNewlines
  else unexpected (.mark ";")

/-! ### Symbols -/

def intern (add : Table → SymbolId × Table) : Compile SymbolId :=
  modifyGet fun s =>
    let (id, table) := add s.table
    (id, { s with table })

def changeTable (change : Table → Except Error Table) : Compile Unit := do
  let table ← liftExcept (change (← get).table)
  modify fun s => { s with table }

def markArray (id : SymbolId) (line : Nat) : Compile Unit := changeTable (·.markArray id line)

def markScalar (id : SymbolId) (line : Nat) : Compile Unit := changeTable (·.markScalar id line)

def pythonOf (id : SymbolId) : Compile String := return ((← get).table.symbol id).python

/-! ### Lines -/

def write (change : Listing → Listing) : Compile Unit :=
  modify fun s => { s with listing := change s.listing }

def mark : Compile Nat := return (← get).listing.mark

def takeSince (mark : Nat) : Compile (List String) :=
  modifyGet fun s =>
    let (taken, listing) := s.listing.takeSince mark
    (taken, { s with listing })

def indent : Compile Unit := write Listing.indent

def dedent : Compile Unit := write Listing.dedent

def appendLines (lines : List String) (levels : Nat) : Compile Unit :=
  write (·.appendLines lines levels)

def isOwnLineComment (table : Table) (t : Token) : Bool :=
  (table.symbol t.symbol).kind = .comment true

/-- Write a line together with the comments passed since the last one: those with
a line of their own before it, the others at its end. -/
def emit (text : String) : Compile Unit :=
  modify fun s =>
    let (comments, cursor) := s.cursor.takeComments
    let textOf (t : Token) : String := (s.table.symbol t.symbol).python
    let (own, trailing) := comments.partition (isOwnLineComment s.table)
    let listing := own.foldl (fun l t => l.line (textOf t)) s.listing
    let listing := trailing.foldl (fun l t => l.append ("  " ++ textOf t)) (listing.line text)
    { s with cursor, listing }

def nextTemporary : Compile Nat :=
  modifyGet fun s => (s.temporaries + 1, { s with temporaries := s.temporaries + 1 })

def requireLibrary (library : String) : Compile Unit :=
  modify fun s =>
    if s.imports.contains library then s else { s with imports := s.imports ++ [library] }

def warn (warning : Format.Warning) : Compile Unit := do
  let diagnostic : Diagnostic := { line := ← line, warning }
  modify fun s => { s with diagnostics := s.diagnostics ++ [diagnostic] }

def addHeader (header : Header) : Compile Unit :=
  modify fun s => { s with headers := s.headers ++ [header] }

def needMainLoop : Compile Unit := modify fun s => { s with hasMainLoop := true }

/-- The code of a formatted call; what is worth reporting is reported. -/
def formatted (arguments : List Fragment) : Compile String := do
  let compiled := Format.compile (arguments.map (·.text))
  compiled.warnings.forM warn
  return compiled.code

end Compile

end AwkToPython
