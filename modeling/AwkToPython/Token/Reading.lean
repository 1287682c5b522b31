import AwkToPython.Lexeme.Scan
import AwkToPython.Literal.AwkString
import AwkToPython.Literal.Number
import AwkToPython.Restore
import AwkToPython.SourceFiles
import AwkToPython.Token.Basic

/-!
# Reading source text

Reading gives every word of a source text its symbol. Words that are seen for
the first time get a new entry in the table. A directive and the string after it
leave no token: they set the current namespace, or they read another file in
place.
-/
namespace AwkToPython

/-- What the words of all texts read so far have in common. -/
structure Vocabulary where
  table : Table := Table.initial
  registry : Registry := Registry.initial
  files : SourceFiles := {}
deriving DecidableEq, Repr

structure Reading extends Vocabulary where
  tokens : Array Token := #[]
deriving DecidableEq, Repr

abbrev Read := EStateM Error Reading

namespace Reading

def intern (add : Table → SymbolId × Table) : Read SymbolId :=
  modifyGet fun r =>
    let (id, table) := add r.table
    (id, { r with table })

def push (token : Token) : Read Unit :=
  modify fun r => { r with tokens := r.tokens.push token }

/-- A name belongs to the namespace that it resolves to, reserved words to none. -/
def nameSymbol (text : String) : Read SymbolId := do
  let r ← get
  match r.table.find? text, r.table.isReserved text with
  | some id, true => return id
  | _, _ =>
    let (space, bare) := r.registry.resolve text
    set { r with registry := r.registry.meet space }
    intern (·.internVariable (space.key bare) space.pythonLead bare)

def startsNumber (text : List Char) : Bool :=
  match text with
  | c :: rest =>
    let second := rest.head?.getD ' '
    c.isDigit || (c = '.' && second.isDigit) || (c = '-' && (second.isDigit || second = '.'))
  | [] => false

def regexBody (text : List Char) : String :=
  let body := text.drop 1
  String.ofList (if body.getLast? = some '/' then body.dropLast else body)

/-- The symbol of a literal that is met for the first time. -/
def newLiteral (text : String) (place : Place) : Read SymbolId :=
  let head := text.toList.head?.getD ' '
  if startsNumber text.toList then intern (·.number text (Literal.number text))
  else if Literal.isQuote head then
    intern (·.string text (Literal.python (Literal.value text)))
  else
    match (Text.after? "$" text).bind Text.unsigned64? with
    | some index => intern (·.field text index)
    | none =>
      if head = '/' then intern (·.regex (regexBody text.toList))
      else throw (.lexical (.unknownWord text place.line) place)

def literalSymbol (text : String) (place : Place) : Read SymbolId := do
  match (← get).table.find? text with
  | some id => return id
  | none => newLiteral text place

def wordSymbol (text : String) (place : Place) : Read SymbolId :=
  if Name.isName text then nameSymbol text else literalSymbol text place

def directive? (text : String) : Option Directive :=
  if text = Directive.enterNamespace.word then some .enterNamespace
  else if text = Directive.includeFile.word then some .includeFile
  else none

def follow (load : String → Read Unit) (directive : Directive) (name : String) : Read Unit :=
  match directive with
  | .enterNamespace => modify fun r => { r with registry := r.registry.setCurrent ⟨name⟩ }
  | .includeFile => load name

/-- Read one word; the result is the directive that waits for its string. -/
def word (load : String → Read Unit) (pending : Option Directive) (text : String)
    (place : Place) (spaced : Bool) : Read (Option Directive) := do
  match directive? text, pending with
  | some directive, _ => return some directive
  | none, some directive =>
    if Text.startsWith "\"" text then follow load directive (Literal.value text)
    else throw (.lexical (.unquotedName text) place)
    return none
  | none, none =>
    push { symbol := ← wordSymbol text place, place, spaced }
    return none

/-- Read lexemes in order. A directive has to find its string before its line
ends. -/
def lexemes (load : String → Read Unit) : Option Directive → List Lexeme → Read Unit
  | _, [] => pure ()
  | _, .fault fault place :: _ => throw (.lexical fault place)
  | pending, .comment text place spaced ownLine :: rest => do
    let symbol ← intern (·.comment text ownLine)
    push { symbol, place, spaced, role := .comment }
    lexemes load pending rest
  | some directive, .lineEnd place :: _ =>
    throw (.lexical (.directiveAlone directive) ⟨place.line, 1⟩)
  | none, .lineEnd place :: rest => do
    push { symbol := Table.newline, place, spaced := true, role := .newline }
    lexemes load none rest
  | pending, .word text place spaced :: rest => do
    lexemes load (← word load pending text place spaced) rest

/-- Run a reading in the default namespace and come back to the current one. -/
def inDefaultNamespace (x : Read Unit) : Read Unit := do
  let saved := (← get).registry.current
  modify fun r => { r with registry := { r.registry with current := Namespace.default } }
  restoring x fun r => { r with registry := { r.registry with current := saved } }

/-- Read an included file in place, unless it is included already. -/
def loadInclude (library : Library) (source : String → Read Unit) (name : String) : Read Unit := do
  let path := library.locate name
  match ← liftExcept ((← get).files.addInclude library.tree path) with
  | none => pure ()
  | some files =>
    modify fun r => { r with files }
    match library.tree.read path with
    | .error fault => throw (.unreadable path fault)
    | .ok text => inDefaultNamespace (source text)

/-- Read a text whose includes are nested at most `depth` deep. -/
def source (library : Library) : Nat → String → Read Unit
  | 0, _ => throw .exhausted
  | depth + 1, text =>
    lexemes (loadInclude library (source library depth)) none (Lexeme.scan text)

/-- No file is read inside itself, so the files bound the depth. -/
def depthBound (library : Library) : Nat := library.tree.nodes.length + 1

end Reading

def endPadding : Nat := 3

/-- The tokens of a source text, closed by end tokens. The vocabulary that comes
back holds the words read, also if reading failed. -/
def Vocabulary.tokens (v : Vocabulary) (library : Library) (text : String) :
    Except Error (List Token) × Vocabulary :=
  match Reading.inDefaultNamespace (Reading.source library (Reading.depthBound library) text)
      { v with } with
  | .error e r => (.error e, r.toVocabulary)
  | .ok _ r =>
    let line := (r.tokens.back?.map Token.line).getD 1
    (.ok (r.tokens.toList ++ List.replicate endPadding (Token.endOfInput line)), r.toVocabulary)

end AwkToPython
