import AwkToPython.Item.Sequence

/-!
# Sources

A program is made from any number of sources. Each is read and compiled on its
own, with what the sources before it have left behind.
-/
namespace AwkToPython

inductive Source where
  | program (text : String)
  /-- A file that is given once. -/
  | file (path : String)
  /-- A file that is compiled once, however often it is named. -/
  | included (path : String)
deriving DecidableEq, Repr

namespace Compile

def segment (text : String) : Compile Unit := do
  let s ← get
  let (read, vocabulary) := s.toVocabulary.tokens s.options.library text
  modify fun s => { s with toVocabulary := vocabulary }
  let tokens ← liftExcept read
  if s.options.debug then addHeader (.tokens (tokens.map (·.text vocabulary.table)))
  modify fun s => { s with cursor := Cursor.ofTokens tokens }
  items

def setFiles (files : SourceFiles) : Compile Unit := modify fun s => { s with files }

def fileSegment (path : String) (header : Header) : Compile Unit := do
  match (← get).options.library.tree.read path with
  | .error fault => throw (.unreadable path fault)
  | .ok text =>
    addHeader header
    segment text

def addSource : Source → Compile Unit
  | .program text => do
    addHeader (.ofProgram text)
    segment text
  | .file name => do
    let s ← get
    let path := s.options.library.locate name
    setFiles (← liftExcept (s.files.addSource s.options.library.tree path))
    fileSegment path (.file path)
  | .included name => do
    let s ← get
    let path := s.options.library.locate name
    match ← liftExcept (s.files.addInclude s.options.library.tree path) with
    | none => pure ()
    | some files =>
      setFiles files
      fileSegment path (.included path)

end Compile

end AwkToPython
