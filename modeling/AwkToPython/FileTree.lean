import AwkToPython.Error
import AwkToPython.Text.Lines

/-!
# File trees

The files of a machine that matter, as a value. A path is walked step by step as
the operating system does it: every step but the last has to be a directory, and
a slash at the end asks for a directory. Steps and paths have a greatest length,
counted in bytes.
-/
namespace AwkToPython

inductive Content where
  | text (text : String)
  /-- Bytes that are no UTF-8 text. -/
  | binary (bytes : List UInt8)
deriving DecidableEq, Repr

def Content.ofBytes (bytes : ByteArray) : Content :=
  match String.fromUTF8? bytes with
  | some s => .text s
  | none => .binary bytes.toList

structure File where
  content : Content
  executable : Bool := false
deriving DecidableEq, Repr

/-- The permission bits of a file, in octal. -/
def File.mode (f : File) : String := if f.executable then "755" else "644"

inductive Node where
  | file (file : File)
  | directory
deriving DecidableEq, Repr

abbrev Location := List String

namespace Path

def isAbsolute (path : String) : Bool := Text.startsWith "/" path

/-- The steps of a path; an empty one stands before a leading slash, after a
trailing one and between two adjacent ones. -/
def steps (path : String) : List String := (Text.pieces '/' path.toList).map String.ofList

def isIdle (step : String) : Bool := step = "" || step = "."

def isOverlong (step : String) : Bool := 255 < Text.byteLength step.toList

/-- What keeps a path from being opened, wherever it leads to. -/
def fault? (path : String) : Option FileFault :=
  if Text.hasNul path then some .nulInPath
  else if path = "" then some .missing
  else if 4095 < Text.byteLength path.toList then some .nameTooLong
  else none

/-- The form in which two paths are compared that lead nowhere: idle steps do
not count, except a dot in front. -/
def components (path : String) : List String :=
  let lead := if isAbsolute path then ["/"]
    else if (steps path).head? = some "." then ["."] else []
  lead ++ (steps path).filter fun step => !isIdle step

def join (directory name : String) : String :=
  if isAbsolute name || directory = "" then name
  else if directory.toList.getLast? = some '/' then directory ++ name
  else directory ++ "/" ++ name

end Path

/-- Files and directories by their locations. A directory that holds something
need not be listed. -/
structure FileTree where
  home : Location := []
  nodes : List (Location × Node) := []
deriving DecidableEq, Repr

namespace FileTree

/-- One step of a walk. The root is its own parent. -/
def move (here : Location) (step : String) : Location :=
  if Path.isIdle step then here else if step = ".." then here.dropLast else here ++ [step]

/-- The location that a path has if all its steps lead somewhere. -/
def place (home : Location) (path : String) : Location :=
  (Path.steps path).foldl move (if Path.isAbsolute path then [] else home)

def ofList (home : Location) (nodes : List (String × Node)) : FileTree :=
  { home, nodes := nodes.map fun entry => (place home entry.1, entry.2) }

def node? (tree : FileTree) (location : Location) : Option Node :=
  match tree.nodes.lookup location with
  | some node => some node
  | none =>
    if location.isPrefixOf tree.home || tree.nodes.any (fun entry => location.isPrefixOf entry.1)
    then some .directory else none

/-- Follow steps from a location, as far as they lead somewhere. -/
def walk (tree : FileTree) : Location → List String → Except FileFault Location
  | here, [] => .ok here
  | here, step :: steps =>
    if tree.node? here ≠ some .directory then .error .notDirectory
    else if Path.isOverlong step then .error .nameTooLong
    else if (tree.node? (move here step)).isNone then .error .missing
    else tree.walk (move here step) steps

def start (tree : FileTree) (path : String) : Location :=
  if Path.isAbsolute path then [] else tree.home

/-- Where a path leads to. Its own length does not matter, since a long path may
lead to a near place. -/
def resolve (tree : FileTree) (path : String) : Except FileFault Location :=
  if path = "" then .error .missing else tree.walk (tree.start path) (Path.steps path)

def reach (tree : FileTree) (path : String) : Except FileFault Location :=
  match Path.fault? path with
  | some fault => .error fault
  | none => tree.resolve path

def contains (tree : FileTree) (path : String) : Bool :=
  match tree.reach path with
  | .ok _ => true
  | .error _ => false

def file? (tree : FileTree) (path : String) : Except FileFault File :=
  match tree.reach path with
  | .error fault => .error fault
  | .ok location =>
    match tree.node? location with
    | some (.file file) => .ok file
    | _ => .error .isDirectory

def read (tree : FileTree) (path : String) : Except FileFault String :=
  match tree.file? path with
  | .error fault => .error fault
  | .ok file =>
    match file.content with
    | .text text => .ok text
    | .binary _ => .error .notText

def put (tree : FileTree) (location : Location) (file : File) : FileTree :=
  { tree with
    nodes := (location, .file file) :: tree.nodes.filter fun entry => entry.1 ≠ location }

/-- Create an executable file or replace one. The last step names it, so a path
that ends with a slash names a directory. -/
def write (tree : FileTree) (path text : String) : Except FileFault FileTree :=
  let steps := Path.steps path
  let names := (steps.reverse.dropWhile (· = "")).reverse
  match Path.fault? path, names.getLast? with
  | some fault, _ => .error fault
  | none, none => .error .isDirectory
  | none, some name =>
    match tree.walk (tree.start path) names.dropLast with
    | .error fault => .error fault
    | .ok parent =>
      if tree.node? parent ≠ some .directory then .error .notDirectory
      else if steps.getLast? = some "" || tree.node? (move parent name) = some .directory then
        .error .isDirectory
      else if Path.isOverlong name then .error .nameTooLong
      else .ok (tree.put (move parent name) { content := .text text, executable := true })

end FileTree

end AwkToPython
