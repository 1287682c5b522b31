import AwkToPython.CommandLine.Run

/-!
# The command

The outer layer gathers the files that a command line can reach, runs it, and
writes what the result says. It starts no process: of all interpreters only the
standard commands can be reached, and programs are otherwise written out.
-/
namespace AwkToPython.Main

open CommandLine

def variableNames : List String :=
  ["AWKPY_PYTHON", "AWKPY_RUNTIME_DIR", "AWKPATH", "PYTHONPATH"]

def environment : IO Environment :=
  variableNames.filterMapM fun name => return (← IO.getEnv name).map fun value => (name, value)

def node? (path : String) : IO (Option Node) := do
  let place := (← IO.currentDir) / path
  if ← place.isDir then return some .directory
  else if ← place.pathExists then
    return some (.file { content := .ofBytes (← IO.FS.readBinFile place) })
  else return none

def pathsTo (path : String) : List String :=
  let steps := Path.steps path
  (List.range steps.length).map fun n => Text.join "/" (steps.take (n + 1))

def includedNames : List Lexeme → List String
  | .word text _ _ :: rest =>
    match rest with
    | .word name _ _ :: _ =>
      if text = Directive.includeFile.word then Literal.value name :: includedNames rest
      else includedNames rest
    | _ => includedNames rest
  | _ :: rest => includedNames rest
  | [] => []

def namesIn : Node → List String
  | .file { content := .text text, .. } => includedNames (Lexeme.scan text)
  | _ => []

/-- Add what a path leads to; the result also has the names included there. -/
def load (tree : FileTree) (path : String) : IO (FileTree × List String) := do
  let location := FileTree.place tree.home path
  if (tree.nodes.lookup location).isSome then return (tree, [])
  match ← node? path with
  | none => return (tree, [])
  | some node => return ({ tree with nodes := (location, node) :: tree.nodes }, namesIn node)

/-- Add what names lead to, directly or through the search path. -/
partial def gather (searchPath : List String) (tree : FileTree) : List String → IO FileTree
  | [] => return tree
  | name :: names => do
    let paths := (name :: searchPath.map (Path.join · name)).flatMap pathsTo
    let mut tree := tree
    let mut waiting := names
    for path in paths.filter fun path => (Path.fault? path).isNone do
      let (grown, found) ← load tree path
      tree := grown
      waiting := found ++ waiting
    gather searchPath tree waiting

/-- The names in a request that files may be read from or written to. -/
def namesOf (r : Request) : List String :=
  let texts := r.sources.flatMap fun
    | .program text => includedNames (Lexeme.scan text)
    | .file path | .included path => [path]
  texts ++ r.output.toList ++ r.arguments

def executableRight : IO.FileRight :=
  { user := { read := true, write := true, execution := true }
    group := { read := true, execution := true }
    other := { read := true, execution := true } }

def save (before after : FileTree) : IO Unit := do
  for (location, node) in after.nodes do
    if before.nodes.lookup location ≠ some node then
      match node with
      | .file { content := .text text, .. } =>
        let path := "/" ++ Text.join "/" location
        IO.FS.writeFile path text
        IO.setAccessRights path executableRight
      | _ => pure ()

def command (arguments : List String) : IO UInt32 := do
  let values ← environment
  let settings := Settings.ofEnvironment values
  let home := FileTree.place [] (← IO.currentDir).toString
  let names := match Request.ofArguments arguments with
    | .ok request => namesOf request
    | .error _ => []
  let tree ← gather settings.searchPath { home } names
  let result := run (Host.standard tree) values arguments
  save tree result.tree
  IO.print result.stdout
  IO.eprint result.stderr
  return result.code.toUInt32

end AwkToPython.Main

def main (arguments : List String) : IO UInt32 := AwkToPython.Main.command arguments
