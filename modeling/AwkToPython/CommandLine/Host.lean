import AwkToPython.CommandLine.Invocation
import AwkToPython.FileTree
import AwkToPython.Text.ShellWord

/-!
# Hosts

A host is what the command line sees of its machine: files and commands. The
standard commands below may stand in for the interpreter; `cat` shows a program
instead of running it.
-/
namespace AwkToPython.CommandLine

structure Outcome where
  code : Nat := 0
  stdout : String := ""
  stderr : String := ""
deriving DecidableEq, Repr

abbrev Command := FileTree → String → List String → Outcome

structure Host where
  tree : FileTree := {}
  command? : String → Option Command := fun _ => none

namespace Command

def succeeds : Command := fun _ _ _ => {}

def fails : Command := fun _ _ _ => { code := 1 }

/-- The reason that `cat` gives for a file it cannot show. -/
def reason : FileFault → String
  | .isDirectory => "Is a directory"
  | .notDirectory => "Not a directory"
  | .nameTooLong => "File name too long"
  | _ => "No such file or directory"

/-- Show one more file. A dash stands for the standard input, which is empty. -/
def showFile (tree : FileTree) (shown : Outcome) (path : String) : Outcome :=
  if path = "-" then shown
  else
    match tree.read path with
    | .ok text => { shown with stdout := shown.stdout ++ text }
    | .error fault =>
      let complaint := "cat: " ++ Text.shellWord path ++ ": " ++ reason fault ++ "\n"
      { shown with code := 1, stderr := shown.stderr ++ complaint }

def isOption (argument : String) : Bool := Text.startsWith "-" argument && argument ≠ "-"

/-- What `cat` says of an option. It knows the letter `u` alone, which changes
nothing. -/
def complaint? (option : String) : Option String :=
  if Text.startsWith "--" option then some ("unrecognized option '" ++ option ++ "'")
  else
    ((option.toList.drop 1).find? (· ≠ 'u')).map fun letter =>
      "invalid option -- '" ++ letter.toString ++ "'"

/-- Show the script and then the files that the arguments name. Two dashes end
the options. -/
def cat : Command := fun tree script arguments =>
  let mixed := arguments.takeWhile (· ≠ "--")
  let files := (arguments.drop mixed.length).drop 1
  match (mixed.filter isOption).findSome? complaint? with
  | some complaint =>
    { code := 1, stderr := "cat: " ++ complaint ++ "\nTry 'cat --help' for more information.\n" }
  | none => (mixed.filter (!isOption ·) ++ files).foldl (showFile tree) { stdout := script }

def standard? (name : String) : Option Command :=
  if name = "cat" then some cat
  else if name = "true" then some succeeds
  else if name = "false" then some fails
  else none

end Command

def Host.standard (tree : FileTree) : Host := { tree, command? := Command.standard? }

end AwkToPython.CommandLine
