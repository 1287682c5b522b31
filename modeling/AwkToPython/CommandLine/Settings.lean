import AwkToPython.Error
import AwkToPython.Text.Lines

/-!
# Settings

What the environment decides: the interpreter, where the support module lies,
and where source files are looked for.
-/
namespace AwkToPython.CommandLine

abbrev Environment := List (String × String)

structure Settings where
  interpreter : String := "python3"
  supportDirectory : Option String := none
  searchPath : List String := []
deriving DecidableEq, Repr

def pathSeparator : Char := ':'

def splitPath (path : String) : List String :=
  (Text.pieces pathSeparator path.toList).map String.ofList

/-- Directories as one search path; none of them may hold the separator. -/
def joinPath (directories : List String) : Except FileFault String :=
  if directories.any fun directory => directory.toList.contains pathSeparator then
    .error .separatorInPath
  else .ok (Text.join (String.ofList [pathSeparator]) directories)

def Environment.filled? (environment : Environment) (name : String) : Option String :=
  (environment.lookup name).filter (· ≠ "")

def Settings.ofEnvironment (environment : Environment) : Settings where
  interpreter := (Environment.filled? environment "AWKPY_PYTHON").getD "python3"
  supportDirectory := Environment.filled? environment "AWKPY_RUNTIME_DIR"
  searchPath := (((environment.lookup "AWKPATH").map splitPath).getD []).filter (· ≠ "")

end AwkToPython.CommandLine
