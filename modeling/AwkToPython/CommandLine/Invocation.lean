import AwkToPython.CommandLine.Settings

/-!
# Invocations

How a generated program is handed to the interpreter.
-/
namespace AwkToPython.CommandLine

structure Invocation where
  command : String
  arguments : List String
  /-- The variables that are set for the command alone. -/
  environment : Environment := []
deriving DecidableEq, Repr

/-- An argument as a command is given it. None can hold a NUL character, so a
fixed text stands for one that does. -/
def argument (text : String) : String :=
  if Text.hasNul text then "<string-with-nul>" else text

/-- The interpreter finds the support module first and then whatever its own
search path named before. -/
def Settings.invocation (settings : Settings) (environment : Environment) (script : String)
    (arguments : List String) : Except Error Invocation :=
  let plain : Invocation :=
    { command := settings.interpreter, arguments := (script :: arguments).map argument }
  match settings.supportDirectory with
  | none => .ok plain
  | some directory =>
    let others := ((environment.lookup "PYTHONPATH").map splitPath).getD []
    match joinPath (directory :: others) with
    | .error fault => .error (.host fault)
    | .ok path => .ok { plain with environment := [("PYTHONPATH", path)] }

end AwkToPython.CommandLine
