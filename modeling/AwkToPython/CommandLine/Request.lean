import AwkToPython.CommandLine.Contribution

/-!
# Requests

The arguments of a command line, sorted by who consumes them: the compiler, or
the generated program.
-/
namespace AwkToPython.CommandLine

inductive Mode where
  | help
  | version
  | run
deriving DecidableEq, Repr

inductive Setting where
  | contribution (contribution : Contribution)
  | separator (text : String)
  | output (path : String)
deriving DecidableEq, Repr

def Setting.options : List (ValueOption Setting) :=
  Contribution.options.map (ValueOption.map .contribution) ++
    [⟨"-F", .separator⟩, ⟨"-o", .output⟩]

structure Request where
  sources : List Source := []
  presets : List String := []
  arguments : List String := []
  /-- The file to write the program to, instead of running it. -/
  output : Option String := none
  debug : Bool := false
  mode : Mode := .run
deriving DecidableEq, Repr

namespace Request

def sourceArguments (r : Request) : List String := r.sources.flatMap Contribution.ofSource

/-- Whether a program is given. Words and values of options are not told apart, so
a value that spells the word counts as well. -/
def hasProgram (r : Request) : Bool :=
  r.sourceArguments.any fun argument => argument = "-e" || argument = "-f"

def addSource (r : Request) (source : Source) : Request :=
  { r with sources := r.sources ++ [source] }

def addPreset (r : Request) (assignment : String) : Request :=
  { r with presets := r.presets ++ [assignment] }

def apply (r : Request) : Setting → Except Error Request
  | .contribution (.source source) => .ok (r.addSource source)
  | .contribution (.preset assignment) =>
    if assignment.toList.contains '=' then .ok (r.addPreset assignment)
    else .error (.usage (.invalidAssignment assignment))
  | .separator text => .ok (r.addPreset ("FS=" ++ text))
  | .output path => .ok { r with output := some path }

/-- An argument that is no option: the first gives the program unless there is one
already, and all others belong to the generated program. -/
def operand (r : Request) (argument : String) (rest : List String) : Request :=
  if r.hasProgram then { r with arguments := argument :: rest }
  else { r.addSource (.program argument) with arguments := rest }

def isUnknownOption (argument : String) : Bool :=
  Text.startsWith "-" argument && argument ≠ "-"

/-- Sort arguments from left to right. `waiting` is an option whose value is the
next argument. -/
def sort (r : Request) (waiting : Option (ValueOption Setting)) :
    List String → Except Error Request
  | [] =>
    match waiting with
    | some option => .error (.usage (.missingValue option.word))
    | none => .ok r
  | argument :: rest =>
    match waiting with
    | some option => do sort (← r.apply (option.make argument)) none rest
    | none =>
      if argument = "--help" || argument = "-h" then .ok { r with mode := .help }
      else if argument = "--version" then .ok { r with mode := .version }
      else if argument = "--" then .ok { r with arguments := rest }
      else if argument = "-Wr" then .ok { r with arguments := argument :: rest }
      else if argument = "-d" then sort { r with debug := true } none rest
      else
        match ValueOption.find? Setting.options argument with
        | some (option, attached) =>
          if attached = "" then sort r (some option) rest
          else do sort (← r.apply (option.make attached)) none rest
        | none =>
          if isUnknownOption argument then .error (.usage (.unknownOption argument))
          else .ok (r.operand argument rest)

/-- The request of a command line; to run there has to be a program. -/
def ofArguments (args : List String) : Except Error Request := do
  let r ← sort {} none args
  if r.mode = .run && !r.hasProgram then .error (.usage .noProgram) else .ok r

end Request

end AwkToPython.CommandLine
