import AwkToPython.CommandLine.ValueOption
import AwkToPython.Preset
import AwkToPython.Source

/-!
# Contributions

What a command line adds to a program: sources and presets.
-/
namespace AwkToPython.CommandLine

inductive Contribution where
  | source (source : Source)
  | preset (assignment : String)
deriving DecidableEq, Repr

namespace Contribution

def options : List (ValueOption Contribution) :=
  [⟨"-e", fun text => .source (.program text)⟩, ⟨"-f", fun path => .source (.file path)⟩,
   ⟨"-i", fun path => .source (.included path)⟩, ⟨"-v", .preset⟩]

/-- Read contributions from left to right, up to the first fault. `waiting` is an
option whose value is the next argument. -/
def read (waiting : Option (ValueOption Contribution)) :
    List String → List Contribution × Option UsageFault
  | [] => ([], waiting.map fun option => .missingValue option.word)
  | argument :: rest =>
    match waiting with
    | some option => add (option.make argument) (read none rest)
    | none =>
      match ValueOption.find? options argument with
      | none => ([], some (.unknownSourceOption argument))
      | some (option, attached) =>
        if attached = "" then read (some option) rest
        else add (option.make attached) (read none rest)
where
  add (c : Contribution) (later : List Contribution × Option UsageFault) :
      List Contribution × Option UsageFault := (c :: later.1, later.2)

def ofSource : Source → List String
  | .program text => ["-e", text]
  | .file path => ["-f", path]
  | .included path => ["-i", path]

end Contribution

end AwkToPython.CommandLine

namespace AwkToPython.Compile

open CommandLine

def contribute : Contribution → Compile Unit
  | .source source => addSource source
  | .preset assignment => preset assignment

/-- Compile what arguments contribute. A fault is reported only after everything
before it is compiled. -/
def arguments (args : List String) : Compile Unit := do
  let (contributions, fault) := Contribution.read none args
  contributions.forM contribute
  fault.forM fun fault => throw (.usage fault)

end AwkToPython.Compile
