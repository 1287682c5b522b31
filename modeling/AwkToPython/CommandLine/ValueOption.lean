import AwkToPython.Text.Lines

/-!
# Options with values

The value of an option is attached to its word or is the next argument.
-/
namespace AwkToPython.CommandLine

structure ValueOption (α : Type) where
  word : String
  make : String → α

namespace ValueOption

variable {α β : Type}

def map (f : α → β) (option : ValueOption α) : ValueOption β :=
  { word := option.word, make := fun value => f (option.make value) }

/-- The option that an argument begins with, and what is attached to its word. -/
def find? (options : List (ValueOption α)) (argument : String) : Option (ValueOption α × String) :=
  options.findSome? fun option =>
    (Text.after? option.word argument).map fun attached => (option, attached)

end ValueOption

end AwkToPython.CommandLine
