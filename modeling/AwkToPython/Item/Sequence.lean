import AwkToPython.Item.Definition

/-!
# The items of a source text

Sections, rules and functions, one after the other.
-/
namespace AwkToPython

namespace Item

open Compile

/-- A section with its block, which begins on the same line. All but the first
section need the input to be read. -/
def part (part : Section) : Compile Unit := do
  advance
  if !(← atBracket .openBrace) then unexpected (.mark "\x7b")
  if part ≠ .start then needMainLoop
  inBucket (.part part) action

def item : Compile Unit := do
  match ← kind with
  | .heading heading => part heading
  | .bracket .openBrace =>
    needMainLoop
    inBucket (.part .record) action
  | .keyword .function => definition
  | _ =>
    needMainLoop
    inBucket (.part .record) rule

def items : Nat → Compile Unit
  | 0 => throw .exhausted
  | fuel + 1 => do
    skipTerminators
    if !(← symbol).isEnd then
      item
      items fuel

end Item

namespace Compile

/-- All items of the tokens at the cursor. -/
def items : Compile Unit := do Item.items ((← remaining) + 1)

end Compile

end AwkToPython
