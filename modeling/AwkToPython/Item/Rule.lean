import AwkToPython.Statement.Compound

/-!
# Rules

A rule is a pattern, or a range from one pattern to another, with an action.
-/
namespace AwkToPython.Item

open Compile

/-- Compile into a bucket and come back, whatever happens there. -/
def inBucket (bucket : Bucket) (x : Compile Unit) : Compile Unit := do
  let saved := (← get).listing.toPosition
  write (·.enter bucket)
  restoring x fun s => { s with listing := s.listing.leave saved }

/-- The test that opens a range's action. A flag says whether the range is active;
the end is looked for only while it is. -/
def rangeHead (start : Fragment) : Compile Unit := do
  advance
  skipNewlines
  let before ← mark
  let last ← condition
  let lines ← takeSince before
  let flag ← pythonOf (← intern Table.rangeFlag)
  emit s!"if {flag} or ({start.text}):"
  indent
  appendLines lines 1
  emit s!"{flag} = not ({last.text})"

def patternHead (pattern : Fragment) : Compile Unit := do
  emit s!"if {pattern.text}:"
  indent

/-- The action of a pattern; a pattern alone prints the record. -/
def ruleAction : Compile Unit := do
  if ← atBracket .openBrace then action
  else if ← atStatementEnd then emit Statement.printRecord
  else unexpected .patternEnd

def rule : Compile Unit := do
  let pattern ← condition
  if ← atKind .comma then rangeHead pattern else patternHead pattern
  restoring ruleAction fun s => { s with listing := s.listing.dedent }

end AwkToPython.Item
