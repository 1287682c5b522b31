import AwkToPython.Expression.Goal

/-!
# Assignments and increments

A field cannot be assigned to in Python: the runtime's setters rebuild the
record. Updates that need the old value of a field are written as lines of their
own before the current one.
-/
namespace AwkToPython.Expression

open Compile

/-- A call that sets a field, or the whole record for the index zero. -/
def setField (index value : String) : String :=
  if index = "0" then s!"self._set_dollar_fields({value})"
  else s!"self._set_dollar_field({index}, {value})"

/-- A text that Python may evaluate twice. -/
def isSimple (text : String) : Bool :=
  text.toList.all fun c => c.isAlphanum || c = '_' || c = '.'

/-- Write lines that update a field and keep its new value, or its old one, in a
temporary. -/
def updateField (index : String) (update : String → String) (keepOld : Bool) :
    Compile Fragment := do
  let n ← nextTemporary
  let index ← if isSimple index then pure index else do
    emit s!"field_index_{n} = {index}"
    pure s!"field_index_{n}"
  let temporary := s!"field_{n}"
  let current := s!"self._FLDS[{index}]"
  let value := if keepOld then current else update current
  let stored := if keepOld then update temporary else temporary
  emit s!"{temporary} = {value}"
  emit (setField index stored)
  return { Fragment.atom temporary with hoisted := true }

/-- An assignment with the operator `op`, whose right side starts after it. -/
def assignment (parts : Parts) (left : Fragment) (op : String) (context : Context) :
    Compile Fragment := do
  match left.target with
  | none => unexpected .assignable
  | some target =>
    advance
    skipNewlines
    let right ← parts (.operation context anyLevel)
    useAsScalar right
    match target with
    | .var id =>
      markScalar id (← line)
      return { Fragment.operator (left.text ++ op ++ right.text) Symbol.assignmentLevel with
        assigns := true }
    | .element base index =>
      return { Fragment.operator (s!"{base}[{index}]" ++ op ++ right.text)
        Symbol.assignmentLevel with assigns := true }
    | .field index =>
      if op = "=" then
        return { Fragment.operator (setField index right.text) Symbol.assignmentLevel with
          assigns := true }
      else
        let operator := String.ofList (op.toList.reverse.dropWhile (· = '=')).reverse
        let f ← updateField index (fun value => value ++ operator ++ right.wrapped 0) false
        return { f with assigns := true }

def incrementName (increment before : Bool) : String :=
  (if before then "pre" else "post") ++ (if increment then "_inc" else "_dec")

/-- An increment or a decrement of an operand, before its value is taken or
after. -/
def step (operand : Fragment) (increment before : Bool) : Compile Fragment := do
  let name := incrementName increment before
  match operand.target with
  | none => unexpected .incrementable
  | some (.var id) =>
    markScalar id (← line)
    let (owner, attr) := ownerAndName (← pythonOf id)
    return .atom s!"{owner}._{name}_var('{attr}')"
  | some (.element base index) =>
    let owner := (ownerAndName base).1
    return .atom s!"{owner}._{name}_arr({base}, {index})"
  | some (.field index) =>
    updateField index (· ++ if increment then "+1" else "-1") (!before)

end AwkToPython.Expression
