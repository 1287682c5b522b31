import AwkToPython.Error
import AwkToPython.Name
import AwkToPython.Symbol.Basic
import AwkToPython.Literal.PythonString

/-!
# The symbol table

Entries are only added and never removed; a position once handed out stays
valid. Not every entry can be looked up by its key: comments, regexes and range
flags are reached by their position alone.
-/
namespace AwkToPython

def emptyValue : String := "AwkEmptyVarInstance"

def emptyArray : String := "defaultdict(AwkEmptyVar.instance)"

structure Table where
  entries : Array Symbol
  /-- Keys with the position of their entry, the latest first. -/
  index : List (String × SymbolId)
  /-- Strings used as regexes, with the position of the compiled one. -/
  stringRegexes : List (SymbolId × SymbolId) := []
  regexCount : Nat := 0
  rangeCount : Nat := 0
deriving DecidableEq, Repr

namespace Table

def size (t : Table) : Nat := t.entries.size

def symbol (t : Table) (id : SymbolId) : Symbol := t.entries.getD id Symbol.endOfInput

def find? (t : Table) (key : String) : Option SymbolId := t.index.lookup key

/-- Add an entry that has no key of its own. -/
def push (t : Table) (s : Symbol) : SymbolId × Table :=
  (t.size, { t with entries := t.entries.push s })

def insert (t : Table) (s : Symbol) : SymbolId × Table :=
  (t.size, { t with entries := t.entries.push s, index := (s.key, t.size) :: t.index })

def set (t : Table) (id : SymbolId) (s : Symbol) : Table :=
  { t with entries := t.entries.setIfInBounds id s }

def modify (t : Table) (id : SymbolId) (f : Symbol → Symbol) : Table :=
  t.set id (f (t.symbol id))

/-- Words that belong to no namespace: keywords and built-in functions. -/
def isReserved (t : Table) (word : String) : Bool :=
  match t.find? word with
  | none => false
  | some id =>
    match (t.symbol id).kind with
    | .keyword _ | .elseWord | .heading _ | .binary .membership => true
    | .function f => f.strategy ≠ .user
    | _ => false

/-- The entry of a variable, made if there is none yet. `lead` is what its
namespace puts before the Python name. -/
def internVariable (t : Table) (key lead name : String) : SymbolId × Table :=
  match t.find? key with
  | some id => (id, t)
  | none => t.insert { key, kind := .var {}, python := lead ++ Name.python name,
                       initial := emptyValue }

def comment (t : Table) (text : String) (ownLine : Bool) : SymbolId × Table :=
  t.push { key := text, kind := .comment ownLine, python := text }

def number (t : Table) (text python : String) : SymbolId × Table :=
  t.insert { key := text, kind := .number, python }

def string (t : Table) (text python : String) : SymbolId × Table :=
  t.insert { key := text, kind := .string, python }

def field (t : Table) (text : String) (index : Nat) : SymbolId × Table :=
  t.insert { key := text, kind := .field (some index), python := s!"self._FLDS[{index}]" }

def addRegex (t : Table) (key initial : String) : SymbolId × Table :=
  let (id, t) := t.push { key, kind := .regex, python := s!"self._re_{t.regexCount}", initial }
  (id, { t with regexCount := t.regexCount + 1 })

/-- The entry of a regex literal; every occurrence has its own. -/
def regex (t : Table) (body : String) : SymbolId × Table :=
  t.addRegex ("/" ++ body ++ "/") (Literal.compiledRegex body)

/-- The regex that a string literal stands for when it is used as one. -/
def regexForString (t : Table) (id : SymbolId) : SymbolId × Table :=
  match t.stringRegexes.lookup id with
  | some regex => (regex, t)
  | none =>
    let literal := (t.symbol id).python
    let (regex, t) := t.addRegex literal (Literal.compiledString literal)
    (regex, { t with stringRegexes := (id, regex) :: t.stringRegexes })

/-- The flag that says whether a range pattern is active. -/
def rangeFlag (t : Table) : SymbolId × Table :=
  let (id, t) := t.push
    { key := s!"<range {t.rangeCount}>", kind := .var { isScalar := true },
      python := s!"self._range_{t.rangeCount}", initial := "False" }
  (id, { t with rangeCount := t.rangeCount + 1 })

/-- Take note that a variable is an array. Other symbols are left alone. -/
def markArray (t : Table) (id : SymbolId) (line : Nat) : Except Error Table :=
  let s := t.symbol id
  match s.kind with
  | .var use =>
    if use.isScalar then .error (.conflict (.arrayAndScalar s.key line))
    else if use.isArray then .ok t
    else .ok (t.set id { s with kind := .var { use with isArray := true }, initial := emptyArray })
  | _ => .ok t

/-- Take note that a variable is a scalar. Other symbols are left alone. -/
def markScalar (t : Table) (id : SymbolId) (line : Nat) : Except Error Table :=
  let s := t.symbol id
  match s.kind with
  | .var use =>
    if use.isArray then .error (.conflict (.arrayAndScalar s.key line))
    else .ok (t.set id { s with kind := .var { use with isScalar := true } })
  | _ => .ok t

def isArray (t : Table) (id : SymbolId) : Bool :=
  ((t.symbol id).variableUse?.map (·.isArray)).getD false

end Table

end AwkToPython
