import AwkToPython.Session

/-!
# Programs

The lines of a session are put together into one Python program: headers,
imports, and a class with the functions, the initial values and a method for
each section that has lines.
-/
namespace AwkToPython

namespace Program

def version : String := "0.1.0"

def supportNames : List String :=
  ["AwkpyRuntimeVarOwner", "AwkpyRuntimeWrapper", "AwkNext", "AwkNextFile", "AwkExit",
   "AwkEmptyVar", "AwkEmptyVarInstance"]

def supportModule : String := "awkpy_runtime"

def className : String := "AwkPyTranslated"

/-- A line at a depth; an empty line stays empty. -/
def atDepth (depth : Nat) (line : String) : String :=
  if line = "" then "" else Listing.indentation depth ++ line

def titleLines (headers : List Header) : List String :=
  ["#! /usr/bin/env python3", s!"# Translated from AWK by awkpy {version}"] ++
    headers.map Header.text

def importLines (imports : List String) : List String :=
  ["import re", "import sys"] ++ imports.map ("import " ++ ·) ++
    ["from collections import defaultdict",
     s!"from {supportModule} import " ++ Text.join ", " supportNames]

/-- The assignment that gives a symbol its initial value. Built-in variables have
theirs from the support module. -/
def initialiser? (s : Symbol) : Option String :=
  let initialised := match s.kind with
    | .var use => !use.builtIn
    | .regex => true
    | _ => false
  if initialised && s.initial ≠ "" then some s!"{s.python} = {s.initial}" else none

def constructorLines (hasMainLoop : Bool) (table : Table) : List String :=
  [atDepth 1 "def __init__(self):", atDepth 2 "super().__init__()"] ++
    (if hasMainLoop then [atDepth 2 "self._has_mainloop = True"] else []) ++
    (table.entries.toList.filterMap initialiser?).map (atDepth 2)

/-- The body of a section's method. In the section that runs for each record,
`next` ends the method. -/
def bodyLines (part : Section) (body : List String) : List String :=
  if part = .record then
    [atDepth 2 "try:"] ++ body.map (atDepth 3) ++
      [atDepth 2 "except AwkNext:", atDepth 3 "pass"]
  else body.map (atDepth 2)

def sectionLines (listing : Listing) (part : Section) : List String :=
  let body := (listing.linesOf (.part part)).toList
  if body.isEmpty then []
  else ["", atDepth 1 s!"def {part.method}(self):"] ++ bodyLines part body

def closingLines : List String :=
  ["", "", s!"runtime = {className}()", "sys.exit(runtime._run(sys.argv))"]

def lines (s : Session) : List String :=
  titleLines s.headers ++ importLines s.imports ++
    ["", "", s!"class {className}(AwkpyRuntimeWrapper):"] ++
    s.listing.functions.toList.map (atDepth 1) ++
    constructorLines s.hasMainLoop s.table ++
    Section.all.flatMap (sectionLines s.listing) ++ closingLines

def text (s : Session) : String := Text.join "\n" (lines s) ++ "\n"

end Program

namespace Session

def missingFunction? (s : Session) : Option (SymbolId × Nat) :=
  s.calls.find? fun call => !(s.table.symbol call.1).isFunction

def finish (s : Session) : Except Error String :=
  match s.missingFunction? with
  | some (id, line) => .error (.conflict (.functionMissing (s.table.symbol id).key line))
  | none => .ok (Program.text s)

end Session

end AwkToPython
