/-!
# Errors

Each way a text can be refused is a constructor that carries what the report
mentions. The wording stands in the `message` functions and nowhere else.
-/
namespace AwkToPython

/-- Where a token stands: line and byte column, both from one. -/
structure Place where
  line : Nat
  column : Nat
deriving DecidableEq, Repr, Inhabited

def Place.text (p : Place) : String := s!"line {p.line}, column {p.column}"

inductive FileFault where
  | missing
  | notDirectory
  | isDirectory
  | nameTooLong
  | nulInPath
  | notText
  | separatorInPath
deriving DecidableEq, Repr

def FileFault.message : FileFault → String
  | .missing => "No such file or directory (os error 2)"
  | .notDirectory => "Not a directory (os error 20)"
  | .isDirectory => "Is a directory (os error 21)"
  | .nameTooLong => "File name too long (os error 36)"
  | .nulInPath => "file name contained an unexpected NUL byte"
  | .notText => "stream did not contain valid UTF-8"
  | .separatorInPath => "path segment contains separator `:`"

inductive Directive where
  | enterNamespace
  | includeFile
deriving DecidableEq, Repr

def Directive.word : Directive → String
  | .enterNamespace => "@namespace"
  | .includeFile => "@include"

inductive LexicalFault where
  | unrecognised (text : String)
  | unknownWord (text : String) (line : Nat)
  | openString (text : String)
  | openRegex (text : String)
  | directiveAlone (directive : Directive)
  | unquotedName (found : String)
deriving DecidableEq, Repr

def LexicalFault.message : LexicalFault → String
  | .unrecognised text => s!"unrecognised token {text}"
  | .unknownWord text line => s!"unrecognised token {text} near line {line}"
  | .openString text => s!"unterminated string {text}"
  | .openRegex text => s!"unterminated regex {text}"
  | .directiveAlone directive => directive.word ++ " must be followed by a string"
  | .unquotedName found => s!"expected a quoted name after directive, found {found}"

/-- What a construct needs at the place where something else stands. -/
inductive Expectation where
  | mark (text : String)
  | arguments (wanted name : String)
  | condition
  | arrayName
  | operator
  | operand
  | assignable
  | incrementable
  | nextArgument
  | patternEnd
  | functionName
  | parameterName
  | statement
  | statementEnd
  | printEnd
deriving DecidableEq, Repr

def Expectation.message : Expectation → String
  | .mark text => s!"\"{text}\""
  | .arguments wanted name => s!"{wanted} for {name}"
  | .condition => "a condition, not an assignment"
  | .arrayName => "an array name"
  | .operator => "an operator"
  | .operand => "an operand"
  | .assignable => "an assignable left-hand side"
  | .incrementable => "a variable, array element or field"
  | .nextArgument => "\",\" or \")\""
  | .patternEnd => "\"\x7b\" or the end of the pattern"
  | .functionName => "a function name"
  | .parameterName => "a parameter name"
  | .statement => "a statement (functions are defined at top level)"
  | .statementEnd => "the end of the statement"
  | .printEnd => "the end of print"

/-- Uses of names and files that contradict each other. -/
inductive Conflict where
  | arrayAndScalar (name : String) (line : Nat)
  | sourceIncluded (path : String)
  | sourceRepeated (path : String)
  | includeIsSource (path : String)
  | notPresettable (name : String)
  | functionMissing (name : String) (line : Nat)
  | functionIsVariable (name : String) (line : Nat)
  | functionRepeated (name : String) (line : Nat)
deriving DecidableEq, Repr

def Conflict.message : Conflict → String
  | .arrayAndScalar name line =>
    s!"{name} is used as both an array and a scalar value (line {line})"
  | .sourceIncluded path => s!"{path} is already included, it cannot also be a source file"
  | .sourceRepeated path => s!"{path} is given as a source file more than once"
  | .includeIsSource path => s!"{path} is a source file, it cannot also be included"
  | .notPresettable name => s!"{name} cannot be preset with -v"
  | .functionMissing name line => s!"function {name} called at line {line} is never defined"
  | .functionIsVariable name line =>
    s!"function name {name} is already used as a variable (line {line})"
  | .functionRepeated name line => s!"function {name} is defined twice (line {line})"

inductive UsageFault where
  | invalidAssignment (text : String)
  | invalidName (name : String)
  | missingValue (flag : String)
  | unknownSourceOption (text : String)
  | unknownOption (text : String)
  | noProgram
deriving DecidableEq, Repr

def UsageFault.message : UsageFault → String
  | .invalidAssignment text => s!"invalid variable assignment: {text}"
  | .invalidName name => s!"invalid variable name: {name}"
  | .missingValue flag => s!"option {flag} requires an argument"
  | .unknownSourceOption text => s!"unknown compiler option: {text}"
  | .unknownOption text => s!"unknown option: {text}"
  | .noProgram => "no program provided"

inductive Error where
  | lexical (fault : LexicalFault) (place : Place)
  | unexpected (expected : Expectation) (found window : String) (place : Place)
  | conflict (cause : Conflict)
  | unreadable (path : String) (fault : FileFault)
  | usage (fault : UsageFault)
  | host (fault : FileFault)
  | exhausted
deriving DecidableEq, Repr

/-- The whole report. `exhausted` stands for a step budget that was too small;
the budgets are computed from the input so that it does not arise. -/
def Error.message : Error → String
  | .lexical fault place => "lexer error at " ++ place.text ++ ": " ++ fault.message
  | .unexpected expected found window place =>
    "syntax error at " ++ place.text ++ s!": found \"{found}\" expected " ++
      expected.message ++ s!" near {window}"
  | .conflict cause => "semantic error: " ++ cause.message
  | .unreadable path fault => s!"cannot read {path}: " ++ fault.message
  | .usage fault => fault.message
  | .host fault => "I/O error: " ++ fault.message
  | .exhausted => "step budget exhausted"

end AwkToPython
