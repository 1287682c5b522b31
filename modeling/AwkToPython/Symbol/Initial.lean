import AwkToPython.Namespace
import AwkToPython.Symbol.Table

/-!
# The words every program starts with

The initial table holds the marks, operators, built-in variables, built-in
functions and keywords, in a fixed order.
-/
namespace AwkToPython.Symbol

/-- An entry and whether it can be looked up by its key. -/
structure Entry where
  symbol : Symbol
  keyed : Bool := true

def bracketEntry (key : String) (bracket : Bracket) (python : String) : Entry :=
  { symbol := { key, kind := .bracket bracket, python, awkLevel := 1, pythonLevel := 1 } }

def terminatorEntry (key : String) (consumed collapsed : Bool) : Entry :=
  { symbol := { key, kind := .terminator consumed collapsed, python := "" } }

def unaryEntry (key : String) (op : UnaryOp) (python : String) (awkLevel pythonLevel : Nat) :
    Entry :=
  { symbol := { key, kind := .unary op, python, awkLevel, pythonLevel } }

def binaryEntry (key python : String) (awkLevel pythonLevel : Nat) (op : BinaryOp) : Entry :=
  { symbol := { key, kind := .binary op, python, awkLevel, pythonLevel } }

/-- A sign has a unary and a binary entry, both without a key, and one that
refers to them. -/
def signEntries (key : String) (op : UnaryOp) (position : SymbolId) : List Entry :=
  [{ unaryEntry key op key 5 5 with keyed := false },
   { binaryEntry key key 7 7 .arithmetic with keyed := false },
   { symbol := { key, kind := .ambiguous position (position + 1), python := key } }]

def builtInEntry (key python : String) (isArray : Bool) : Entry :=
  { symbol := { key, kind := .var { builtIn := true, isArray, isScalar := !isArray }, python } }

def functionEntry (key python : String) (strategy : Strategy) : Entry :=
  { symbol := { key, kind := .function { strategy }, python } }

def libraryEntry (key library name : String) : Entry :=
  { symbol := { key, kind := .function { strategy := .call, library := some library },
                python := library ++ "." ++ name } }

def keywordEntry (key : String) (keyword : Keyword) (python : String) : Entry :=
  { symbol := { key, kind := .keyword keyword, python } }

def headingEntry (part : Section) : Entry :=
  { symbol := { key := part.method, kind := .heading part, python := part.method } }

def marks : List Entry :=
  [{ symbol := endOfInput, keyed := false },
   bracketEntry "\x7b" .openBrace ":",
   bracketEntry "(" .openParen "(",
   bracketEntry ")" .closeParen ")",
   bracketEntry "[" .openBracket "[",
   bracketEntry "]" .closeBracket "]",
   terminatorEntry "\x7d" false false,
   terminatorEntry ";" true false,
   terminatorEntry "\n" true true,
   { symbol := { key := ",", kind := .comma, python := "," } },
   { symbol := { key := "$", kind := .field none, python := "self._FLDS", awkLevel := 2,
                 pythonLevel := 2 } },
   { symbol := { key := "$0", kind := .field (some 0), python := "self._FLDS[0]" } }]

def unaryOperators : List Entry :=
  [unaryEntry "++" .increment "inc" 3 3,
   unaryEntry "--" .decrement "dec" 3 3,
   unaryEntry "!" .not "not" 5 14] ++
  signEntries "-" .minus 15 ++ signEntries "+" .plus 18

def binaryOperators : List Entry :=
  [binaryEntry "**" "**" 4 4 .arithmetic,
   binaryEntry "^" "**" 4 4 .arithmetic,
   binaryEntry "*" "*" 6 6 .arithmetic,
   binaryEntry "/" "/" 6 6 .arithmetic,
   binaryEntry "%" "%" 6 6 .arithmetic,
   binaryEntry "<" "<" 9 14 .comparison,
   binaryEntry "<=" "<=" 9 14 .comparison,
   binaryEntry "==" "==" 9 14 .comparison,
   binaryEntry "!=" "!=" 9 14 .comparison,
   binaryEntry ">" ">" 9 14 .comparison,
   binaryEntry ">=" ">=" 9 14 .comparison,
   binaryEntry "|" "|" 9 9 .pipe,
   binaryEntry ">>" ">>" 9 9 .append,
   binaryEntry "~" "~" 15 15 .regexMatch,
   binaryEntry "!~" "!~" 15 15 .regexMismatch,
   binaryEntry "in" " in " 16 16 .membership,
   binaryEntry "&&" " and " 17 17 .and,
   binaryEntry "||" " or " 18 18 .or,
   binaryEntry "?" "?" 19 19 .question,
   binaryEntry ":" ":" 19 19 .colon,
   binaryEntry "=" "=" 20 20 .assign,
   binaryEntry "+=" "+=" 20 20 .assign,
   binaryEntry "-=" "-=" 20 20 .assign,
   binaryEntry "*=" "*=" 20 20 .assign,
   binaryEntry "/=" "/=" 20 20 .assign,
   binaryEntry "%=" "%=" 20 20 .assign,
   binaryEntry "^=" "**=" 20 20 .assign,
   binaryEntry "**=" "**=" 20 20 .assign]

def builtInScalars : List String :=
  ["ARGC", "ARGIND", "CONVFMT", "FILENAME", "FNR", "FS", "NF", "NR", "OFMT", "OFS", "ORS",
   "RS", "RLENGTH", "RSTART"]

def builtInArrays : List String := ["ARGV", "ENVIRON"]

def providedScalars : List String :=
  ["wait_for_pipe_close", "support_RS", "blocksize", "local_environ"]

def builtInVariables : List Entry :=
  builtInScalars.map (fun name => builtInEntry name ("self." ++ name) false) ++
  builtInArrays.map (fun name => builtInEntry name ("self." ++ name) true) ++
  providedScalars.map (fun name =>
    builtInEntry (Namespace.provided.key name) (Namespace.provided.pythonLead ++ name) false)

def functions : List Entry :=
  [libraryEntry "atan2" "math" "atan2",
   functionEntry "close" "self._close_file" .call,
   libraryEntry "cos" "math" "cos",
   libraryEntry "exp" "math" "exp",
   functionEntry "fflush" "self.awkpy__fflush" .call,
   functionEntry "gsub" "gsub" (.substitute true),
   functionEntry "index" "find" .index,
   functionEntry "int" "int" .call,
   functionEntry "length" "len" .length,
   libraryEntry "log" "math" "log",
   functionEntry "match" "self._match" .regexMatch,
   libraryEntry "rand" "random" "random",
   libraryEntry "sin" "math" "sin",
   functionEntry "split" "self._to_array" .split,
   functionEntry "sprintf" "self.sprintf" .sprintf,
   libraryEntry "sqrt" "math" "sqrt",
   libraryEntry "srand" "random" "seed",
   functionEntry "sub" "sub" (.substitute false),
   functionEntry "substr" "self._substr" .substr,
   functionEntry "system" "self._system" .call,
   functionEntry "tolower" "lower" (.method "lower"),
   functionEntry "toupper" "upper" (.method "upper"),
   functionEntry "awkpy::to_string" "self.awkpy__to_string" .call]

def keywords : List Entry :=
  [keywordEntry "break" .breakLoop "break",
   keywordEntry "continue" .continueLoop "continue",
   keywordEntry "delete" .delete "del",
   keywordEntry "do" .doLoop "while",
   keywordEntry "exit" .exit "raise AwkExit",
   keywordEntry "for" .forLoop "for",
   keywordEntry "function" .function "def",
   keywordEntry "getline" .getline "getline",
   keywordEntry "if" .branch "if",
   keywordEntry "next" .next "raise AwkNext",
   keywordEntry "nextfile" .nextFile "raise AwkNextFile",
   keywordEntry "print" .print "print",
   keywordEntry "printf" .printf "print",
   keywordEntry "return" .returnValue "return",
   keywordEntry "while" .whileLoop "while",
   { symbol := { key := "else", kind := .elseWord, python := "else" } }]

def headings : List Entry :=
  [headingEntry .start, headingEntry .fileStart, headingEntry .fileEnd, headingEntry .finish]

def initialEntries : List Entry :=
  marks ++ unaryOperators ++ binaryOperators ++ builtInVariables ++ functions ++ keywords ++
    headings

end AwkToPython.Symbol

namespace AwkToPython.Table

def initial : Table :=
  { entries := (Symbol.initialEntries.map (·.symbol)).toArray
    index := ((Symbol.initialEntries.zipIdx.filter (·.1.keyed)).map
      fun entry => (entry.1.symbol.key, entry.2)).reverse }

def endOfInput : SymbolId := 0

def newline : SymbolId := 8

/-- The entries that the initial table does not hold at the same position. -/
def learnt (t : Table) : List (SymbolId × Symbol) :=
  (t.entries.toList.zipIdx.filter fun entry => initial.entries[entry.2]? ≠ some entry.1).map
    fun entry => (entry.2, entry.1)

example : initial.size = 112 := by decide

example : initial.find? "\n" = some newline := by decide

end AwkToPython.Table
