import AwkToPython.Expression.Goal
import AwkToPython.Literal.Replacement

/-!
# Calls of built-in functions

Most calls are written as Python calls. Some become Python idioms, and `split`,
`sub` and `gsub` write their work before the current line.
-/
namespace AwkToPython.Expression

open Compile

/-- A regex on the right of a match operator or as an argument: the Python text of
a compiled pattern. -/
def regexOperand (parts : Parts) (context : Context) (limit : Nat) : Compile String := do
  let token ← current
  if ← atKind .regex then
    advance
    pythonOf token.symbol
  else
    let operand ← parts (.operation { context with statement := false } limit)
    useAsScalar operand
    match operand.literal with
    | some id =>
      if ((← get).table.symbol id).kind = .string then
        pythonOf (← intern (·.regexForString id))
      else return s!"self._dynamic_regex({operand.text})"
    | none => return s!"self._dynamic_regex({operand.text})"

def length (parts : Parts) : Compile Fragment := do
  advance
  if !(← atBracket .openParen) then return .atom "len(str(self._FLDS[0]))"
  match ← arguments parts { argument := true } with
  | [] => return .atom "len(str(self._FLDS[0]))"
  | [argument] =>
    let isArray ← match argument.target with
      | some (.var id) => pure ((← get).table.isArray id)
      | _ => pure false
    let subject := if isArray then argument.text else argument.stringified
    return .atom s!"len({subject})"
  | _ => unexpected (.arguments "at most one argument" "length")

/-- The slice of a string that begins at the character `start`, counted from one,
and has `count` characters, or all that follow. Neither bound is negative. -/
def slice (subject : String) (start : Int) (count : Option Int) : String :=
  let first := max start 1 - 1
  match count with
  | none => s!"{subject}[{first}:]"
  | some count =>
    let last := max (Text.saturate64 (Text.saturate64 (start - 1) + count)) first
    s!"{subject}[{first}:{last}]"

/-- A slice if the bounds are literal, else a call of the runtime. -/
def substr : List Fragment → Compile Fragment
  | [subject, start] =>
    match Text.signed64? start.text with
    | some first => return .string (slice subject.stringified first none)
    | none => return .string ("self._substr(" ++ subject.stringified ++ s!", int({start.text}))")
  | [subject, start, count] =>
    match Text.signed64? start.text, Text.signed64? count.text with
    | some first, some many => return .string (slice subject.stringified first (some many))
    | _, _ =>
      return .string ("self._substr(" ++ subject.stringified ++
        s!", int({start.text}), int({count.text}))")
  | _ => unexpected (.arguments "two or three arguments" "substr")

def matchCall (parts : Parts) : Compile Fragment := do
  advance
  expectBracket .openParen "("
  let subject ← whole parts {}
  expectComma
  let regex ← regexOperand parts {} anyLevel
  expectBracket .closeParen ")"
  return .atom ("self._match(" ++ subject.stringified ++ s!", {regex})")

/-- The pieces of a string around a separator. A string literal that stands alone
is a plain separator if it is one character, with a blank for runs of white
space, and a regex otherwise. -/
def splitBy (parts : Parts) (subject : String) : Compile String := do
  let token ← current
  let s ← symbol
  let following ← symbolOf (← peek 1)
  if s.kind = .regex then
    advance
    return s!"{s.python}.split({subject})"
  else if s.kind = .string && !following.startsOperand then
    let value := Literal.value s.key
    advance
    if value = " " then return s!"{subject}.split()"
    else if value.length = 1 then
      return s!"{subject}.split(" ++ Literal.python value ++ ")"
    else
      let regex ← pythonOf (← intern (·.regexForString token.symbol))
      return s!"{regex}.split({subject})"
  else
    let separator := (← whole parts {}).text
    return s!"{subject}.split() if {separator} == \" \" else " ++
      s!"self._dynamic_regex({separator}).split({subject})"

/-- The call `split(s, array, separator)`. It is an assignment, so that only a
whole statement can hold it; elsewhere it is written before the current line and
the number of elements takes its place. -/
def split (parts : Parts) (context : Context) : Compile Fragment := do
  advance
  expectBracket .openParen "("
  let subject := (← whole parts {}).stringified
  expectComma
  let token ← current
  if !(← symbol).isVariable then unexpected .arrayName
  markArray token.symbol token.line
  let array ← pythonOf token.symbol
  advance
  let pieces ← if ← atKind .comma then do
      advance
      skipNewlines
      splitBy parts subject
    else pure s!"{subject}.split(None if self.FS == \" \" else self.FS)"
  expectBracket .closeParen ")"
  let assignment := s!"{array} = self._to_array({pieces})"
  if context.statement && (← atStatementEnd) then return .atom assignment
  emit assignment
  return { Fragment.atom s!"len({array})" with hoisted := true }

/-- The replacement of a substitution: a template if it is a string literal. -/
def replacement (f : Fragment) : Compile String := do
  match f.literal with
  | some id =>
    let s := (← get).table.symbol id
    if s.kind = .string then return Literal.python (Literal.template (Literal.value s.key))
    else return s!"self._dynamic_replacement({f.text})"
  | none => return s!"self._dynamic_replacement({f.text})"

/-- The lines of a substitution. `call` gives the substitution in a subject, and
`n` numbers the temporaries. -/
def writeSubstitution (n : Nat) (call : String → String) : Option Fragment → Compile Unit
  | none => record
  | some target =>
    match target.target with
    | some (.field index) =>
      if index = "0" then record
      else do
        emit (s!"target_{n}, num_changed_{n} = " ++ call s!"str(self._FLDS[{index}])")
        emit s!"self._set_dollar_field({index}, target_{n})"
    | some (.var _) =>
      emit (s!"{target.text}, num_changed_{n} = " ++ call target.stringified)
    | some (.element base index) =>
      emit (s!"{base}[{index}], num_changed_{n} = " ++ call s!"str({base}[{index}])")
    | none => emit (s!"_, num_changed_{n} = " ++ call target.stringified)
where
  record : Compile Unit := do
    emit (s!"target_{n}, num_changed_{n} = " ++ call "str(self._FLDS[0])")
    emit s!"self._set_dollar_fields(target_{n})"

/-- The calls `sub` and `gsub`; the number of replacements takes their place. -/
def substitute (parts : Parts) (everywhere : Bool) : Compile Fragment := do
  advance
  expectBracket .openParen "("
  let regex ← regexOperand parts {} anyLevel
  expectComma
  let new ← replacement (← whole parts {})
  let target ← if ← atKind .comma then do
      advance
      skipNewlines
      some <$> whole parts {}
    else pure none
  expectBracket .closeParen ")"
  let n ← nextTemporary
  let count := if everywhere then 0 else 1
  writeSubstitution n (fun subject => s!"{regex}.subn({new}, {subject}, {count})") target
  return { Fragment.atom s!"num_changed_{n}" with hoisted := true }

/-- A call of a function that the program defines, maybe further down. -/
def userCall (parts : Parts) (token : Token) : Compile Fragment := do
  let s ← symbolOf token
  if s.isVariable then
    modify fun session => { session with calls := session.calls ++ [(token.symbol, token.line)] }
  advance
  let args ← arguments parts { argument := true }
  return .atom (s.python ++ Fragment.parenthesised (Text.join ", " (args.map (·.text))))

/-- A call whose arguments stand between parentheses like any others. -/
def plainCall (parts : Parts) (s : Symbol) (strategy : Strategy) (context : Context) :
    Compile Fragment := do
  advance
  let keepMissing := context.keepMissing || strategy = .sprintf
  let args ← arguments parts { keepMissing }
  match strategy with
  | .method name =>
    match args with
    | [subject] => return .string s!"{subject.stringified}.{name}()"
    | _ => unexpected (.arguments "one argument" s.key)
  | .index =>
    match args with
    | [haystack, needle] =>
      return .atom s!"({haystack.stringified}.find({needle.stringified})+1)"
    | _ => unexpected (.arguments "two arguments" s.key)
  | .substr => substr args
  | .sprintf =>
    if args.isEmpty then unexpected (.arguments "a format" s.key)
    else return .string (← formatted args)
  | _ => return .atom (s.python ++ Fragment.parenthesised (Text.join ", " (args.map (·.text))))

def call (parts : Parts) (token : Token) (function : Function) (context : Context) :
    Compile Fragment := do
  function.library.forM requireLibrary
  match function.strategy with
  | .user => userCall parts token
  | .length => length parts
  | .split => split parts context
  | .substitute everywhere => substitute parts everywhere
  | .regexMatch => matchCall parts
  | strategy => plainCall parts (← symbolOf token) strategy context

end AwkToPython.Expression
