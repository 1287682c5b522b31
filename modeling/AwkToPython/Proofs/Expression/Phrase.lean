import AwkToPython.Proofs.Step
import AwkToPython.Proofs.Expression.Tree

/-!
# What a compiled expression went through

`Reads` says of every phrase of an expression what has been done when it was
compiled: which tokens were passed, which phrases inside it were compiled, what
was learnt and what fragment came of it. Each rule is one way through one
construct, so that what holds of all expressions is shown rule by rule, without
looking at the compiler again.
-/
namespace AwkToPython

open Compile

namespace Session

/-- The session in which the call of a name is noted that is no function yet. -/
def noted (s : Session) : Session :=
  if s.symbol.isVariable then
    { s with calls := s.calls ++ [(s.cursor.current.symbol, s.cursor.current.line)] }
  else s

/-- The session without the lines that were written since a mark. -/
abbrev without (s : Session) (mark : Nat) : Session :=
  { s with listing := (s.listing.takeSince mark).2 }

/-- The operator at the current token binds tighter than a limit. -/
def Operates (s : Session) (op : Symbol) (limit : Nat) : Prop :=
  Expression.operatorAt s.table s.cursor.current = some op ∧ op.awkLevel < limit

end Session

namespace Expression

/-- What is compiled in one piece. -/
inductive Phrase where
  | goal (goal : Goal)
  /-- One operation on an operand. -/
  | extension (left : Fragment) (context : Context) (limit : Nat)
  | whole (context : Context)
  /-- Expressions with commas between them. Line ends may follow a comma, and they
  may follow an item. -/
  | items (context : Context) (afterComma afterItem : Bool)
  /-- Arguments with the parentheses around them. -/
  | arguments (context : Context)
  | regex (context : Context) (limit : Nat)
  /-- What the separator of a split makes of its subject. -/
  | pieces (subject : String)
  /-- The last argument of a split, which may be left out. -/
  | separator (subject : String)
  /-- The last argument of a substitution, which may be left out. -/
  | substituted
  | call (function : Function) (context : Context)
  | getlineTarget
  | getlineSource (command : Option String)
  | getline (command : Option String)

/-- The operator of an increment or a decrement. -/
def stepOperator (increment : Bool) : UnaryOp := if increment then .increment else .decrement

/-- The texts of arguments, as they stand between parentheses. -/
def argumentTexts (arguments : List Fragment) : String :=
  Fragment.parenthesised (Text.join ", " (arguments.map (·.text)))

/-- The keys of a subscript, as one text. -/
def keyText (keys : List Fragment) : String := tuple (keys.map (·.text))

/-- The text of a computed index of a field. -/
def positionText (index : Fragment) : String :=
  if (Text.unsigned64? index.text).isSome then index.text else s!"int({index.text})"

/-- The operator of an assignment with an operator. -/
def changingOperator (op : Symbol) : String :=
  String.ofList (op.python.toList.reverse.dropWhile (· = '=')).reverse

/-- What `split` makes of its subject if no separator is given. -/
def defaultPieces (subject : String) : String :=
  s!"{subject}.split(None if self.FS == \" \" else self.FS)"

/-- The pieces of a subject become an array. -/
abbrev pieceTable (array pieces : String) : String := s!"{array} = self._to_array({pieces})"

/-- The text of a choice of which no branch writes a line. -/
abbrev choiceText (test yes no : Fragment) : String :=
  s!"({yes.wrapped ternaryLevel} if {test.wrapped ternaryLevel} else {no.wrapped ternaryLevel})"

/-- A line is read into the whole record. -/
def intoRecord : String := ".get_into_dollar_fields()"

/-- A line is read into a field, or into the record for the index zero. -/
def intoField (index : String) : String :=
  if index = "0" then intoRecord else s!".get_into_dollar_field({index})"

/-- A line is read into the variable with a Python text. -/
def intoVariable (python : String) : String :=
  s!".get_into_variable({(ownerAndName python).1}, \"{(ownerAndName python).2}\")"

def intoElement (base index : String) : String := s!".get_into_array({base}, {index})"

/-- What a line is read into, behind where it is read from. -/
def intoText (table : Table) : Option Target → String
  | none => intoRecord
  | some (.field index) => intoField index
  | some (.var id) => intoVariable (table.symbol id).python
  | some (.element base index) => intoElement base index

/-- Line ends are passed where they may stand. -/
def passLines (pass : Bool) (s : Session) : Session := if pass then s.pastLines else s

/-- A phrase was compiled: the session before, the fragments that came of it, and
the session after it. -/
inductive Reads : Phrase → Session → List Fragment → Session → Prop where
  | operation {s s1 s' : Session}
      (e : s.Effect s') (first : Reads (.goal (.signed context)) s [left] s1)
      (behind : Reads (.goal (.rest left context limit)) s1 [f] s') :
      Reads (.goal (.operation context limit)) s [f] s'
  | stop {s : Session} (e : s.Effect s)
      (stops : Awk.continues s.table s.cursor.current context.printing limit = false) :
      Reads (.goal (.rest left context limit)) s [left] s
  | extend {s s1 s' : Session}
      (e : s.Effect s') (first : Reads (.extension left context limit) s [g] s1)
      (behind : Reads (.goal (.rest g context limit)) s1 [f] s')
      (goes : Awk.continues s.table s.cursor.current context.printing limit = true) :
      Reads (.goal (.rest left context limit)) s [f] s'
  -- operations
  | subtraction {s s1 s' : Session}
      (e : s.Effect s') (kind : s.symbol.kind = .number)
      (negative : Text.startsWith "-" s.symbol.key = true) (fits : additiveLevel < limit)
      (operand : Reads (.goal (.rest
        (.atom (String.ofList (s.symbol.python.toList.dropWhile (· = '-')))) context additiveLevel))
        s.past [right] s1)
      (use : useAsScalar left s1 = .ok () s') :
      Reads (.extension left context limit) s
        [.operator (left.wrapped additiveLevel ++ "-" ++ right.wrapped additiveLevel)
          additiveLevel] s'
  | concatenation {s s1 s2 s' : Session} (e : s.Effect s') (starts : s.symbol.startsOperand = true)
      (fits : Symbol.concatenationLevel < limit)
      (operand : Reads (.goal (.operation context Symbol.concatenationLevel)) s [right] s1)
      (use : useAsScalar left s1 = .ok () s2) (use' : useAsScalar right s2 = .ok () s')
      (unsigned : s.symbol.kind = .number → Text.startsWith "-" s.symbol.key = false) :
      Reads (.extension left context limit) s
        [{ Fragment.string s!"({left.stringified}+{right.stringified})" with
          assigns := left.assigns || right.assigns }] s'
  | arithmetic {s s1 s2 s' : Session} (e : s.Effect s') (here : s.Operates op limit)
      (kind : op.kind = .binary .arithmetic ∨ op.kind = .binary .comparison)
      (operand : Reads (.goal (.operation context
        (if op.awkLevel = powerLevel then op.awkLevel + 1 else op.awkLevel))) s.past [right] s1)
      (use : useAsScalar left s1 = .ok () s2) (use' : useAsScalar right s2 = .ok () s') :
      Reads (.extension left context limit) s
        [{ Fragment.operator
            (left.wrapped
                (if op.kind = .binary .comparison then op.awkLevel else op.awkLevel + 1) ++
              op.python ++ right.wrapped op.awkLevel) op.awkLevel with
          assigns := left.assigns || right.assigns }] s'
  | logical {s s1 s2 s3 s' : Session} (e : s.Effect s') (here : s.Operates op limit)
      (kind : op.kind = .binary .and ∨ op.kind = .binary .or)
      (operand : Reads (.goal (.operation context op.awkLevel)) s.past.pastLines [right] s1)
      (use : useAsScalar left s1 = .ok () s2) (use' : useAsScalar right s2 = .ok () s3)
      (done : (s3.listing.takeSince s.listing.mark).1.isEmpty = true ∧
          s' = s3.without s.listing.mark ∧ f = { Fragment.operator
          (left.wrapped (op.awkLevel + 1) ++ op.python ++ right.wrapped op.awkLevel)
            op.awkLevel with
            assigns := left.assigns || right.assigns } ∨
        (s3.listing.takeSince s.listing.mark).1.isEmpty = false ∧
          guarded left (op.kind = .binary .and) (s3.listing.takeSince s.listing.mark).1 right
            (s3.without s.listing.mark) = .ok f s') :
      Reads (.extension left context limit) s [f] s'
  | matching {s s1 s' : Session} (e : s.Effect s') (here : s.Operates op limit)
      (kind : op.kind = .binary .regexMatch ∨ op.kind = .binary .regexMismatch)
      (operand : Reads (.regex context op.awkLevel) s.past [right] s1)
      (use : useAsScalar left s1 = .ok () s') :
      Reads (.extension left context limit) s
        [{ Fragment.atom (if op.kind = .binary .regexMismatch
            then "(not " ++ s!"{right.text}.search({left.stringified})" ++ ")"
            else s!"{right.text}.search({left.stringified})") with
          assigns := left.assigns }] s'
  | membership {s s1 s' : Session} (e : s.Effect s') (here : s.Operates op limit)
      (kind : op.kind = .binary .membership) (var : s.past.symbol.isVariable = true)
      (mark : markArray s.past.cursor.current.symbol s.past.cursor.current.line s.past = .ok () s1)
      (use : useAsScalar left s1.past = .ok () s') :
      Reads (.extension left context limit) s
        [{ Fragment.operator
          s!"{left.wrapped op.awkLevel} in {(s1.table.symbol s.past.cursor.current.symbol).python}"
            op.awkLevel with
          assigns := left.assigns }] s'
  | pipe {s s1 s' : Session}
      (e : s.Effect s') (here : s.Operates op limit) (kind : op.kind = .binary .pipe)
      (word : s.past.symbol.kind = .keyword .getline) (use : useAsScalar left s.past = .ok () s1)
      (source : Reads (.getline (some left.text)) s1 [f] s') :
      Reads (.extension left context limit) s [f] s'
  | conditional {s s1 s2 s3 s4 s5 s' : Session} (e : s.Effect s') (here : s.Operates op limit)
      (kind : op.kind = .binary .question)
      (first : Reads (.goal (.operation context anyLevel)) s.past.pastLines [yes] s1)
      (colon : s1.pastLines.symbol.kind = .binary .colon)
      (second : Reads (.goal (.operation context Symbol.assignmentLevel))
        s1.pastLines.past.pastLines [no] s2)
      (use : useAsScalar left s2 = .ok () s3) (use' : useAsScalar yes s3 = .ok () s4)
      (use'' : useAsScalar no s4 = .ok () s5)
      (done : (((s5.without s1.listing.mark).listing.takeSince s.listing.mark).1.isEmpty &&
            (s5.listing.takeSince s1.listing.mark).1.isEmpty) = true ∧
          s' = (s5.without s1.listing.mark).without s.listing.mark ∧
          f = { Fragment.atom (choiceText left yes no) with
            assigns := left.assigns || yes.assigns || no.assigns
            isString := yes.isString && no.isString } ∨
        (((s5.without s1.listing.mark).listing.takeSince s.listing.mark).1.isEmpty &&
            (s5.listing.takeSince s1.listing.mark).1.isEmpty) = false ∧
          choice left ((s5.without s1.listing.mark).listing.takeSince s.listing.mark).1 yes
            (s5.listing.takeSince s1.listing.mark).1 no
            ((s5.without s1.listing.mark).without s.listing.mark) = .ok f s') :
      Reads (.extension left context limit) s [f] s'
  | assignVariable {s s1 s2 s' : Session} {id : SymbolId} (e : s.Effect s')
      (here : s.Operates op limit)
      (kind : op.kind = .binary .assign) (changes : left.target = some (.var id))
      (value : Reads (.goal (.operation context anyLevel)) s.past.pastLines [right] s1)
      (use : useAsScalar right s1 = .ok () s2)
      (mark : markScalar id s2.cursor.current.line s2 = .ok () s') :
      Reads (.extension left context limit) s
        [{ Fragment.operator (left.text ++ op.python ++ right.text) Symbol.assignmentLevel with
          assigns := true }] s'
  | assignElement {s s1 s' : Session} (e : s.Effect s') (here : s.Operates op limit)
      (kind : op.kind = .binary .assign) (changes : left.target = some (.element base index))
      (value : Reads (.goal (.operation context anyLevel)) s.past.pastLines [right] s1)
      (use : useAsScalar right s1 = .ok () s') :
      Reads (.extension left context limit) s
        [{ Fragment.operator (s!"{base}[{index}]" ++ op.python ++ right.text)
            Symbol.assignmentLevel with assigns := true }] s'
  | assignField {s s1 s' : Session} (e : s.Effect s') (here : s.Operates op limit)
      (kind : op.kind = .binary .assign) (changes : left.target = some (.field index))
      (value : Reads (.goal (.operation context anyLevel)) s.past.pastLines [right] s1)
      (use : useAsScalar right s1 = .ok () s') :
      Reads (.extension left context limit) s
        [{ Fragment.operator (setField index right.text) Symbol.assignmentLevel with
          assigns := true }] s'
  | assignBy {s s1 s2 s' : Session} (e : s.Effect s')
      (here : s.Operates op limit) (kind : op.kind = .binary .assign)
      (changes : left.target = some (.field index))
      (value : Reads (.goal (.operation context anyLevel)) s.past.pastLines [right] s1)
      (use : useAsScalar right s1 = .ok () s2)
      (run : updateField index (fun value => value ++ changingOperator op ++ right.wrapped 0) false
        s2 = .ok f s') :
      Reads (.extension left context limit) s [{ f with assigns := true }] s'
  -- operands with the operators at them
  | sign {s s1 s' : Session} (e : s.Effect s')
      (kind : (∃ unary binary, s.symbol.kind = .ambiguous unary binary ∧
          python = (s.table.symbol unary).python) ∨
        (s.symbol.kind = .unary .minus ∨ s.symbol.kind = .unary .plus) ∧ python = s.symbol.python)
      (operand : Reads (.goal (.operation context unaryLevel)) s.past [g] s1)
      (use : useAsScalar g s1 = .ok () s') :
      Reads (.goal (.signed context)) s
        [.operator (python ++ g.wrapped unaryLevel) unaryLevel] s'
  | negation {s s1 s' : Session} (e : s.Effect s')
      (kind : s.symbol.kind = .unary .not)
      (operand : Reads (.goal (.operation context unaryLevel)) s.past [g] s1)
      (use : useAsScalar g s1 = .ok () s') :
      Reads (.goal (.signed context)) s
        [if s.symbol.needsGrouping then
          .atom (Fragment.parenthesised s!"{s.symbol.python} {g.wrapped unaryLevel}")
        else .operator s!"{s.symbol.python} {g.wrapped unaryLevel}" unaryLevel] s'
  | stepBefore {s s1 s' : Session}
      (e : s.Effect s')
      (kind : s.symbol.kind = .unary (stepOperator increment))
      (operand : Reads (.goal (.operand context)) s.past [g] s1)
      (run : step g increment true s1 = .ok f s') : Reads (.goal (.signed context)) s [f] s'
  | stepAfter {s s1 s' : Session}
      (e : s.Effect s')
      (operand : Reads (.goal (.operand context)) s [g] s1)
      (kind : s1.symbol.kind = .unary (stepOperator increment))
      (run : step g increment false s1.past = .ok f s') : Reads (.goal (.signed context)) s [f] s'
  | plain {s s' : Session} (e : s.Effect s')
      (operand : Reads (.goal (.operand context)) s [f] s') :
      Reads (.goal (.signed context)) s [f] s'
  -- operands
  | number {s : Session} (e : s.Effect s.past)
      (kind : s.symbol.kind = .number) :
      Reads (.goal (.operand context)) s [.atom s.symbol.python] s.past
  | string {s : Session} (e : s.Effect s.past)
      (kind : s.symbol.kind = .string) :
      Reads (.goal (.operand context)) s
        [{ Fragment.string s.symbol.python with literal := some s.cursor.current.symbol }] s.past
  | regexLiteral {s : Session} (e : s.Effect s.past)
      (kind : s.symbol.kind = .regex) :
      Reads (.goal (.operand context)) s
        [{ Fragment.atom s!"{s.symbol.python}.search(str(self._FLDS[0]))" with
          literal := some s.cursor.current.symbol }] s.past
  | field {s : Session} (e : s.Effect s.past)
      (kind : s.symbol.kind = .field (some index)) :
      Reads (.goal (.operand context)) s
        [{ Fragment.string s.symbol.python with target := some (.field (toString index)) }] s.past
  | computedField {s s1 s' : Session}
      (e : s.Effect s')
      (kind : s.symbol.kind = .field none)
      (one : (goal = .signed context ∧ ((∃ op, s.past.symbol.kind = .unary op) ∨
          ∃ unary binary, s.past.symbol.kind = .ambiguous unary binary)) ∨
        (goal = .operation context 3 ∧ ∃ index, s.past.symbol.kind = .field index) ∨
        goal = .operand context)
      (index : Reads (.goal goal) s.past [g] s1) (use : useAsScalar g s1 = .ok () s') :
      Reads (.goal (.operand context)) s
        [{ Fragment.string s!"self._FLDS[{positionText g}]" with
          target := some (.field (positionText g)) }] s'
  | group {s s1 : Session} (e : s.Effect s1.pastLines.past)
      (kind : s.symbol.kind = .bracket .openParen)
      (inner : Reads (.items { keepMissing := context.keepMissing } true false)
        s.past.pastLines [g] s1)
      (closed : s1.pastLines.symbol.kind = .bracket .closeParen) :
      Reads (.goal (.operand context)) s [g.grouped] s1.pastLines.past
  | tuple {s s1 : Session}
      (e : s.Effect s1.pastLines.past) (kind : s.symbol.kind = .bracket .openParen)
      (inner : Reads (.items { keepMissing := context.keepMissing } true false)
        s.past.pastLines args s1)
      (closed : s1.pastLines.symbol.kind = .bracket .closeParen) (several : args.length ≠ 1) :
      Reads (.goal (.operand context)) s [.atom (argumentTexts args)] s1.pastLines.past
  | name {s : Session} (e : s.Effect s.past)
      (kind : s.symbol.kind = .var use) :
      Reads (.goal (.operand context)) s
        [{ Fragment.atom s.symbol.python with target := some (.var s.cursor.current.symbol) }]
        s.past
  | element {s s1 s2 : Session}
      (e : s.Effect s2.past) (kind : s.symbol.kind = .var use)
      (bracket : (s.table.symbol (s.cursor.peek 1).symbol).kind = .bracket .openBracket)
      (mark : markArray s.cursor.current.symbol s.cursor.current.line s = .ok () s1)
      (keys : Reads (.items {} true false) s1.past.past args s2)
      (closed : s2.symbol.kind = .bracket .closeBracket) :
      Reads (.goal (.operand context)) s
        [{ Fragment.atom (if context.keepMissing
            then s!"{s.symbol.python}.get({keyText args}, \"\")"
            else s!"{s.symbol.python}[{keyText args}]") with
          target := some (.element s.symbol.python (keyText args)) }] s2.past
  | callLater {s s' : Session}
      (e : s.Effect s') (kind : s.symbol.kind = .var use)
      (arguments : Reads (.arguments { argument := true }) s.noted.past args s')
      (called : (s.table.symbol (s.cursor.peek 1).symbol).kind = .bracket .openParen ∧
        (s.cursor.peek 1).spaced = false) :
      Reads (.goal (.operand context)) s [.atom (s.symbol.python ++ argumentTexts args)] s'
  | function {s s1 s' : Session} {function : Function}
      (e : s.Effect s') (kind : s.symbol.kind = .function function)
      (library : function.library.forM requireLibrary s = .ok () s1)
      (behind : Reads (.call function context) s1 [f] s') :
      Reads (.goal (.operand context)) s [f] s'
  | getlineAlone {s s' : Session} (e : s.Effect s')
      (kind : s.symbol.kind = .keyword .getline)
      (behind : Reads (.getline none) s [f] s') : Reads (.goal (.operand context)) s [f] s'
  -- expressions and lists of them
  | argument {s s' : Session} (e : s.Effect s')
      (isArgument : context.argument = true)
      (inner : Reads (.goal (.operation context anyLevel)) s [f] s') :
      Reads (.whole context) s [f] s'
  | whole {s s1 s' : Session} (e : s.Effect s')
      (inner : Reads (.goal (.operation context anyLevel)) s [f] s1)
      (use : useAsScalar f s1 = .ok () s') : Reads (.whole context) s [f] s'
  | one {s s1 : Session}
      (e : s.Effect (passLines afterItem s1))
      (item : Reads (.whole context) s [f] s1) :
      Reads (.items context afterComma afterItem) s [f] (passLines afterItem s1)
  | more {s s1 s2 : Session} (e : s.Effect (passLines afterItem s2))
      (before : Reads (.items context afterComma afterItem) s args s1)
      (comma : s1.symbol.kind = .comma)
      (item : Reads (.whole context) (passLines afterComma s1.past) [f] s2) :
      Reads (.items context afterComma afterItem) s (args ++ [f]) (passLines afterItem s2)
  | noArguments {s : Session} (e : s.Effect s.past.pastLines.past)
      (opened : s.symbol.kind = .bracket .openParen)
      (closed : s.past.pastLines.symbol.kind = .bracket .closeParen) :
      Reads (.arguments context) s [] s.past.pastLines.past
  | arguments {s s1 : Session} (e : s.Effect s1.past)
      (opened : s.symbol.kind = .bracket .openParen)
      (items : Reads (.items context true true) s.past.pastLines args s1)
      (closed : s1.symbol.kind = .bracket .closeParen) :
      Reads (.arguments context) s args s1.past
  -- calls
  | user {s s' : Session} {function : Function}
      (e : s.Effect s') (strategy : function.strategy = .user)
      (arguments : Reads (.arguments { argument := true }) s.noted.past args s') :
      Reads (.call function context) s [.atom (s.symbol.python ++ argumentTexts args)] s'
  | lengthAlone {s : Session} {function : Function} (e : s.Effect s.past)
      (strategy : function.strategy = .length) :
      Reads (.call function context) s [.atom "len(str(self._FLDS[0]))"] s.past
  | lengthEmpty {s s' : Session} {function : Function} (e : s.Effect s')
      (strategy : function.strategy = .length)
      (arguments : Reads (.arguments { argument := true }) s.past [] s') :
      Reads (.call function context) s [.atom "len(str(self._FLDS[0]))"] s'
  | lengthOf {s s' : Session} {function : Function} (e : s.Effect s')
      (strategy : function.strategy = .length)
      (arguments : Reads (.arguments { argument := true }) s.past [g] s')
      (same : text = g.text ∨ text = g.stringified) :
      Reads (.call function context) s [.atom s!"len({text})"] s'
  | matchCall {s s1 s2 : Session}
      {function : Function} (e : s.Effect s2.past) (strategy : function.strategy = .regexMatch)
      (opened : s.past.symbol.kind = .bracket .openParen)
      (first : Reads (.whole {}) s.past.past [subject] s1) (comma : s1.symbol.kind = .comma)
      (second : Reads (.regex {} anyLevel) s1.past.pastLines [right] s2)
      (closed : s2.symbol.kind = .bracket .closeParen) :
      Reads (.call function context) s
        [.atom ("self._match(" ++ subject.stringified ++ s!", {right.text})")] s2.past
  | split {s s1 s2 s3 s' : Session}
      {function : Function} (e : s.Effect s')
      (strategy : function.strategy = .split)
      (opened : s.past.symbol.kind = .bracket .openParen)
      (first : Reads (.whole {}) s.past.past [subject] s1) (comma : s1.symbol.kind = .comma)
      (var : s1.past.pastLines.symbol.isVariable = true)
      (mark : markArray s1.past.pastLines.cursor.current.symbol
        s1.past.pastLines.cursor.current.line s1.past.pastLines = .ok () s2)
      (last : Reads (.separator subject.stringified) s2.past pieces s3)
      (closed : s3.symbol.kind = .bracket .closeParen)
      (done : f = .atom
            (pieceTable (s2.table.symbol s1.past.pastLines.cursor.current.symbol).python text) ∧
          s' = s3.past ∨
        emit (pieceTable (s2.table.symbol s1.past.pastLines.cursor.current.symbol).python text)
          s3.past = .ok () s' ∧
        f = { Fragment.atom
          s!"len({(s2.table.symbol s1.past.pastLines.cursor.current.symbol).python})" with
            hoisted := true })
      (said : text = (pieces.head?.map (·.text)).getD (defaultPieces subject.stringified)) :
      Reads (.call function context) s [f] s'
  | substitute {s s1 s2 s3 s' : Session}
      {function : Function}
      (e : s.Effect s') (strategy : function.strategy = .substitute everywhere)
      (opened : s.past.symbol.kind = .bracket .openParen)
      (first : Reads (.regex {} anyLevel) s.past.past [left] s1) (comma : s1.symbol.kind = .comma)
      (second : Reads (.whole {}) s1.past.pastLines [right] s2)
      (last : Reads .substituted s2 targets s3)
      (closed : s3.symbol.kind = .bracket .closeParen)
      (made : replacement right s2 = .ok new s2)
      (lines : writeSubstitution (s3.temporaries + 1)
        (fun subject => s!"{left.text}.subn({new}, {subject}, {if everywhere then 0 else 1})")
        targets.head? { s3.past with temporaries := s3.temporaries + 1 } = .ok () s') :
      Reads (.call function context) s
        [{ Fragment.atom s!"num_changed_{s3.temporaries + 1}" with hoisted := true }] s'
  | noSeparator {s : Session} (e : s.Effect s) : Reads (.separator about) s [] s
  | separator {s s' : Session} (e : s.Effect s')
      (comma : s.symbol.kind = .comma)
      (inner : Reads (.pieces about) s.past.pastLines [g] s') : Reads (.separator about) s [g] s'
  | substitutedRecord {s : Session} (e : s.Effect s) : Reads .substituted s [] s
  | substituted {s s' : Session} (e : s.Effect s') (comma : s.symbol.kind = .comma)
      (inner : Reads (.whole {}) s.past.pastLines [g] s') : Reads .substituted s [g] s'
  | method {s s' : Session} {function : Function} (e : s.Effect s')
      (strategy : function.strategy = .method name)
      (arguments : Reads (.arguments { keepMissing := context.keepMissing }) s.past [subject] s') :
      Reads (.call function context) s [.string s!"{subject.stringified}.{name}()"] s'
  | index {s s' : Session} {function : Function}
      (e : s.Effect s') (strategy : function.strategy = .index)
      (arguments : Reads (.arguments { keepMissing := context.keepMissing }) s.past
        [left, right] s') :
      Reads (.call function context) s
        [.atom s!"({left.stringified}.find({right.stringified})+1)"] s'
  | substr {s s' : Session}
      {function : Function} (e : s.Effect s') (strategy : function.strategy = .substr)
      (arguments : Reads (.arguments { keepMissing := context.keepMissing }) s.past args s')
      (run : substr args s' = .ok f s') : Reads (.call function context) s [f] s'
  | sprintf {s s1 s' : Session} {function : Function} (e : s.Effect s')
      (strategy : function.strategy = .sprintf)
      (arguments : Reads (.arguments { keepMissing := true }) s.past args s1)
      (run : formatted args s1 = .ok code s') : Reads (.call function context) s [.string code] s'
  | call {s s' : Session} {function : Function}
      (e : s.Effect s') (strategy : function.strategy = .call)
      (arguments : Reads (.arguments { keepMissing := context.keepMissing }) s.past args s') :
      Reads (.call function context) s [.atom (s.symbol.python ++ argumentTexts args)] s'
  -- regexes
  | regex {s : Session} (e : s.Effect s.past)
      (kind : s.symbol.kind = .regex) :
      Reads (.regex context limit) s [.atom s.symbol.python] s.past
  | literalRegex {s s1 s2 s' : Session}
      {id : SymbolId} (e : s.Effect s')
      (operand : Reads (.goal (.operation { context with statement := false } limit)) s [g] s1)
      (use : useAsScalar g s1 = .ok () s2) (literal : g.literal = some id)
      (string : (s2.table.symbol id).kind = .string)
      (made : s' = { s2 with table := (s2.table.regexForString id).2 })
      (plain : s.symbol.kind ≠ .regex) :
      Reads (.regex context limit) s
        [.atom (s'.table.symbol (s2.table.regexForString id).1).python] s'
  | dynamicRegex {s s1 s' : Session}
      (e : s.Effect s')
      (operand : Reads (.goal (.operation { context with statement := false } limit)) s [g] s1)
      (use : useAsScalar g s1 = .ok () s') (plain : s.symbol.kind ≠ .regex) :
      Reads (.regex context limit) s [.atom s!"self._dynamic_regex({g.text})"] s'
  | piecesLiteral {s s' : Session} (e : s.Effect s')
      (kind : s.symbol.kind = .regex ∨ s.symbol.kind = .string)
      (moved : s' = s.past ∨ s.symbol.kind = .string ∧
        s' = { s.past with table := (s.table.regexForString s.cursor.current.symbol).2 })
      (said : text = s!"{about}.split()" ∨
        s.symbol.kind = .string ∧
          text = s!"{about}.split(" ++ Literal.python (Literal.value s.symbol.key) ++ ")" ∨
        ∃ id, text = (s'.table.symbol id).python ++ ".split(" ++ about ++ ")") :
      Reads (.pieces about) s [.atom text] s'
  | piecesBy {s s' : Session} (e : s.Effect s')
      (inner : Reads (.whole {}) s [g] s') (computed : s.symbol.kind ≠ .regex ∧
        (s.symbol.kind = .string →
          (s.table.symbol (s.cursor.peek 1).symbol).startsOperand = true)) :
      Reads (.pieces about) s
        [.atom (s!"{about}.split() if {g.text} == \" \" else " ++
          s!"self._dynamic_regex({g.text}).split({about})")] s'
  -- input
  | noTarget {s : Session} (e : s.Effect s) : Reads .getlineTarget s [] s
  | getlineTarget {s s' : Session} (e : s.Effect s')
      (kind : s.symbol.isVariable = true ∨ ∃ index, s.symbol.kind = .field index)
      (operand : Reads (.goal (.operand {})) s [g] s') : Reads .getlineTarget s [g] s'
  | fromCommand {s : Session} (e : s.Effect s) :
      Reads (.getlineSource (some command)) s [.atom s!"self._access_file({command}, \"|r\")"] s
  | fromFile {s s1 s' : Session} (e : s.Effect s') (less : s.symbol.key = "<")
      (operand : Reads (.goal (.operand {})) s.past [g] s1) (use : useAsScalar g s1 = .ok () s') :
      Reads (.getlineSource none) s [.atom s!"self._access_file({g.text}, \"r\")"] s'
  | fromInput {s : Session} (e : s.Effect s) : Reads (.getlineSource none)
      s [.atom "self._std_in_out"] s
  | getline {s s1 s2 s' : Session} (e : s.Effect s')
      (target : Reads .getlineTarget (Session.past { s with hasMainLoop := true }) args s1)
      (source : Reads (.getlineSource command) s1 [g] s2)
      (done : s' = s2 ∧ (∀ f ∈ args, ∀ id, f.target ≠ some (.var id)) ∨
        ∃ f ∈ args, ∃ id, f.target = some (.var id) ∧
          markScalar id s2.cursor.current.line s2 = .ok () s') :
      Reads (.getline command) s
        [.atom (g.text ++ intoText s'.table (args.head?.bind (·.target)))] s'

lemma Reads.effect (h : Reads phrase s fs s') : s.Effect s' := by
  cases h <;> assumption

end Expression

end AwkToPython
