import AwkToPython.Expression.Operator
import AwkToPython.Proofs.Table

/-!
# Trees of AWK expressions

What AWK's grammar says of a sequence of tokens: which operator applies to which
operands. `Derives` has one rule for each form of an expression; a level bounds
how loosely the outermost operator binds, and a lower level binds tighter. The
image of a tree is the Python expression with the same operators on the same
operands.
-/
namespace AwkToPython.Awk

/-- Binary operators, adjacency apart. -/
inductive Operator where
  | power
  | times
  | divide
  | remainder
  | plus
  | minus
  | less
  | atMost
  | equal
  | differ
  | greater
  | atLeast
  | and
  | or
deriving DecidableEq, Repr

namespace Operator

def all : List Operator :=
  [power, times, divide, remainder, plus, minus, less, atMost, equal, differ, greater, atLeast,
   and, or]

lemma mem_all (op : Operator) : op ∈ all := by
  cases op <;> decide

def level : Operator → Nat
  | power => 4
  | times | divide | remainder => 6
  | plus | minus => 7
  | less | atMost | equal | differ | greater | atLeast => 9
  | and => 17
  | or => 18

/-- The loosest level of a left operand: powers associate to the right. -/
def left (op : Operator) : Nat := if op = power then 0 else op.level

/-- The loosest level of a right operand; an exponent may have a sign. -/
def right (op : Operator) : Nat := if op = power then 5 else op.level - 1

/-- The spellings. -/
def keys : Operator → List String
  | power => ["^", "**"]
  | times => ["*"]
  | divide => ["/"]
  | remainder => ["%"]
  | plus => ["+"]
  | minus => ["-"]
  | less => ["<"]
  | atMost => ["<="]
  | equal => ["=="]
  | differ => ["!="]
  | greater => [">"]
  | atLeast => [">="]
  | and => ["&&"]
  | or => ["||"]

/-- Python's operator. -/
def python : Operator → String
  | power => "**"
  | times => "*"
  | divide => "/"
  | remainder => "%"
  | plus => "+"
  | minus => "-"
  | less => "<"
  | atMost => "<="
  | equal => "=="
  | differ => "!="
  | greater => ">"
  | atLeast => ">="
  | and => "and"
  | or => "or"

def kind : Operator → BinaryOp
  | power | times | divide | remainder | plus | minus => .arithmetic
  | less | atMost | equal | differ | greater | atLeast => .comparison
  | and => .and
  | or => .or

/-- The right operand is evaluated only if the left one does not decide. -/
def isLogical (op : Operator) : Bool := op = and || op = or

end Operator

/-- Expressions as AWK groups them. A substitution carries a label; where there
are no labels there are no substitutions. -/
inductive Expr (ι : Type) where
  | var (owner name : String)
  /-- The digits as they are written. -/
  | number (digits : List Char)
  | string (value : String)
  | field (index : Nat)
  | sign (minus : Bool) (operand : Expr ι)
  | not (operand : Expr ι)
  | binary (op : Operator) (left right : Expr ι)
  | concat (left right : Expr ι)
  | choose (test yes no : Expr ι)
  | call (label : ι) (pattern replacement target : Expr ι)
deriving DecidableEq, Repr

namespace Expr

variable {ι : Type}

def signText (minus : Bool) : String := if minus then "-" else "+"

/-- Python evaluates it to a string. -/
def isString : Expr ι → Bool
  | string _ | field _ | concat _ _ => true
  | choose _ yes no => yes.isString && no.isString
  | _ => false

/-- The tree without the labels. -/
def erase : Expr ι → Expr Unit
  | var owner name => var owner name
  | number digits => number digits
  | string value => string value
  | field index => field index
  | sign minus e => sign minus e.erase
  | not e => not e.erase
  | binary op l r => binary op l.erase r.erase
  | concat l r => concat l.erase r.erase
  | choose test yes no => choose test.erase yes.erase no.erase
  | call _ pattern replacement target => call () pattern.erase replacement.erase target.erase

@[simp] lemma isString_erase (e : Expr ι) : e.erase.isString = e.isString := by
  induction e with
  | choose test yes no _ hy hn => simp [erase, isString, hy, hn]
  | _ => rfl

/-- Python's `str` around what may be no string. -/
def asString (isString : Bool) (e : Python.Expr) : Python.Expr :=
  if isString then e else .call (.name "str") e

def numberImage (digits : List Char) : Python.Expr :=
  .number (String.ofList (Literal.unsignedNumber digits))

def fieldImage (index : Nat) : Python.Expr :=
  .subscript (.attribute (.name "self") "_FLDS") (.number (toString index))

/-- The Python expression with the same grouping. Adjacent operands are joined as
strings; a negation is Python's `not`. -/
def image : Expr Empty → Python.Expr
  | var owner name => .attribute (.name owner) name
  | number digits => numberImage digits
  | string value => .string (Literal.python value)
  | field index => fieldImage index
  | sign minus e => .unary (signText minus) e.image
  | not e => .unary "not" e.image
  | binary op l r => .binary op.python l.image r.image
  | concat l r => .binary "+" (asString l.isString l.image) (asString r.isString r.image)
  | choose test yes no => .choose yes.image test.image no.image

end Expr

/-! ### Tokens of an expression -/

/-- A token that spells a mark or an operator. -/
def IsMark (key : String) (t : Token) : Prop := Table.initial.find? key = some t.symbol

section Operands

variable (table : Table) (t : Token)

structure IsVariable (owner name : String) : Prop where
  kind : (table.symbol t.symbol).isVariable = true
  python : (table.symbol t.symbol).python = owner ++ "." ++ name
  owner : Python.IsName owner
  name : Python.IsName name

/-- A number literal; a folded one has a minus sign in front of the digits. -/
structure IsNumber (folded : Bool) (digits : List Char) : Prop where
  kind : (table.symbol t.symbol).kind = .number
  key : (table.symbol t.symbol).key = String.ofList (if folded then '-' :: digits else digits)
  python : (table.symbol t.symbol).python = Literal.number (table.symbol t.symbol).key
  digits : Python.IsNumber digits

structure IsString (value : String) : Prop where
  kind : (table.symbol t.symbol).kind = .string
  python : (table.symbol t.symbol).python = Literal.python value

structure IsField (index : Nat) : Prop where
  kind : (table.symbol t.symbol).kind = .field (some index)
  python : (table.symbol t.symbol).python = s!"self._FLDS[{index}]"

/-- The name of `sub` or `gsub`. -/
def IsSubstitution : Prop :=
  ∃ everywhere, (table.symbol t.symbol).kind = .function { strategy := .substitute everywhere }

/-- In a print statement the operator says where to print. -/
def redirects (op : Symbol) : Bool :=
  match op.kind with
  | .binary .comparison | .binary .arithmetic => op.key = ">"
  | .binary .pipe | .binary .append => true
  | _ => false

/-- After an operand the token goes on with an operation below the limit. -/
def continues (printing : Bool) (limit : Nat) : Bool :=
  match Expression.operatorAt table t with
  | some op =>
    op.awkLevel < limit && op.kind ≠ .binary .colon && !(printing && redirects op)
  | none =>
    if (table.symbol t.symbol).kind = .number &&
        Text.startsWith "-" (table.symbol t.symbol).key then
      Expression.additiveLevel < limit
    else (table.symbol t.symbol).startsOperand && Symbol.concatenationLevel < limit

/-- The token belongs to the operand before it. -/
def attaches : Bool :=
  match (table.symbol t.symbol).kind with
  | .bracket .openBracket | .unary .increment | .unary .decrement => true
  | _ => false

end Operands

/-- Nothing at the front goes on with what stands before it. -/
def Halts (table : Table) (printing : Bool) (limit : Nat) (ts : List Token) : Prop :=
  ∀ t ∈ ts.head?, continues table t printing limit = false ∧ attaches table t = false

/-- A variable stands right before a parenthesis, so that it is called. -/
def Calls (table : Table) (ts rest : List Token) : Prop :=
  ∃ t ∈ ts.getLast?, (table.symbol t.symbol).isVariable = true ∧ ∃ next ∈ rest.head?,
    (table.symbol next.symbol).kind = .bracket .openParen ∧ next.spaced = false

/-- The last token of an operand. -/
def endsOperand (s : Symbol) : Bool :=
  match s.kind with
  | .var _ | .number | .string | .field (some _) | .bracket .closeParen => true
  | _ => false

/-- No negation stands right behind an operand, to which it would have to be joined. -/
def Unjoined (table : Table) (ts : List Token) : Prop :=
  ts.IsChain fun t next => endsOperand (table.symbol t.symbol) = true →
    (table.symbol next.symbol).kind ≠ .unary .not

/-! ### Derivations -/

/-- What is derived. -/
inductive Form where
  /-- An expression at a level. One that is folded starts with a negative literal,
  of which the sign is an operator. -/
  | operation (printing folded : Bool) (level : Nat)
  /-- The first argument of a substitution. -/
  | pattern
  /-- The last argument of a substitution, with the comma before it; it may be left
  out. -/
  | target

/-- AWK's grammar. In a print statement `>` is no comparison outside of
parentheses. -/
inductive Derives (table : Table) {ι : Type} : Form → List Token → Expr ι → Prop where
  | var {printing : Bool} {t : Token} {owner name : String} (h : IsVariable table t owner name) :
      Derives table (.operation printing false 0) [t] (.var owner name)
  | number {printing folded : Bool} {t : Token} {digits : List Char}
      (h : IsNumber table t folded digits) :
      Derives table (.operation printing folded 0) [t] (.number digits)
  | string {printing : Bool} {t : Token} {value : String} (h : IsString table t value) :
      Derives table (.operation printing false 0) [t] (.string value)
  | field {printing : Bool} {t : Token} {index : Nat} (h : IsField table t index) :
      Derives table (.operation printing false 0) [t] (.field index)
  | group {printing : Bool} {before behind : Token} {ts : List Token} {e : Expr ι}
      (opening : IsMark "(" before) (inner : Derives table (.operation false false 19) ts e)
      (closing : IsMark ")" behind) :
      Derives table (.operation printing false 0) (before :: ts ++ [behind]) e
  | looser {printing folded : Bool} {level level' : Nat} {ts : List Token} {e : Expr ι}
      (h : Derives table (.operation printing folded level) ts e) (le : level ≤ level') :
      Derives table (.operation printing folded level') ts e
  | sign {printing minus : Bool} {t : Token} {ts : List Token} {e : Expr ι}
      (mark : IsMark (Expr.signText minus) t)
      (inner : Derives table (.operation printing false 5) ts e) :
      Derives table (.operation printing false 5) (t :: ts) (.sign minus e)
  | not {printing : Bool} {t : Token} {ts : List Token} {e : Expr ι} (mark : IsMark "!" t)
      (inner : Derives table (.operation printing false 5) ts e) :
      Derives table (.operation printing false 5) (t :: ts) (.not e)
  | binary {printing folded : Bool} {op : Operator} {key : String} {t : Token} {ts ts' : List Token}
      {l r : Expr ι} (spelling : key ∈ op.keys) (mark : IsMark key t)
      (shown : printing = true → op ≠ .greater)
      (left : Derives table (.operation printing folded op.left) ts l)
      (right : Derives table (.operation printing false op.right) ts' r) :
      Derives table (.operation printing folded op.level) (ts ++ t :: ts') (.binary op l r)
  /-- The sign of a folded literal subtracts what starts with the literal. -/
  | minus {printing : Bool} {ts ts' : List Token} {l r : Expr ι}
      (left : Derives table (.operation printing false 7) ts l)
      (right : Derives table (.operation printing true 6) ts' r) :
      Derives table (.operation printing false 7) (ts ++ ts') (.binary .minus l r)
  /-- Adjacent operands; a sign between them would be an operator. -/
  | concat {printing : Bool} {ts ts' : List Token} {l r : Expr ι}
      (left : Derives table (.operation printing false 8) ts l)
      (right : Derives table (.operation printing false 7) ts' r)
      (unsigned : ∀ t ∈ ts'.head?, Expression.operatorAt table t = none)
      (apart : ¬Calls table ts ts') :
      Derives table (.operation printing false 8) (ts ++ ts') (.concat l r)
  | choose {printing : Bool} {question colon : Token} {ts ts' ts'' : List Token}
      {test yes no : Expr ι} (hq : IsMark "?" question) (hc : IsMark ":" colon)
      (first : Derives table (.operation printing false 18) ts test)
      (second : Derives table (.operation printing false 19) ts' yes)
      (third : Derives table (.operation printing false 19) ts'' no) :
      Derives table (.operation printing false 19) (ts ++ question :: (ts' ++ colon :: ts''))
        (.choose test yes no)
  | call {printing : Bool} {label : ι} {f before comma behind : Token} {ts ts' ts'' : List Token}
      {pattern replacement target : Expr ι} (name : IsSubstitution table f)
      (opening : IsMark "(" before) (first : Derives table .pattern ts pattern)
      (separator : IsMark "," comma)
      (second : Derives table (.operation false false 19) ts' replacement)
      (third : Derives table .target ts'' target) (closing : IsMark ")" behind) :
      Derives table (.operation printing false 0)
        (f :: before :: (ts ++ comma :: (ts' ++ (ts'' ++ [behind]))))
        (.call label pattern replacement target)
  | regex {t : Token} (h : (table.symbol t.symbol).kind = .regex) :
      Derives table .pattern [t] (.string (table.symbol t.symbol).key)
  | dynamic {ts : List Token} {e : Expr ι} (h : Derives table (.operation false false 19) ts e) :
      Derives table .pattern ts e
  | record : Derives table .target [] (.field 0)
  | given {comma : Token} {ts : List Token} {e : Expr ι} (separator : IsMark "," comma)
      (h : Derives table (.operation false false 19) ts e) : Derives table .target (comma :: ts) e

end AwkToPython.Awk
