import AwkToPython.Proofs.Expression.Follows
import AwkToPython.Proofs.Expression.Places
import Mathlib.Data.List.Chain

/-!
# What becomes of an operation

Where the tokens ahead derive a tree, compiling an operation reaches the end of
them with the tree compiled. Two things can keep it from stopping there: what
follows may go on with the last operand, or a negation may stand where another
operand was expected. This is shown here for operands and groups, and from an
operation on for whole expressions.
-/
namespace AwkToPython.Awk

variable {ts : List Token} {level : Nat} {left : Fragment} {s1 : Session}

open Expression Compile AwkToPython.Symbol Follows

variable {ι : Type} {table : Table} {t : Token} {printing : Bool} {s : Session} {α : Type}

/-- From this limit on an operator after a derivation at the level belongs to its
last operand: an exponent takes further powers, a branch further choices. -/
def edge (level : Nat) : Nat := if level = 4 then 5 else if level = 19 then 20 else level

lemma edge_mono (le : level ≤ level') : edge level ≤ edge level' := by
  simp only [edge]
  grind

lemma continues_mono (le : limit ≤ limit')
    (h : continues table t printing limit' = false) : continues table t printing limit = false := by
  cases found : operatorAt table t with
  | some op =>
    simp only [continues, found, Bool.and_eq_false_iff, decide_eq_false_iff_not] at h ⊢
    exact h.imp (Or.imp (fun h => by omega) id) id
  | none =>
    simp only [continues, found] at h ⊢
    split
    case isTrue folded =>
      rw [if_pos folded, decide_eq_false_iff_not] at h
      rw [decide_eq_false_iff_not]
      omega
    case isFalse folded =>
      rw [if_neg folded, Bool.and_eq_false_iff, decide_eq_false_iff_not] at h
      rw [Bool.and_eq_false_iff, decide_eq_false_iff_not]
      exact h.imp id fun h => by omega

/-- What follows ends the tokens of an operation. -/
def Ends (table : Table) (printing : Bool) (limit : Nat) (ts k : List Token) : Prop :=
  Halts table printing limit k ∧ ¬Calls table ts k

/-- What follows goes on with the operation, or belongs to its last operand and was
read with it. -/
def Overruns (table : Table) (printing : Bool) (limit : Nat) (ts k : List Token) (s : Session) :
    Prop :=
  (∃ t ∈ k.head?, continues table t printing limit = true) ∨ Calls table ts k ∨
    (∃ t ∈ k.head?, attaches table t = true) ∧ s.cursor.shown.length < k.length

section Overruns

variable {printing : Bool} {limit limit' : Nat} {ts front k : List Token} {s s' : Session}

lemma Overruns.not_ends (h : Overruns table printing limit ts k s) :
    ¬Ends table printing limit ts k := by
  rintro ⟨halts, apart⟩
  rcases h with ⟨t, mem, goes⟩ | calls | ⟨⟨t, mem, attached⟩, -⟩
  · rw [(halts t mem).1] at goes
    cases goes
  · exact apart calls
  · rw [(halts t mem).2] at attached
    cases attached

lemma Overruns.mono (h : Overruns table printing limit ts k s) (le : limit ≤ limit')
    (behind : s'.cursor.shown.length ≤ s.cursor.shown.length) :
    Overruns table printing limit' ts k s' := by
  rcases h with ⟨t, mem, goes⟩ | calls | ⟨attached, beyond⟩
  · refine .inl ⟨t, mem, ?_⟩
    cases stops : continues table t printing limit' with
    | true => rfl
    | false => exact absurd goes (by simp [continues_mono le stops])
  · exact .inr (.inl calls)
  · exact .inr (.inr ⟨attached, Nat.lt_of_le_of_lt behind beyond⟩)

lemma Overruns.append (h : Overruns table printing limit ts k s) (some : ts ≠ []) :
    Overruns table printing limit (front ++ ts) k s := by
  rcases h with goes | ⟨t, last, call⟩ | attached
  · exact .inl goes
  · refine .inr (.inl ⟨t, ?_, call⟩)
    rwa [List.getLast?_append_of_ne_nil _ some]
  · exact .inr (.inr attached)

end Overruns

/-- Compiling stopped before a negation that stands right behind an operand. -/
def Stuck (table : Table) (ts k : List Token) (s : Session) : Prop :=
  ∃ before t next behind, ts = before ++ t :: next :: behind ∧
    endsOperand (table.symbol t.symbol) = true ∧ (table.symbol next.symbol).kind = .unary .not ∧
    s.cursor.shown = next :: behind ++ k

namespace Stuck

variable {ts ts' k : List Token} {s s' : Session}

lemma not_unjoined (h : Stuck table ts k s) : ¬Unjoined table ts := by
  obtain ⟨before, t, next, behind, rfl, ends, negation, -⟩ := h
  exact fun unjoined => (List.isChain_append_cons_cons.mp unjoined).2.1 ends negation

lemma current (h : Stuck table ts k s) :
    (table.symbol s.cursor.current.symbol).kind = .unary .not := by
  obtain ⟨_, _, _, _, -, -, negation, shown⟩ := h
  rwa [Follows.current shown]

lemma shown_ne (h : Stuck table ts k s) : s.cursor.shown ≠ k := by
  obtain ⟨_, _, _, _, -, -, -, shown⟩ := h
  intro same
  have length := congrArg List.length (shown.symm.trans same)
  simp only [List.cons_append, List.length_cons, List.length_append] at length
  omega

lemma kind (h : Stuck table ts k s) (follows : Follows table s) :
    s.symbol.kind = .unary .not :=
  kind_of_word (follows.word List.mem_cons_self) h.current (by simp)

lemma append_left (h : Stuck table ts k s) (front : List Token) :
    Stuck table (front ++ ts) k s := by
  obtain ⟨before, t, next, behind, rfl, rest⟩ := h
  exact ⟨front ++ before, t, next, behind, by simp, rest⟩

/-- More tokens of the operation stand behind. -/
lemma append_right (h : Stuck table ts (ts' ++ k) s) : Stuck table (ts ++ ts') k s := by
  obtain ⟨before, t, next, behind, rfl, ends, negation, shown⟩ := h
  exact ⟨before, t, next, behind ++ ts', by simp, ends, negation, by simpa using shown⟩

lemma same (h : Stuck table ts k s) (same : s'.cursor.shown = s.cursor.shown) :
    Stuck table ts k s' := by
  obtain ⟨before, t, next, behind, split, ends, negation, shown⟩ := h
  exact ⟨before, t, next, behind, split, ends, negation, same.trans shown⟩

end Stuck

/-- What became of an operation whose tokens derive a tree: the tree is compiled
and operators may follow, or the tokens are not all there is, or not all of them
were read. -/
inductive Outcome (table : Table) (s : Session) (e : Expr ι) (level : Nat) (context : Context)
    (limit : Nat) (ts k : List Token) (f : Fragment) (s' : Session) : Prop where
  | reached {left : Fragment} {s1 : Session} (compiled : Compiled s s1 e level left)
      (shown : s1.cursor.shown = k) (rest : Reads (.goal (.rest left context limit)) s1 [f] s')
  | overrun (h : Overruns table context.printing (edge level) ts k s')
  | stuck (h : Stuck table ts k s')

/-- What became of an operation up to its limit. -/
inductive Settled (table : Table) (s : Session) (e : Expr ι) (level : Nat) (printing : Bool)
    (limit : Nat) (ts k : List Token) (f : Fragment) (s' : Session) : Prop where
  | done (compiled : Compiled s s' e level f) (shown : s'.cursor.shown = k)
  | overrun (h : Overruns table printing limit ts k s')
  | stuck (h : Stuck table ts k s')

section Rest

variable {s s' : Session} {left f : Fragment} {context : Context} {limit : Nat} {k : List Token}

/-- After an operand either nothing happens or something follows that goes on. -/
lemma Follows.rest (h : Follows table s) (shown : s.cursor.shown = k)
    (read : Reads (.goal (.rest left context limit)) s [f] s') :
    (f = left ∧ s' = s) ∨ ∃ t ∈ k.head?, continues table t context.printing limit = true := by
  cases read with
  | stop => exact .inl ⟨rfl, rfl⟩
  | extend _ _ _ goes =>
    rw [h.continues_eq] at goes
    exact .inr ⟨s.cursor.current, by rw [← shown]; rfl, goes⟩

lemma Outcome.settle
    (h : Outcome table s e level context limit ts k f s') (follows : Follows table s)
    (le : edge level ≤ limit) : Settled table s e level context.printing limit ts k f s' := by
  cases h with
  | reached compiled shown rest =>
    rcases (follows.effect compiled.effect).rest shown rest with ⟨rfl, rfl⟩ | goes
    · exact .done compiled shown
    · exact .overrun (.inl goes)
  | overrun h => exact .overrun (h.mono le (Nat.le_refl _))
  | stuck h => exact .stuck h

lemma Follows.rest_stuck (h : Follows table s) (stuck : Stuck table ts k s)
    (read : Reads (.goal (.rest left context limit)) s [f] s') : Stuck table ts k s' := by
  rcases h.rest rfl read with ⟨-, rfl⟩ | ⟨_, ⟨⟩, goes⟩
  · exact stuck
  · simp [continues, operatorAt, startsOperand, stuck.current] at goes

end Rest

/-! ### Operands -/

section Operands

variable {s s' : Session} {f : Fragment} {context : Context} {limit : Nat} {ts k : List Token}
  {t : Token}

lemma startsOperand_of_reads (read : Reads (.goal (.operand context)) s [f] s') :
    s.symbol.startsOperand = true := by
  cases read <;> simp_all [startsOperand]

/-- It is enough to follow the reading of operands: after one only an increment or a
decrement is taken with it. -/
lemma operand_outcome (follows : Follows table s) (starts : s.symbol.startsOperand = true)
    (read : Reads (.goal (.operation context limit)) s [f] s')
    (h : ∀ left s0, Reads (.goal (.operand context)) s [left] s0 →
      (Compiled s s0 e 0 left ∧ s0.cursor.shown = k) ∨ Overruns table context.printing 0 ts k s0) :
    Outcome table s e 0 context limit ts k f s' := by
  cases read with
  | operation _ first rest =>
    have shorter := rest.effect.shorter
    cases first with
    | plain _ operand =>
      rcases h _ _ operand with ⟨compiled, shown⟩ | overrun
      · exact .reached compiled shown rest
      · exact .overrun (overrun.mono (Nat.le_refl _) shorter)
    | @stepAfter _ _ increment _ _ s0 _ _ operand kind run =>
      have sound := operand.effect.sound
      have beyond : s'.cursor.shown.length < s0.cursor.shown.length := by
        rw [sound.shown_advance (by simp [kind])]
        exact Nat.lt_succ_of_le
          (Nat.le_trans shorter ((moves_step _ _ _).ok sound.advance run).shorter)
      rcases h _ _ operand with ⟨compiled, shown⟩ | overrun
      · have attached : attaches s0.table s0.cursor.current = true := by
          rw [Session.symbol] at kind
          cases increment <;> simp [attaches, kind, stepOperator]
        rw [attaches_of_word ((follows.effect compiled.effect).word List.mem_cons_self)] at attached
        subst shown
        exact .overrun (.inr (.inr ⟨⟨_, rfl, attached⟩, beyond⟩))
      · exact .overrun (overrun.mono (Nat.le_refl _) (Nat.le_of_lt beyond))
    | sign _ kind =>
      rcases kind with ⟨_, _, kind, -⟩ | ⟨kind | kind, -⟩ <;> simp [startsOperand, kind] at starts
    | negation _ kind | stepBefore _ kind => simp [startsOperand, kind] at starts

lemma compiled_leaf
    (effect : s.Effect { s with cursor := s.cursor.advance }) (same : tree.erase = e.erase)
    (translates : Translates s.temporaries s.temporaries tree .done v)
    (reads : Python.Reads 0 left.text v) (level : left.level = none)
    (isString : left.isString = e.isString) :
    Compiled s { s with cursor := s.cursor.advance } e 0 left := by
  refine ⟨⟨tree, .done, v, same, .leaf effect rfl rfl translates, ?_⟩, ?_, ?_, isString,
    fun _ => level⟩
  · rwa [level]
  · rw [level]
    exact Nat.le_refl _
  · rw [level]
    exact Nat.zero_le _

/-- What is found by looking one token ahead stands at the front of what follows. -/
lemma Follows.peek {kind : SymbolKind} (h : Follows table s) (shown : s.cursor.advance.shown = ts)
    (found : (s.table.symbol (s.cursor.peek 1).symbol).kind = kind)
    (line : kind ≠ .terminator true true) (inner : kind ≠ .endOfInput)
    (effect : s.Effect { s with cursor := s.cursor.advance }) (plain : ∀ use, kind ≠ .var use) :
    s.cursor.peek 1 ∈ ts.head? ∧ (table.symbol (s.cursor.peek 1).symbol).kind = kind := by
  have current := h.sound.advance_current found line inner
  have mem : s.cursor.peek 1 ∈ s.cursor.advance.shown := by
    rw [← current]
    exact List.mem_cons_self
  refine ⟨?_, kind_of_word ((h.effect effect).word mem).symm found plain⟩
  rw [← shown, ← current]
  rfl

section Leaf

variable (follows : Follows table s) (shown : s.cursor.shown = t :: k)
  (read : Reads (.goal (.operation context limit)) s [f] s')
include follows shown read

/-- An operand of one word. -/
lemma leaf_outcome {e : Expr ι} (word : s.symbol.startsOperand = true ∧ s.symbol.isInner = true)
    (same : tree.erase = e.erase)
    (translates : Translates s.temporaries s.temporaries tree .done v)
    (h : ∀ left s0, Reads (.goal (.operand context)) s [left] s0 → s0 = s.past ∧
      left.level = none ∧ left.isString = e.isString ∧ Python.Reads 0 left.text v) :
    Outcome table s e 0 context limit [t] k f s' := by
  obtain ⟨advanced, shown1⟩ := follows.advance shown (current shown ▸ word.2)
  refine operand_outcome follows word.1 read fun left s0 read => .inl ?_
  obtain ⟨rfl, level, isString, reads⟩ := h left s0 read
  exact ⟨compiled_leaf advanced same translates reads level isString, shown1⟩

lemma number_outcome (h : IsNumber table t false digits) :
    Outcome table s (.number digits : Expr ι) 0 context limit [t] k f s' := by
  have here := h.grows follows.grows
  have word := symbol_shown shown
  have kind : s.symbol.kind = .number := word ▸ here.kind
  refine leaf_outcome follows shown read (by simp [startsOperand, isInner, kind]) rfl
    (.number digits)
    fun left s0 read => ?_
  cases read with
  | number =>
    refine ⟨rfl, rfl, rfl, ?_⟩
    have text : s.symbol.python = String.ofList (Literal.unsignedNumber digits) := by
      rw [word, here.python, here.key]
      exact here.digits.python
    rw [Fragment.atom, text]
    exact .number here.digits
  | _ => simp_all

lemma string_outcome (h : IsString table t value) :
    Outcome table s (.string value : Expr ι) 0 context limit [t] k f s' := by
  have here := h.grows follows.grows
  have word := symbol_shown shown
  have kind : s.symbol.kind = .string := word ▸ here.kind
  refine leaf_outcome follows shown read (by simp [startsOperand, isInner, kind]) rfl
    (.string value)
    fun left s0 read => ?_
  cases read with
  | string =>
    refine ⟨rfl, rfl, rfl, ?_⟩
    rw [Fragment.string, word, here.python]
    exact .string value
  | _ => simp_all

lemma field_outcome (h : IsField table t index) :
    Outcome table s (.field index : Expr ι) 0 context limit [t] k f s' := by
  have here := h.grows follows.grows
  have word := symbol_shown shown
  have kind : s.symbol.kind = .field (some index) := word ▸ here.kind
  refine leaf_outcome follows shown read (by simp [startsOperand, isInner, kind]) rfl (.field index)
    fun left s0 read => ?_
  cases read with
  | field =>
    refine ⟨rfl, rfl, rfl, ?_⟩
    rw [Fragment.string, word, here.python]
    exact .field index
  | _ => simp_all

lemma var_outcome {owner name : String} (h : IsVariable table t owner name) :
    Outcome table s (.var owner name : Expr ι) 0 context limit [t] k f s' := by
  have here := h.grows follows.grows
  have word := symbol_shown shown
  obtain ⟨use, kind⟩ := isVariable_iff.mp (word ▸ here.kind : s.symbol.isVariable = true)
  obtain ⟨advanced, shown1⟩ := follows.advance shown (isInner_of_isVariable here.kind)
  refine operand_outcome follows (by simp [startsOperand, kind]) read fun left s0 read => ?_
  cases read with
  | name =>
    refine .inl ⟨compiled_leaf advanced rfl (.var owner name) ?_ rfl rfl, shown1⟩
    rw [Fragment.atom, word, here.python]
    exact .member here.owner here.name
  | callLater _ _ _ called =>
    -- a parenthesis right behind it makes the variable a call
    obtain ⟨mem, open'⟩ := follows.peek shown1 called.1 (by simp) (by simp) advanced (by simp)
    exact .inr (.inr (.inl ⟨t, rfl, h.kind, _, mem, open', called.2⟩))
  | element _ _ bracket mark keys closed =>
    obtain ⟨mem, open'⟩ := follows.peek shown1 bracket (by simp) (by simp) advanced (by simp)
    refine .inr (.inr (.inr ⟨⟨_, mem, by simp [attaches, open']⟩, ?_⟩))
    obtain ⟨table', grown, rfl⟩ := markArray_ok mark
    -- the subscript starts behind the bracket
    have inner : s.past.symbol.kind ≠ .endOfInput := by
      rw [Session.symbol, follows.sound.advance_current bracket (by simp) (by simp), bracket]
      simp
    have behind := follows.sound.advance.shown_advance inner
    rw [shown1] at behind
    rw [behind]
    exact Nat.lt_succ_of_le (keys.effect.advance (by simp [isInner, closed])).shorter
  | _ => simp_all

end Leaf

end Operands

/-! ### Whole expressions -/

/-- A symbol that an expression can start with: an operand, a sign or a negation. -/
def IsFront (symbol : Symbol) : Prop :=
  symbol.startsOperand = true ∧ symbol.kind ≠ .regex ∧
      (symbol.kind = .number → Text.startsWith "-" symbol.key = false) ∨
    (∃ unary binary, symbol.kind = .ambiguous unary binary) ∨ symbol.kind = .unary .not

lemma IsFront.plain {symbol : Symbol} (h : IsFront symbol) :
    symbol.kind ≠ .terminator true true ∧ symbol.kind ≠ .regex := by
  rcases h with ⟨starts, regex, -⟩ | ⟨_, _, kind⟩ | kind
  · exact ⟨fun kind => by simp [startsOperand, kind] at starts, regex⟩
  all_goals simp [kind]

lemma startsWith_minus (cs : List Char) :
    Text.startsWith "-" (String.ofList cs) = decide (cs.head? = some '-') := by
  cases cs with
  | nil => rfl
  | cons c cs =>
    by_cases same : c = '-'
    · simp [Text.startsWith, same]
    · simp [Text.startsWith, List.isPrefixOf, same, Ne.symm same]

/-- The first token of an operation. -/
def Front (table : Table) (folded : Bool) (t : Token) : Prop :=
  if folded then ∃ digits, IsNumber table t true digits else IsFront (table.symbol t.symbol)

lemma Derives.front (h : Derives table form ts e) (marked : table.Marked)
    (operation : form = .operation printing folded level) :
    ∃ t rest, ts = t :: rest ∧ Front table folded t := by
  induction h generalizing printing folded level with
  | @var _ t _ _ h =>
    cases operation
    obtain ⟨use, kind⟩ := isVariable_iff.mp h.kind
    exact ⟨t, [], rfl, .inl (by simp [startsOperand, kind])⟩
  | @number _ folded t digits h =>
    cases operation
    cases folded with
    | true => exact ⟨t, [], rfl, digits, h⟩
    | false =>
      refine ⟨t, [], rfl, .inl ⟨by simp [startsOperand, h.kind], by simp [h.kind], fun _ => ?_⟩⟩
      rw [h.key, if_neg (by simp), startsWith_minus, decide_eq_false_iff_not]
      exact h.digits.head_ne_minus.1
  | @string _ t _ h | @field _ t _ h =>
    cases operation
    exact ⟨t, [], rfl, .inl (by simp [startsOperand, h.kind])⟩
  | @group _ t _ ts _ opening _ _ _ =>
    cases operation
    have kind := kind_of_mark (.bracket .openParen) marked opening (by decide) (by simp)
    exact ⟨t, _, rfl, .inl (by simp [startsOperand, kind])⟩
  | looser _ _ ih =>
    cases operation
    exact ih rfl
  | @sign _ minus t ts _ mark _ _ =>
    cases operation
    refine ⟨t, ts, rfl, .inr (.inl ?_)⟩
    cases minus with
    | true => exact ⟨15, 16, kind_of_mark _ marked mark (by decide) (by simp)⟩
    | false => exact ⟨18, 19, kind_of_mark _ marked mark (by decide) (by simp)⟩
  | @not _ t ts _ mark _ _ =>
    cases operation
    exact ⟨t, ts, rfl, .inr (.inr (kind_of_mark _ marked mark (by decide) (by simp)))⟩
  | binary _ _ _ _ _ left _ | minus _ _ left _ | concat _ _ _ _ left _
  | choose _ _ _ _ _ left _ _ =>
    cases operation
    obtain ⟨t, rest, rfl, front⟩ := left rfl
    exact ⟨t, _, rfl, front⟩
  | @call _ _ t _ _ _ _ _ _ _ _ _ name _ _ _ _ _ _ _ _ _ =>
    cases operation
    obtain ⟨everywhere, kind⟩ := name
    exact ⟨t, _, rfl, .inl (by simp [startsOperand, kind])⟩
  | _ => cases operation

/-- An operation ends with the last token of an operand. -/
lemma Derives.ends (h : Derives table form ts e) (marked : table.Marked)
    (operation : form = .operation printing folded level) :
    ∃ before t, ts = before ++ [t] ∧ endsOperand (table.symbol t.symbol) = true := by
  induction h generalizing printing folded level with
  | @var _ t _ _ h =>
    obtain ⟨use, kind⟩ := isVariable_iff.mp h.kind
    exact ⟨[], t, rfl, by simp [endsOperand, kind]⟩
  | @number _ _ t _ h | @string _ t _ h | @field _ t _ h =>
    exact ⟨[], t, rfl, by simp [endsOperand, h.kind]⟩
  | @group _ before behind ts _ _ _ closing _ =>
    have kind := kind_of_mark (.bracket .closeParen) marked closing (by decide) (by simp)
    exact ⟨before :: ts, behind, rfl, by simp [endsOperand, kind]⟩
  | looser _ _ ih => exact ih rfl
  | @sign _ _ t _ _ _ _ ih | @not _ t _ _ _ _ ih =>
    obtain ⟨before, last, rfl, ends⟩ := ih rfl
    exact ⟨t :: before, last, rfl, ends⟩
  | @binary _ _ _ _ t ts _ _ _ _ _ _ _ _ _ ih =>
    obtain ⟨before, last, rfl, ends⟩ := ih rfl
    exact ⟨ts ++ t :: before, last, by simp, ends⟩
  | @minus _ ts _ _ _ _ _ _ ih | @concat _ ts _ _ _ _ _ _ _ _ ih =>
    obtain ⟨before, last, rfl, ends⟩ := ih rfl
    exact ⟨ts ++ before, last, by simp, ends⟩
  | @choose _ question colon ts ts' _ _ _ _ _ _ _ _ _ _ _ ih =>
    obtain ⟨before, last, rfl, ends⟩ := ih rfl
    exact ⟨ts ++ question :: (ts' ++ colon :: before), last, by simp, ends⟩
  | @call _ _ f before comma behind ts ts' ts'' _ _ _ _ _ _ _ _ _ closing _ _ _ =>
    have kind := kind_of_mark (.bracket .closeParen) marked closing (by decide) (by simp)
    exact ⟨f :: before :: (ts ++ comma :: (ts' ++ ts'')), behind, by simp,
      by simp [endsOperand, kind]⟩
  | _ => cases operation

lemma Follows.pastLines_eq (h : Follows table s) (shown : s.cursor.shown = t :: ts)
    (front : (table.symbol t.symbol).kind ≠ .terminator true true) : s.pastLines = s := by
  have current := current shown
  have plain : s.cursor.current.isNewline = false := by
    cases line : s.cursor.current.isNewline with
    | false => rfl
    | true =>
      have mem : t ∈ s.cursor.shown := by simp [shown]
      have kind := h.sound.current.newline line
      rw [current] at kind
      exact absurd (kind_of_word (h.word mem).symm kind (by simp)) front
  rw [Session.pastLines, Cursor.skip_of_not plain]

lemma Follows.pastLines_front (follows : Follows table s)
    (shown : s.cursor.shown = ts ++ k) (front : ∀ t ∈ ts.head?, IsFront (table.symbol t.symbol))
    (some : ts ≠ []) : s.pastLines = s := by
  cases ts with
  | nil => exact absurd rfl some
  | cons t ts => exact follows.pastLines_eq shown (front t rfl).plain.1

/-- Compiling starts with the tokens; for a folded literal, after it and with its
digits as the operand. -/
def Begins (table : Table) (folded : Bool) (context : Context) (limit : Nat)
    (ts k : List Token) (s : Session) (f : Fragment) (s' : Session) : Prop :=
  if folded then
    ∃ t rest, ts = t :: rest ∧ s.cursor.shown = rest ++ k ∧
      Reads (.goal (.rest (.atom (String.ofList
        ((table.symbol t.symbol).python.toList.dropWhile (· = '-')))) context limit)) s [f] s'
  else s.cursor.shown = ts ++ k ∧ Reads (.goal (.operation context limit)) s [f] s'

/-- Compiling follows the derivation of the tokens. -/
def Simulated (table : Table) (printing folded : Bool) (level : Nat) (ts : List Token)
    (e : Expr ι) : Prop :=
  ∀ {context : Context} {limit : Nat} {s s' : Session} {f : Fragment} {k : List Token},
    context.printing = printing → (level < limit ∨ level = 5 ∧ limit = 5) → Follows table s →
    Begins table folded context limit ts k s f s' →
    Outcome table s e level context limit ts k f s'

section Whole

variable {s s' : Session} {f : Fragment} {context : Context} {limit level : Nat}
  {ts k : List Token} {t : Token} {e : Expr ι} {printing folded : Bool}

lemma Begins.split (some : ts ≠ [])
    (h : Begins table folded context limit (ts ++ ts') k s f s') :
    Begins table folded context limit ts (ts' ++ k) s f s' := by
  cases folded with
  | false => exact ⟨by rw [h.1, List.append_assoc], h.2⟩
  | true =>
    cases ts with
    | nil => exact absurd rfl some
    | cons t ts =>
      obtain ⟨_, _, same, shown, run⟩ := h
      rw [List.cons_append] at same
      cases same
      exact ⟨t, ts, rfl, by rw [shown, List.append_assoc], run⟩

lemma edge_le (h : level < limit ∨ level = 5 ∧ limit = 5) : edge level ≤ limit := by
  simp only [edge]
  grind

/-- An operation up to a limit. -/
lemma Simulated.settle (h : Simulated table context.printing false level ts e)
    (bound : level < limit ∨ level = 5 ∧ limit = 5) (follows : Follows table s)
    (shown : s.cursor.shown = ts ++ k)
    (read : Reads (.goal (.operation context limit)) s [f] s') :
    Settled table s e level context.printing limit ts k f s' :=
  (h rfl bound follows ⟨shown, read⟩).settle follows (edge_le bound)

lemma Compiled.grow (h : Compiled s s' e level f) (g : s'.table.Grows table) :
    Compiled s { s' with table } e level f := by
  obtain ⟨t, b, v, same, places, reads⟩ := h.places
  exact ⟨⟨t, b, v, same, places.grow g, reads⟩, h.level, h.tight, h.isString, h.atomic⟩

lemma Settled.grow (h : Settled table s e level printing limit ts k f s')
    (g : s'.table.Grows table') :
    Settled table s e level printing limit ts k f { s' with table := table' } := by
  cases h with
  | done compiled shown => exact .done (compiled.grow g) shown
  | overrun h => exact .overrun h
  | stuck h => exact .stuck h

/-- Two operands are used as scalars. -/
lemma scalars_ok (use : useAsScalar f s = .ok () s1) (use' : useAsScalar g s1 = .ok () s') :
    ∃ table, s.table.Grows table ∧ s' = { s with table } := by
  obtain ⟨table1, grown1, rfl⟩ := useAsScalar_ok use
  obtain ⟨table2, grown2, rfl⟩ := useAsScalar_ok use'
  exact ⟨table2, Table.Grows.trans grown1 grown2, rfl⟩

lemma Simulated.whole (h : Simulated table context.printing false level ts e)
    (bound : level ≤ 19) (follows : Follows table s) (shown : s.cursor.shown = ts ++ k)
    (read : Reads (.whole context) s [f] s') :
    Settled table s e level context.printing anyLevel ts k f s' := by
  have below : level < anyLevel ∨ level = 5 ∧ anyLevel = 5 :=
    .inl (Nat.lt_of_le_of_lt bound (by decide))
  cases read with
  | argument _ _ inner => exact h.settle below follows shown inner
  | whole _ inner use =>
    obtain ⟨table', grown, rfl⟩ := useAsScalar_ok use
    exact (h.settle below follows shown inner).grow grown

lemma ends_of_kind (bracket : (table.symbol t.symbol).kind = .bracket .closeParen ∨
      (table.symbol t.symbol).kind = .comma) : Ends table printing limit ts (t :: k) := by
  constructor
  · rintro _ ⟨⟩
    rcases bracket with kind | kind <;>
      simp [continues, attaches, operatorAt, startsOperand, kind]
  · rintro ⟨_, -, -, _, ⟨⟩, kind, -⟩
    rcases bracket with kind' | kind' <;> simp [kind] at kind'

lemma Compiled.between (h : Compiled s1 s2 e level f) (before : s.Effect s1)
    (behind : s2.Effect s') (listing : s1.listing = s.listing ∧ s'.listing = s2.listing)
    (count : s1.temporaries = s.temporaries ∧ s'.temporaries = s2.temporaries) :
    Compiled s s' e level f := by
  obtain ⟨t, b, v, same, places, reads⟩ := h.places
  exact ⟨⟨t, b, v, same, (places.before before listing.1 count.1).behind behind listing.2 count.2,
    reads⟩, h.level, h.tight, h.isString, h.atomic⟩

/-- A comma stands behind the first item of a list, unless it is the only one. -/
lemma first_item (read : Reads phrase s fs s') (list : phrase = .items context afterComma false) :
    ∃ f s1, Reads (.whole context) s [f] s1 ∧ (fs = [f] ∧ s' = s1 ∨ s1.symbol.kind = .comma) := by
  induction read with
  | one _ item =>
    cases list
    exact ⟨_, _, item, .inl ⟨rfl, rfl⟩⟩
  | more _ _ comma _ ih =>
    cases list
    obtain ⟨f, s1, item, behind⟩ := ih rfl
    refine ⟨f, s1, item, .inr ?_⟩
    rcases behind with ⟨-, rfl⟩ | found
    · exact comma
    · exact found
  | _ => cases list

lemma group_outcome (opening : IsMark "(" before)
    (inner : Simulated table false false 19 ts e) (closing : IsMark ")" behind)
    (front : ∀ t ∈ ts.head?, IsFront (table.symbol t.symbol)) (some : ts ≠ [])
    (follows : Follows table s) (shown : s.cursor.shown = before :: ts ++ [behind] ++ k)
    (read : Reads (.goal (.operation context limit)) s [f] s') :
    Outcome table s e 0 context limit (before :: ts ++ [behind]) k f s' := by
  have here := kind_of_mark (.bracket .openParen) follows.here opening (by decide) (by simp)
  have kind : s.symbol.kind = .bracket .openParen := by
    rw [symbol_shown shown, here]
  have shown' : s.cursor.shown = before :: (ts ++ (behind :: k)) := by simpa using shown
  obtain ⟨advanced, shown1⟩ := follows.advance shown' (by simp [isInner, here])
  have follows1 := follows.effect advanced
  refine operand_outcome follows (by simp [startsOperand, kind]) read fun left s0 read => .inl ?_
  obtain ⟨args, s2, items, closed, rfl, made⟩ : ∃ args s2,
      Reads (.items { keepMissing := context.keepMissing } true false) s.past.pastLines args s2 ∧
      s2.pastLines.symbol.kind = .bracket .closeParen ∧ s0 = s2.pastLines.past ∧
      ∀ g, args = [g] → left = g.grouped := by
    cases read with
    | group _ _ inner closed => exact ⟨_, _, inner, closed, rfl, by rintro _ ⟨⟩; rfl⟩
    | tuple _ _ inner closed several =>
      exact ⟨_, _, inner, closed, rfl, fun g one => absurd (by simp [one]) several⟩
    | _ => simp_all
  rw [follows1.pastLines_front shown1 front some] at items
  obtain ⟨g, s3, item, only⟩ := first_item items rfl
  have follows3 := follows1.effect item.effect
  have close := kind_of_mark (.bracket .closeParen) follows.marked closing (by decide) (by simp)
  rcases inner.whole (by decide) follows1 shown1 item with ⟨compiled, shown3⟩ | overrun | stuck
  · have close3 := kind_of_mark (.bracket .closeParen) follows3.here closing (by decide) (by simp)
    have kind3 : s3.symbol.kind = .bracket .closeParen := by
      rw [symbol_shown shown3, close3]
    obtain ⟨rfl, rfl⟩ := only.resolve_right (by simp [kind3])
    obtain ⟨advanced3, shown4⟩ := follows3.advance shown3 (by simp [isInner, close3])
    rw [follows3.pastLines_eq shown3 (by simp [close]), made g rfl]
    exact ⟨compiled.grouped.between advanced advanced3 ⟨rfl, rfl⟩ ⟨rfl, rfl⟩, shown4⟩
  · exact absurd (ends_of_kind (.inl close)) overrun.not_ends
  · have kind3 := stuck.kind follows3
    obtain ⟨rfl, rfl⟩ := only.resolve_right (by simp [kind3])
    rw [follows3.pastLines_eq rfl (by simp [stuck.current]), kind3] at closed
    cases closed

end Whole

end AwkToPython.Awk
