import AwkToPython.Proofs.Usage.Expression

/-!
# Assignments in conditions

A condition is refused if an assignment is exposed in it. The grammar below says
which assignments are: those that are reached from the whole expression through
parentheses, arithmetic, comparisons, logical operators, choices and
concatenations. The operand of a sign, a subscript, an argument, an index of a
field, a regex that is computed, and what input is taken from hide the
assignments in them, and a negative number and a pipe hide those on their left.
-/
namespace AwkToPython

open Compile Expression List Session AwkToPython.Symbol Table Fragment

/-! ### Words -/

namespace Session

variable {s s' s'' : Session} {ws ws' : List Symbol}
variable {f g : Fragment} {id : SymbolId} {line : Nat} {before increment : Bool}

/-- The words of tokens. -/
def words (s : Session) (ts : List Token) : List Symbol :=
  ts.map fun t => (s.table.symbol t.symbol).word

/-- A trip that passes tokens with these words. -/
structure Says (s s' : Session) (ws : List Symbol) : Prop extends Trip s s' where
  shown : ∃ ts, s.cursor.shown = ts ++ s'.cursor.shown ∧ s.words ts = ws

lemma words_grows (sound : s.Sound) (g : s.table.Grows s'.table) {ts : List Token}
    (mem : ∀ t ∈ ts, t ∈ s.cursor.shown) : s'.words ts = s.words ts :=
  map_congr_left fun t ht => g.word _ (sound.shown_sound (mem t ht)).valid

namespace Says

lemma refl (sound : s.Sound) : s.Says s [] := ⟨.refl sound, [], rfl, rfl⟩

lemma trans (h : s.Says s' ws) (h' : s'.Says s'' ws') : s.Says s'' (ws ++ ws') := by
  obtain ⟨ts, shown, rfl⟩ := h.shown
  obtain ⟨ts', shown', rfl⟩ := h'.shown
  refine ⟨h.toTrip.trans h'.toTrip, ts ++ ts', by rw [shown, shown', append_assoc], ?_⟩
  have ahead : ∀ t ∈ ts', t ∈ s.cursor.shown := by
    rw [shown, shown']
    simp +contextual
  rw [words_grows h.start h.table ahead, words, map_append]
  rfl

lemma grow {t : Table} (h : s.Says s' ws) (g : s'.table.Grows t) :
    s.Says { s' with table := t } ws := ⟨h.toTrip.grow g, h.shown⟩

lemma alike (h : s.Says s' ws) (same : s'.Alike s'')
    (depth : s''.listing.depth = s'.listing.depth) : s.Says s'' ws := by
  refine ⟨h.toTrip.alike same depth, ?_⟩
  rw [Cursor.shown, Cursor.shown, same.current, same.ahead]
  exact h.shown

lemma use (h : s.Says s' ws) (run : useAsScalar f s' = .ok () s'') : s.Says s'' ws := by
  obtain ⟨t, g, rfl⟩ := useAsScalar_ok run
  exact h.grow g

lemma markScalar (h : s.Says s' ws)
    (run : Compile.markScalar id line s' = .ok () s'') : s.Says s'' ws := by
  obtain ⟨t, g, rfl⟩ := markScalar_ok run
  exact h.grow g

lemma writes {α : Type} {a : α} {x : Compile α} (h : s.Says s' ws) (only : Writes 0 0 x)
    (run : x s' = .ok a s'') : s.Says s'' ws := h.alike (only.ok run).1 (only.ok run).2

lemma without (h : s.Says s' ws) (mark : Nat) : s.Says (s'.without mark) ws :=
  ⟨h.toTrip.without mark, h.shown⟩

lemma noted (h : s.Says s' ws) : s.Says s'.noted ws := by
  rw [Session.noted]
  split
  · exact h.alike ⟨rfl, rfl, rfl, rfl, rfl, rfl, fun _ => id⟩ rfl
  · exact h

/-- Pass the current token, if what it says of the one before it is so. -/
lemma pastLinked (h : s.Says s' ws) (inner : s'.symbol.kind ≠ .endOfInput)
    (linked : ∀ p ∈ s'.cursor.prior, Token.Linked s'.table p s'.cursor.current) :
    s.Says s'.past (ws ++ [s'.symbol.word]) :=
  h.trans ⟨(Trip.refl h.sound).pastLinked inner linked, [s'.cursor.current],
    h.sound.shown_advance inner, rfl⟩

lemma pastKind (h : s.Says s' ws) (kind : s'.symbol.kind = k)
    (passable : (k.isSilent && k != .endOfInput)) : s.Says s'.past (ws ++ [s'.symbol.word]) := by
  simp only [Bool.and_eq_true, bne_iff_ne] at passable
  exact h.pastLinked (kind ▸ passable.2) fun _ _ => Token.linked_of_isSilent (kind ▸ passable.1)

/-- Line ends may stand before the words of the next construct. -/
lemma pastLines (h : s.Says s' ws) : ∃ ls, s.Says s'.pastLines (ws ++ ls) ∧
    ∀ l ∈ ls, l.kind = .terminator true true := by
  obtain ⟨ts, shown, all⟩ :=
    Cursor.skipWhile_shown (s'.cursor.remaining + 1) h.sound.lastWord h.sound.last_not_newline
  refine ⟨s'.words ts, h.trans ⟨(Trip.refl h.sound).pastLines, ts, shown, rfl⟩, fun l hl => ?_⟩
  obtain ⟨t, ht, rfl⟩ := mem_map.mp hl
  have mem : t ∈ s'.cursor.shown := by
    rw [shown]
    exact mem_append_left _ ht
  simp [word, (h.sound.shown_sound mem).newline (all t ht), SymbolKind.bare]

lemma passLines (h : s.Says s' ws) (pass : Bool) : ∃ ls,
    s.Says (Expression.passLines pass s') (ws ++ ls) ∧
      ∀ l ∈ ls, l.kind = .terminator true true := by
  cases pass
  · exact ⟨[], (append_nil ws).symm ▸ h, by simp⟩
  · exact h.pastLines

end Says

lemma Effect.said (h : s.Effect s') : s.Says s [] := .refl h.start

end Session

/-! ### The grammar -/

namespace Awk

/-- What words make up. -/
inductive Part where
  | operand
  /-- An operand with the operators directly before and after it. -/
  | signed
  /-- Operations that bind tighter than `limit`. -/
  | expression (limit : Nat)
  | list (several : Bool)
  | input

/-- A word that operates on the operand before it, at a level. -/
def Operates (w : Symbol) (op : BinaryOp) (level : Nat) : Prop :=
  w.kind = .binary op ∧ w.awkLevel = level ∨
    op = .arithmetic ∧ ∃ unary binary, w.kind = .ambiguous unary binary ∧
      (Table.initial.symbol binary).awkLevel = level

def IsLine (w : Symbol) : Prop := w.kind = .terminator true true

/-- Words of an expression or a part of one, and whether an assignment is exposed
in it. -/
inductive Exposes : Part → Bool → List Symbol → Prop where
  | lineBefore {w : Symbol} (line : IsLine w) (h : Exposes form b ws) : Exposes form b (w :: ws)
  | lineBehind {w : Symbol} (h : Exposes form b ws) (line : IsLine w) : Exposes form b (ws ++ [w])
  -- operands
  | word {w : Symbol} (starts : w.startsOperand = true) (single : w.kind ≠ .bracket .openParen) :
      Exposes .operand false [w]
  | group {w w' : Symbol} (opened : w.kind = .bracket .openParen)
      (h : Exposes (.expression anyLevel) b ws) (closed : w'.kind = .bracket .closeParen) :
      Exposes .operand b (w :: ws ++ [w'])
  | tuple {w w' : Symbol} (opened : w.kind = .bracket .openParen) (h : Exposes (.list true) b ws)
      (closed : w'.kind = .bracket .closeParen) : Exposes .operand false (w :: ws ++ [w'])
  | element {w w' w'' : Symbol} (named : w.isVariable = true)
      (opened : w'.kind = .bracket .openBracket) (h : Exposes (.list several) b ws)
      (closed : w''.kind = .bracket .closeBracket) : Exposes .operand false (w :: w' :: ws ++ [w''])
  | call {w w' w'' : Symbol} (named : w.isVariable = true ∨ w.isFunction = true)
      (opened : w'.kind = .bracket .openParen) (h : Exposes (.list several) b ws)
      (closed : w''.kind = .bracket .closeParen) : Exposes .operand false (w :: w' :: ws ++ [w''])
  | callEmpty {ws : List Symbol} {w w' w'' : Symbol}
      (named : w.isVariable = true ∨ w.isFunction = true)
      (opened : w'.kind = .bracket .openParen) (lines : ∀ l ∈ ws, IsLine l)
      (closed : w''.kind = .bracket .closeParen) :
      Exposes .operand false (w :: w' :: ws ++ [w''])
  | field {w : Symbol} (mark : w.kind = .field none) (h : Exposes (.expression 3) b ws) :
      Exposes .operand false (w :: ws)
  | input (h : Exposes .input b ws) : Exposes .operand false ws
  | getline {w : Symbol} (mark : w.kind = .keyword .getline) : Exposes .input false [w]
  | into (h : Exposes .input a ws) (target : Exposes .operand b ws') :
      Exposes .input false (ws ++ ws')
  | source {w : Symbol} (h : Exposes .input a ws) (less : w.key = "<")
      (file : Exposes .operand b ws') : Exposes .input false (ws ++ w :: ws')
  -- operands with the operators at them
  | plain (h : Exposes .operand b ws) : Exposes .signed b ws
  | sign {w : Symbol}
      (mark : (∃ op, w.kind = .unary op) ∨ ∃ unary binary, w.kind = .ambiguous unary binary)
      (h : Exposes (.expression unaryLevel) b ws) : Exposes .signed false (w :: ws)
  | stepBefore {w : Symbol} (mark : w.kind = .unary op) (h : Exposes .operand b ws) :
      Exposes .signed false (w :: ws)
  | stepBehind {w : Symbol} (h : Exposes .operand b ws) (mark : w.kind = .unary op) :
      Exposes .signed false (ws ++ [w])
  -- operations
  | first (h : Exposes .signed b ws) : Exposes (.expression limit) b ws
  | arithmetic {level : Nat} {w : Symbol} (h : Exposes (.expression limit) a ws)
      (here : Operates w op level) (which : op = .arithmetic ∨ op = .comparison)
      (fits : level < limit)
      (h' : Exposes (.expression (if level = powerLevel then level + 1 else level)) b ws') :
      Exposes (.expression limit) (a || b) (ws ++ w :: ws')
  | logical {level : Nat} {w : Symbol} (h : Exposes (.expression limit) a ws)
      (here : Operates w op level) (which : op = .and ∨ op = .or) (fits : level < limit)
      (h' : Exposes (.expression level) b ws') :
      Exposes (.expression limit) (a || b) (ws ++ w :: ws')
  | concatenation (h : Exposes (.expression limit) a ws) (fits : concatenationLevel < limit)
      (h' : Exposes (.expression concatenationLevel) b ws') :
      Exposes (.expression limit) (a || b) (ws ++ ws')
  | conditional {level : Nat} {w w' : Symbol} (h : Exposes (.expression limit) a ws)
      (here : Operates w .question level) (fits : level < limit)
      (h' : Exposes (.expression anyLevel) b ws') (colon : w'.kind = .binary .colon)
      (h'' : Exposes (.expression assignmentLevel) c ws'') :
      Exposes (.expression limit) (a || b || c) (ws ++ w :: ws' ++ w' :: ws'')
  | membership {level : Nat} {w w' : Symbol} (h : Exposes (.expression limit) a ws)
      (here : Operates w .membership level) (fits : level < limit) (named : w'.isVariable = true) :
      Exposes (.expression limit) a (ws ++ [w, w'])
  | matching {level : Nat} {w : Symbol} (h : Exposes (.expression limit) a ws)
      (here : Operates w op level) (which : op = .regexMatch ∨ op = .regexMismatch)
      (fits : level < limit) (h' : Exposes (.expression level) b ws') :
      Exposes (.expression limit) a (ws ++ w :: ws')
  | subtraction {w : Symbol} (h : Exposes (.expression limit) a ws) (number : w.kind = .number)
      (negative : Text.startsWith "-" w.key = true) (fits : additiveLevel < limit)
      (h' : Exposes (.expression additiveLevel) b (w :: ws')) :
      Exposes (.expression limit) false (ws ++ w :: ws')
  | pipe {level : Nat} {w : Symbol} (h : Exposes (.expression limit) a ws)
      (here : Operates w .pipe level) (fits : level < limit) (h' : Exposes .input b ws') :
      Exposes (.expression limit) false (ws ++ w :: ws')
  | assign {level : Nat} {w : Symbol} (h : Exposes (.expression limit) a ws)
      (here : Operates w .assign level) (fits : level < limit)
      (h' : Exposes (.expression anyLevel) b ws') :
      Exposes (.expression limit) true (ws ++ w :: ws')
  -- lists
  | one (h : Exposes (.expression anyLevel) b ws) : Exposes (.list false) b ws
  | more {w : Symbol} (h : Exposes (.list several) a ws) (comma : w.kind = .comma)
      (h' : Exposes (.expression anyLevel) b ws') : Exposes (.list true) (a || b) (ws ++ w :: ws')

variable {form : Part} {b : Bool} {ls ws : List Symbol}

lemma Exposes.lines {ls ls' : List Symbol} (h : Exposes form b ws)
    (before : ∀ l ∈ ls, IsLine l) (behind : ∀ l ∈ ls', IsLine l) :
    Exposes form b (ls ++ ws ++ ls') := by
  have first : Exposes form b (ls ++ ws) := by
    induction ls with
    | nil => exact h
    | cons l ls ih =>
      exact .lineBefore (before l mem_cons_self)
        (ih fun l mem => before l (mem_cons_of_mem _ mem))
  induction ls' using reverseRecOn with
  | nil => simpa using first
  | append_singleton ls' l ih =>
    rw [← append_assoc]
    exact .lineBehind (ih fun l mem => behind l (mem_append_left _ mem))
      (behind l (by simp))

lemma Exposes.after (h : Exposes form b ws)
    (before : ∀ l ∈ ls, IsLine l) : Exposes form b (ls ++ ws) := by
  have nothing : ∀ l ∈ ([] : List Symbol), IsLine l := by simp
  simpa using h.lines before nothing

lemma Exposes.upTo (h : Exposes form b ws)
    (behind : ∀ l ∈ ls, IsLine l) : Exposes form b (ws ++ ls) := by
  have nothing : ∀ l ∈ ([] : List Symbol), IsLine l := by simp
  simpa using h.lines nothing behind

end Awk

/-! ### What is compiled follows the grammar -/

namespace Expression

open Awk (Exposes Operates IsLine)

/-- What the words of a phrase make up. Words of what follows an operand go on from
those of the operand. -/
def Phrase.Worded (fs : List Fragment) (ws : List Symbol) : Phrase → Prop
  | .goal (.operation _ limit) => ∀ f ∈ fs, Exposes (.expression limit) f.assigns ws
  | .goal (.rest left _ limit) | .extension left _ limit => ∀ f ∈ fs, ∀ before,
    Exposes (.expression limit) left.assigns before →
      Exposes (.expression limit) f.assigns (before ++ ws)
  | .goal (.signed _) => ∀ f ∈ fs, Exposes .signed f.assigns ws
  | .goal (.operand _) | .call _ _ => ∀ f ∈ fs, Exposes .operand f.assigns ws
  | .whole _ => ∀ f ∈ fs, Exposes (.expression anyLevel) f.assigns ws
  | .items _ _ _ => (∃ several b, Exposes (.list several) b ws ∧ (fs.length ≠ 1 → several = true)) ∧
    ∀ f, fs = [f] → Exposes (.expression anyLevel) f.assigns ws
  | .arguments _ => ∀ w : Symbol, w.isVariable = true ∨ w.isFunction = true →
    Exposes .operand false (w :: ws)
  | .regex _ limit => ∃ b, Exposes (.expression limit) b ws
  | .pieces _ => ∃ b, Exposes (.expression anyLevel) b ws
  | .separator _ | .substituted => ∀ before several a, Exposes (.list several) a before →
    ∃ several b, Exposes (.list several) b (before ++ ws)
  | .getlineTarget | .getlineSource _ => ∀ before a, Exposes .input a before →
    ∃ b, Exposes .input b (before ++ ws)
  | .getline _ => (∃ b, Exposes .input b ws) ∧ ∀ f ∈ fs, f.assigns = false

section Words

variable {s s' : Session} {k : SymbolKind}

lemma word_kind (kind : s.symbol.kind = k) (bare : k.bare = k) : s.symbol.word.kind = k := by
  rw [word, kind, bare]

lemma word_operates {op : Symbol} {limit : Nat} {k : BinaryOp} (sound : s.Sound)
    (here : s.Operates op limit) (kind : op.kind = .binary k) :
    Operates s.symbol.word k op.awkLevel ∧ s.symbol.kind ≠ .endOfInput := by
  rcases operates_cases here with ⟨unary, binary, sign, rfl⟩ | ⟨rfl, -⟩
  · have paired := sound.current.regular.paired
    simp only [isPaired, sign, Bool.and_eq_true, decide_eq_true_eq] at paired
    have word := sound.marked.word binary paired.1.1.1
    cases (kind_of_word word paired.1.1.2 (by simp)).symm.trans kind
    exact ⟨.inr ⟨rfl, unary, binary, word_kind sign rfl, (awkLevel_of_word word).symm⟩,
      by simp [sign]⟩
  · exact ⟨.inl ⟨word_kind kind rfl, rfl⟩, by simp [kind]⟩

lemma said_operator {op : Symbol} {limit : Nat} {k : BinaryOp} (sound : s.Sound)
    (here : s.Operates op limit) (kind : op.kind = .binary k) (ne : k ≠ .assign) :
    Operates s.symbol.word k op.awkLevel ∧ s.Says s.past [s.symbol.word] := by
  refine ⟨(word_operates sound here kind).1, ?_⟩
  rcases operates_cases here with ⟨unary, binary, sign, -⟩ | ⟨same, -⟩
  · exact (Says.refl sound).pastKind sign rfl
  · refine (Says.refl sound).pastKind (same ▸ kind) ?_
    simp [SymbolKind.isSilent, SymbolKind.isSubscript, SymbolKind.isAssign, ne]

lemma substr_assigns {args : List Fragment} (run : substr args s = .ok f s') :
    f.assigns = false := by
  rcases args with _ | ⟨_, _ | ⟨start, _ | ⟨count, _ | _⟩⟩⟩
  case cons.cons.nil =>
    cases first : Text.signed64? start.text <;> simp only [substr, first] at run <;>
      cases run <;> rfl
  case cons.cons.cons.nil =>
    cases first : Text.signed64? start.text <;> cases many : Text.signed64? count.text <;>
      simp only [substr, first, many] at run <;> cases run <;> rfl
  all_goals exact absurd run unexpected_ne_ok

lemma isVariable_word (w : Symbol) : w.word.isVariable = w.isVariable := by
  cases kind : w.kind <;> simp [isVariable, variableUse?, word, SymbolKind.bare, kind]

lemma startsOperand_word (w : Symbol) : w.word.startsOperand = w.startsOperand := by
  cases kind : w.kind <;> simp [startsOperand, word, SymbolKind.bare, kind]

lemma exposes_word {w : Symbol} (h : w.startsOperand = true ∧ w.kind ≠ .bracket .openParen) :
    Exposes .operand false [w.word] :=
  .word ((startsOperand_word w).trans h.1) fun same => h.2 (SymbolKind.eq_of_bare same (by simp))

lemma isFunction_word {function : Function} (kind : s.symbol.kind = .function function) :
    s.symbol.word.isFunction = true := by
  simp [isFunction, word_kind kind rfl]

lemma says_step {s0 : Session} (said : s0.Says s ws) (settled : s.Settled g.target)
    (run : step g increment before s = .ok f s') :
    s0.Says s' ws ∧ s'.Settled none ∧ f.assigns = false := by
  have scalar : (∀ id, g.target ≠ some (.var id)) → s.Settled none := fun other p mem var =>
    .inr ((settled p mem var).resolve_left (other _))
  rcases ht : g.target with _ | (id | ⟨base, index⟩ | index)
  all_goals simp only [step, ht] at run
  case none => exact absurd run unexpected_ne_ok
  case some.var =>
    rw [line_bind] at run
    obtain ⟨_, s1, mark, run⟩ := bind_ok.mp run
    cases run
    exact ⟨said.markScalar mark, (ht ▸ settled).mark said.sound mark, rfl⟩
  case some.element =>
    cases run
    exact ⟨said, scalar (by simp [ht]), rfl⟩
  case some.field =>
    have only := writes_updateField index (· ++ if increment then "+1" else "-1") (!before)
    exact ⟨said.writes only run, (scalar (by simp [ht])).alike (only.ok run).1,
      by rw [updateField_ok run]; rfl⟩

end Words

lemma called {s : Session} {function : Function} (sound : s.Sound)
    (kind : s.symbol.kind = .function function) : s.Says s.past [s.symbol.word] :=
  (Says.refl sound).pastKind kind rfl

section Assignments

variable {s s1 s' : Session} {op : Symbol} {limit : Nat} (sound : s.Sound)
  (here : s.Operates op limit) (kind : op.kind = .binary .assign)
include sound here kind

/-- A value stands behind the operator that assigns it, perhaps on a later line. -/
lemma says_value {context : Context} {right : Fragment} (value : ∃ ws, s.past.pastLines.Says s1 ws ∧
      Phrase.Worded [right] ws (.goal (.operation context anyLevel)) ∧ P)
    (use : useAsScalar right s1 = .ok () s') : ∃ ws, s.past.Says s' ws ∧ ∀ b before,
      Exposes (.expression limit) b before →
        Exposes (.expression limit) true (before ++ s.symbol.word :: ws) := by
  obtain ⟨ls, first, lines⟩ := (Says.refl sound.advance).pastLines
  obtain ⟨ws, said, words, -⟩ := value
  refine ⟨_, (first.trans said).use use, fun b before h => ?_⟩
  exact .assign h (word_operates sound here kind).1 here.2 ((words _ mem_cons_self).after lines)

lemma says_assignment {left : Fragment} (settled : s.Settled left.target) (said : s.past.Says s' ws)
    (marked : ∀ p ∈ s.cursor.prior, (s'.table.symbol p.symbol).isVariable →
      left.target = some (.var p.symbol) → s'.table.isScalar p.symbol) :
    s.Says s' (s.symbol.word :: ws) := by
  obtain ⟨ts, shown, rfl⟩ := said.shown
  refine ⟨trip_assignment sound here kind settled said.toTrip marked, s.cursor.current :: ts,
    ?_, rfl⟩
  rw [sound.shown_advance (word_operates sound here kind).2, shown]
  rfl

end Assignments

/-- The words of a phrase that is compiled follow the grammar, and the fragment knows whether an
assignment is exposed. Of every variable it is said what is done with it. -/
lemma Reads.worded {phrase : Phrase} {s s' : Session} {fs : List Fragment}
    (h : Reads phrase s fs s') (begins : phrase.Begins s) :
    ∃ ws, s.Says s' ws ∧ phrase.Worded fs ws ∧ phrase.Ends s fs s' := by
  have one : ∀ {f : Fragment} {P : Fragment → Prop}, P f → ∀ g ∈ [f], P g := fun h g mem =>
    mem_singleton.mp mem ▸ h
  -- nothing is said at the end of an operation that binds less tight
  have loose : ∀ {f : Fragment} {limit : Nat} {s' : Session}, f.target = none →
      ¬ limit ≤ unaryLevel → ∀ g ∈ [f], g.target ≠ none ∨ limit ≤ unaryLevel →
        s'.Settled g.target := by
    intro f limit s' fixed below g mem tight
    cases mem_singleton.mp mem
    exact absurd (tight.resolve_left (· fixed)) below
  induction h with
  | operation e first behind ih ih' =>
    obtain ⟨ws, said, words, ends⟩ := ih trivial
    obtain ⟨ws', said', words', ends'⟩ := ih' fun _ => ends _ mem_cons_self
    exact ⟨_, said.trans said', fun f mem => words' f mem _ (.first (words _ mem_cons_self)), ends'⟩
  | stop e => exact ⟨[], .refl e.start, one fun before h => by simpa using h, one begins⟩
  | extend e first behind goes ih ih' =>
    obtain ⟨ws, said, words, ends⟩ := ih begins
    obtain ⟨ws', said', words', ends'⟩ := ih' (ends _ mem_cons_self)
    refine ⟨_, said.trans said', fun f mem before h => ?_, ends'⟩
    rw [← append_assoc]
    exact words' f mem _ (words _ mem_cons_self before h)
  | @subtraction limit context right left s s1 s' e kind negative fits operand use ih =>
    have first := e.said.pastKind kind rfl
    obtain ⟨ws, said, words, -⟩ := ih fun _ => .past kind (by simp)
    refine ⟨_, (first.trans said).use use, one fun before h => ?_, loose rfl ?_⟩
    · have number : s.symbol.word.kind = .number := word_kind kind rfl
      have right := words _ mem_cons_self [s.symbol.word]
        (.first (.plain (.word (by simp [startsOperand, number]) (by simp [number]))))
      exact .subtraction h number negative fits right
    · simp only [additiveLevel, unaryLevel] at fits ⊢
      omega
  | concatenation e starts fits operand use use' unsigned ih =>
    obtain ⟨ws, said, words, -⟩ := ih trivial
    refine ⟨_, (said.use use).use use', one fun before h =>
      .concatenation h fits (words _ mem_cons_self), loose rfl ?_⟩
    simp only [concatenationLevel, unaryLevel] at fits ⊢
    omega
  | @arithmetic op limit context right left s s1 s2 s' e here kind operand use use' ih =>
    obtain ⟨k, same, which, ne⟩ : ∃ k, op.kind = .binary k ∧ (k = .arithmetic ∨ k = .comparison) ∧
        k ≠ .assign := by
      rcases kind with kind | kind <;> exact ⟨_, kind, by simp⟩
    obtain ⟨operates, first⟩ := said_operator e.start here same ne
    obtain ⟨ws, said, words, ends⟩ := ih trivial
    refine ⟨_, ((first.trans said).use use).use use',
      one fun before h => .arithmetic h operates which here.2 (words _ mem_cons_self),
      one fun tight => ?_⟩
    have tight := tight.resolve_left (· rfl)
    have below := here.2
    -- the operand of such an operator is an operand at one operator itself
    have settled : s1.Settled right.target := by
      refine ends _ mem_cons_self (.inr ?_)
      by_cases power : op.awkLevel = powerLevel
      · simp only [if_pos power]
        exact Nat.le_trans below tight
      · simp only [if_neg power]
        exact Nat.le_of_lt (Nat.lt_of_lt_of_le below tight)
    exact (settled.later said.sound use).use (said.use use).sound use'
  | logical e here kind operand use use' done ih =>
    obtain ⟨k, same, which, ne, other⟩ : ∃ k, _ = SymbolKind.binary k ∧ (k = .and ∨ k = .or) ∧
        k ≠ .assign ∧ k ≠ .arithmetic := by
      rcases kind with kind | kind <;> exact ⟨_, kind, by simp⟩
    obtain ⟨operates, start⟩ := said_operator e.start here same ne
    obtain ⟨ls, first, lines⟩ := start.pastLines
    obtain ⟨ws, said, words, -⟩ := ih trivial
    have said := ((first.trans said).use use).use use'
    have right := (words _ mem_cons_self).after lines
    have below := loose_of_operates e.start here same other
    rcases done with ⟨-, rfl, rfl⟩ | ⟨-, run⟩
    · exact ⟨_, said.without _, one fun before h => by
        simpa using Exposes.logical h operates which here.2 right, loose rfl below⟩
    · refine ⟨_, (said.without _).writes (writes_guarded _ _ _ _) run, one fun before h => ?_,
        loose (by rw [guarded_ok run]; rfl) below⟩
      rw [guarded_ok run]
      simpa using Exposes.logical h operates which here.2 right
  | @matching op limit context right left s s1 s' e here kind operand use ih =>
    obtain ⟨k, same, which, ne, other⟩ : ∃ k, op.kind = .binary k ∧
        (k = .regexMatch ∨ k = .regexMismatch) ∧ k ≠ .assign ∧ k ≠ .arithmetic := by
      rcases kind with kind | kind <;> exact ⟨_, kind, by simp⟩
    obtain ⟨operates, first⟩ := said_operator e.start here same ne
    obtain ⟨ws, said, ⟨b, words⟩, -⟩ := ih trivial
    exact ⟨_, (first.trans said).use use,
      one fun before h => .matching h operates which here.2 words,
      loose rfl (loose_of_operates e.start here same other)⟩
  | @membership op limit left context s s1 s' e here kind var mark use =>
    obtain ⟨operates, first⟩ := said_operator e.start here kind (by simp)
    obtain ⟨k, same⟩ := isVariable_iff.mp var
    obtain ⟨t, g, rfl⟩ := markArray_ok mark
    obtain ⟨k', same'⟩ := var_of_word (g.word _ first.sound.current.valid) same
    refine ⟨_, ((first.grow g).pastKind same' rfl).use use, one fun before h => ?_,
      loose rfl (loose_of_operates e.start here kind (by simp))⟩
    exact .membership h operates here.2 ((isVariable_word _).trans (isVariable_iff.mpr ⟨k', same'⟩))
  | @pipe op limit left f context s s1 s' e here kind word use source ih =>
    obtain ⟨operates, first⟩ := said_operator e.start here kind (by simp)
    obtain ⟨t, g, rfl⟩ := useAsScalar_ok use
    obtain ⟨ws, said, ⟨⟨b, input⟩, plain⟩, ends⟩ :=
      ih (kind_of_word (g.word _ first.sound.current.valid) word (by simp))
    refine ⟨_, (first.grow g).trans said, fun f mem before h => ?_, fun f mem _ => ends f mem⟩
    rw [plain f mem]
    exact .pipe h operates here.2 input
  | conditional e here kind first colon second use use' use'' done ih ih' =>
    obtain ⟨operates, begun⟩ := said_operator e.start here kind (by simp)
    obtain ⟨ls1, start, lines1⟩ := begun.pastLines
    obtain ⟨ws, said, words, -⟩ := ih trivial
    obtain ⟨ls2, middle, lines2⟩ := (start.trans said).pastLines
    obtain ⟨ls3, last, lines3⟩ := (middle.pastKind colon rfl).pastLines
    obtain ⟨ws', said', words', -⟩ := ih' trivial
    have all := (((last.trans said').use use).use use').use use''
    have yes := (words _ mem_cons_self).lines lines1 lines2
    have no := (words' _ mem_cons_self).after lines3
    have below := loose_of_operates e.start here kind (by simp)
    rcases done with ⟨-, rfl, rfl⟩ | ⟨-, run⟩
    · exact ⟨_, (all.without _).without _, one fun before h => by
        simpa using Exposes.conditional h operates here.2 yes (word_kind colon rfl) no,
        loose rfl below⟩
    · refine ⟨_, ((all.without _).without _).writes (writes_choice _ _ _ _ _) run,
        one fun before h => ?_, loose (by rw [choice_ok run]; rfl) below⟩
      rw [choice_ok run]
      simpa using Exposes.conditional h operates here.2 yes (word_kind colon rfl) no
  | assignVariable e here kind changes value use mark ih =>
    obtain ⟨ws, said, words⟩ := says_value e.start here kind (ih trivial) use
    refine ⟨_, says_assignment e.start here kind (begins (.inl (by simp [changes])))
      (said.markScalar mark) fun p mem var same => ?_, one (words _),
      loose rfl (loose_of_operates e.start here kind (by simp))⟩
    obtain ⟨t, changed, rfl⟩ := changeTable_eq mark
    cases changes.symm.trans same
    have valid := Nat.lt_of_lt_of_le (e.start.prior p mem).valid said.table.size
    rw [isVariable_of_word ((grows_markScalar changed).word _ valid)] at var
    exact isScalar_of_markScalar changed var
  | assignElement e here kind changes value use ih
  | assignField e here kind changes value use ih =>
    obtain ⟨ws, said, words⟩ := says_value e.start here kind (ih trivial) use
    exact ⟨_, says_assignment e.start here kind (begins (.inl (by simp [changes]))) said
      fun _ _ _ same => (by cases changes.symm.trans same), one (words _),
      loose rfl (loose_of_operates e.start here kind (by simp))⟩
  | assignBy e here kind changes value use run ih =>
    obtain ⟨ws, said, words⟩ := says_value e.start here kind (ih trivial) use
    exact ⟨_, says_assignment e.start here kind (begins (.inl (by simp [changes])))
      (said.writes (writes_updateField _ _ _) run)
      fun _ _ _ same => (by cases changes.symm.trans same), one (words _),
      loose (by rw [updateField_ok run]; rfl) (loose_of_operates e.start here kind (by simp))⟩
  | @sign python context g s s1 s' e kind operand use ih =>
    obtain ⟨mark, first⟩ : ((∃ op, s.symbol.word.kind = .unary op) ∨
        ∃ unary binary, s.symbol.word.kind = .ambiguous unary binary) ∧
        s.Says s.past [s.symbol.word] := by
      rcases kind with ⟨unary, binary, kind, -⟩ | ⟨kind | kind, -⟩
      · exact ⟨.inr ⟨unary, binary, word_kind kind rfl⟩, e.said.pastKind kind rfl⟩
      all_goals exact ⟨.inl ⟨_, word_kind kind rfl⟩, e.said.pastKind kind rfl⟩
    obtain ⟨ws, said, words, ends⟩ := ih trivial
    have settled := (ends _ mem_cons_self (.inr (Nat.le_refl _))).use said.sound use
    exact ⟨_, (first.trans said).use use, one (.sign mark (words _ mem_cons_self)),
      one (settled.any _)⟩
  | @negation context g s s1 s' e kind operand use ih =>
    obtain ⟨ws, said, words, ends⟩ := ih trivial
    have settled := (ends _ mem_cons_self (.inr (Nat.le_refl _))).use said.sound use
    refine ⟨_, ((e.said.pastKind kind rfl).trans said).use use, one ?_, one (settled.any _)⟩
    have whole := Exposes.sign (.inl ⟨_, word_kind kind rfl⟩) (words _ mem_cons_self)
    split <;> exact whole
  | @stepBefore increment context g f s s1 s' e kind operand run ih =>
    obtain ⟨ws, said, words, ends⟩ := ih trivial
    have first := e.said.pastKind kind (by cases increment <;> rfl)
    obtain ⟨last, settled, plain⟩ := says_step (first.trans said) (ends _ mem_cons_self) run
    refine ⟨_, last, one ?_, one (settled.any _)⟩
    rw [plain]
    exact .stepBefore (word_kind kind rfl) (words _ mem_cons_self)
  | @stepAfter context g increment f s s1 s' e operand kind run ih =>
    obtain ⟨ws, said, words, -⟩ := ih trivial
    have passed := said.pastKind kind (by cases increment <;> rfl)
    obtain ⟨last, settled, plain⟩ := says_step passed (.past kind (by simp)) run
    refine ⟨_, last, one ?_, one (settled.any _)⟩
    rw [plain]
    exact .stepBehind (words _ mem_cons_self) (word_kind kind rfl)
  | plain e operand ih =>
    obtain ⟨ws, said, words, ends⟩ := ih trivial
    exact ⟨ws, said, fun f mem => .plain (words f mem), ends⟩
  | computedField e kind which index use ih =>
    have first := e.said.pastKind kind rfl
    have mark := word_kind kind rfl
    rcases which with ⟨rfl, -⟩ | ⟨rfl, -⟩ | rfl
    all_goals obtain ⟨ws, said, words, ends⟩ := ih trivial
    case inr.inl =>
      have settled := (ends _ mem_cons_self (.inr (by decide))).use said.sound use
      exact ⟨_, (first.trans said).use use, one (.field mark (words _ mem_cons_self)),
        one (settled.any _)⟩
    all_goals have settled := (ends _ mem_cons_self).use said.sound use
    · exact ⟨_, (first.trans said).use use, one (.field mark (.first (words _ mem_cons_self))),
        one (settled.any _)⟩
    · exact ⟨_, (first.trans said).use use,
        one (.field mark (.first (.plain (words _ mem_cons_self)))), one (settled.any _)⟩
  | @group g context s s1 e kind inner closed ih =>
    obtain ⟨ls, first, lines⟩ := (e.said.pastKind kind rfl).pastLines
    obtain ⟨ws, said, ⟨-, words⟩, -⟩ := ih trivial
    obtain ⟨ls', last, lines'⟩ := (first.trans said).pastLines
    refine ⟨_, last.pastKind closed rfl, one ?_, one (.past closed (by simp))⟩
    have whole := Exposes.group (word_kind kind rfl) ((words g rfl).lines lines lines')
      (word_kind closed rfl)
    simpa [grouped] using whole
  | @tuple args context s s1 e kind inner closed several ih =>
    obtain ⟨ls, first, lines⟩ := (e.said.pastKind kind rfl).pastLines
    obtain ⟨ws, said, ⟨⟨more, b, words, commas⟩, -⟩, -⟩ := ih trivial
    obtain ⟨ls', last, lines'⟩ := (first.trans said).pastLines
    refine ⟨_, last.pastKind closed rfl, one ?_, one (.past closed (by simp))⟩
    cases commas several
    have whole := Exposes.tuple (word_kind kind rfl) (words.lines lines lines')
      (word_kind closed rfl)
    simpa [atom] using whole
  | number e kind | string e kind | regexLiteral e kind | field e kind =>
    exact ⟨_, e.said.pastKind kind rfl, one (exposes_word (by simp [startsOperand, *])),
      one (.past kind (by simp))⟩
  | name e kind =>
    refine ⟨_, e.said.pastKind kind rfl, one (exposes_word (by simp [startsOperand, *])),
      one fun p mem _ => .inl ?_⟩
    rw [Cursor.advance_prior, Option.mem_some_iff] at mem
    rw [mem]
  | @element use args context s s1 s2 e kind bracket mark keys closed ih =>
    obtain ⟨t, changed, rfl⟩ := changeTable_eq mark
    have g := grows_markArray changed
    have var : s.symbol.isVariable := isVariable_iff.mpr ⟨use, kind⟩
    obtain ⟨use', kind'⟩ := var_of_word (g.word _ e.start.current.valid) kind
    have here := e.start.advance_current bracket (by simp) (by simp)
    have opened : (t.symbol s.cursor.advance.current.symbol).kind = .bracket .openBracket := by
      rw [here]
      exact kind_of_word (g.word _ (e.start.peek 1).valid) bracket (by simp)
    have first := (e.said.grow g).pastKind kind' rfl
    have second := first.pastLinked (by simp [opened]) fun p mem _ => by
      rw [Cursor.advance_prior, Option.mem_some_iff] at mem
      refine ⟨fun _ => mem ▸ isArray_of_markArray changed var, fun assign => ?_⟩
      simp [SymbolKind.isAssign, opened] at assign
    obtain ⟨ws, said, ⟨⟨more, b, words, -⟩, -⟩, -⟩ := ih trivial
    refine ⟨_, (second.trans said).pastKind closed rfl, one ?_, one (.past closed (by simp))⟩
    exact .element ((isVariable_word _).trans (isVariable_iff.mpr ⟨use', kind'⟩))
      (word_kind opened rfl) words (word_kind closed rfl)
  | @callLater use args context s s' e kind arguments called ih =>
    have kind' : s.noted.symbol.kind = .var use := (congrArg _ noted_symbol).trans kind
    obtain ⟨ws, said, words, ends⟩ := ih trivial
    have named := (isVariable_word s.noted.symbol).trans (isVariable_iff.mpr ⟨use, kind'⟩)
    exact ⟨_, (e.said.noted.pastKind kind' rfl).trans said, one (words _ (.inl named)),
      one (ends.any _)⟩
  | @function context f s s1 s' function e kind library behind ih =>
    obtain ⟨alike, depth⟩ := (writes_libraries _).ok library
    obtain ⟨ws, said, rest⟩ := ih (by
      change (symbol _ _).kind = _
      rw [alike.table, alike.current]
      exact kind)
    exact ⟨_, (e.said.alike alike depth).trans said, rest⟩
  | getlineAlone e kind behind ih =>
    obtain ⟨ws, said, ⟨⟨b, input⟩, plain⟩, ends⟩ := ih kind
    exact ⟨ws, said, fun f mem => plain f mem ▸ .input input, ends⟩
  | argument e isArgument inner ih =>
    obtain ⟨ws, said, words, -⟩ := ih trivial
    exact ⟨ws, said, words, trivial⟩
  | whole e inner use ih =>
    obtain ⟨ws, said, words, -⟩ := ih trivial
    exact ⟨ws, said.use use, words, trivial⟩
  | one e item ih =>
    obtain ⟨ws, said, words, -⟩ := ih trivial
    obtain ⟨ls, last, lines⟩ := said.passLines _
    have whole := (words _ mem_cons_self).upTo lines
    exact ⟨_, last, ⟨⟨false, _, .one whole, by simp⟩, fun f same => by cases same; exact whole⟩,
      trivial⟩
  | @more afterItem context afterComma args f s s1 s2 e before comma item ih ih' =>
    obtain ⟨ws, said, ⟨⟨more, b, words, -⟩, -⟩, -⟩ := ih trivial
    obtain ⟨ls, first, lines⟩ := (said.pastKind comma rfl).passLines afterComma
    obtain ⟨ws', said', words', -⟩ := ih' trivial
    obtain ⟨ls', last, lines'⟩ := (first.trans said').passLines afterItem
    refine ⟨_, last, ⟨⟨true, b || f.assigns, ?_, fun _ => rfl⟩, fun f' same => ?_⟩, trivial⟩
    · have whole := Exposes.more words (word_kind comma rfl)
        ((words' f mem_cons_self).lines lines lines')
      simpa using whole
    · -- something stands before the comma
      have some : args ≠ [] := by cases before <;> simp
      have short := congrArg List.length same
      simp only [length_append, length_cons, length_nil] at short
      exact absurd (length_eq_zero_iff.mp (by omega)) some
  | noArguments e opened closed =>
    obtain ⟨ls, first, lines⟩ := (e.said.pastKind opened rfl).pastLines
    refine ⟨_, first.pastKind closed rfl, fun w named => ?_, .past closed (by simp)⟩
    exact .callEmpty named (word_kind opened rfl) lines (word_kind closed rfl)
  | arguments e opened items closed ih =>
    obtain ⟨ls, first, lines⟩ := (e.said.pastKind opened rfl).pastLines
    obtain ⟨ws, said, ⟨⟨more, b, words, -⟩, -⟩, -⟩ := ih trivial
    refine ⟨_, (first.trans said).pastKind closed rfl, fun w named => ?_, .past closed (by simp)⟩
    have whole := Exposes.call named (word_kind opened rfl) (words.after lines)
      (word_kind closed rfl)
    simpa using whole
  | @user args context s s' function e strategy arguments ih =>
    have kind : s.noted.symbol.kind = .function function :=
      (congrArg _ noted_symbol).trans begins
    obtain ⟨ws, said, words, ends⟩ := ih trivial
    exact ⟨_, (e.said.noted.pastKind kind rfl).trans said,
      one (words _ (.inr (isFunction_word kind))), one (ends.any _)⟩
  | lengthAlone e strategy =>
    have kind := begins
    rw [Phrase.Begins] at kind
    exact ⟨_, e.said.pastKind kind rfl, one (exposes_word (by simp [startsOperand, *])),
      one (.past kind (by simp))⟩
  | @matchCall subject right context s s1 s2 function e strategy opened first comma second closed
      ih ih' =>
    have start := (called e.start begins).pastKind opened rfl
    obtain ⟨ws, said, words, -⟩ := ih trivial
    obtain ⟨ls, middle, lines⟩ := ((start.trans said).pastKind comma rfl).pastLines
    obtain ⟨ws', said', ⟨b, words'⟩, -⟩ := ih' trivial
    refine ⟨_, (middle.trans said').pastKind closed rfl, one ?_, one (.past closed (by simp))⟩
    have listed := Exposes.more (.one (words _ mem_cons_self)) (word_kind comma rfl)
      (words'.after lines)
    have whole := Exposes.call (.inr (isFunction_word begins)) (word_kind opened rfl) listed
      (word_kind closed rfl)
    simpa [atom] using whole
  | @split subject pieces f text context s s1 s2 s3 s' function e strategy opened first comma var
      mark last closed done spelled ih ih' =>
    have start := (called e.start begins).pastKind opened rfl
    obtain ⟨ws, said, words, -⟩ := ih trivial
    obtain ⟨ls, middle, lines⟩ := ((start.trans said).pastKind comma rfl).pastLines
    obtain ⟨use, kind⟩ := isVariable_iff.mp var
    obtain ⟨t, g, rfl⟩ := markArray_ok mark
    obtain ⟨use', kind'⟩ := var_of_word (g.word _ middle.sound.current.valid) kind
    have named := (middle.grow g).pastKind kind' rfl
    obtain ⟨ws', said', words', -⟩ := ih' trivial
    have array : Exposes .operand false [(t.symbol s1.past.pastLines.cursor.current.symbol).word] :=
      exposes_word (by simp [startsOperand, kind'])
    obtain ⟨several, b, listed⟩ := words' _ _ _ (Exposes.more (.one (words _ mem_cons_self))
      (word_kind comma rfl) (Exposes.after (.first (.plain array)) lines))
    have whole := Exposes.call (.inr (isFunction_word begins)) (word_kind opened rfl) listed
      (word_kind closed rfl)
    have end_ := (named.trans said').pastKind closed rfl
    have settled : Settled _ none := .past closed (by simp)
    rcases done with ⟨rfl, rfl⟩ | ⟨run, rfl⟩
    · exact ⟨_, end_, one (by simpa [atom] using whole), one (settled.any _)⟩
    · exact ⟨_, end_.writes (writes_emit _) run, one (by simpa [atom] using whole),
        one ((settled.alike ((writes_emit _).ok run).1).any _)⟩
  | @substitute everywhere left right targets new context s s1 s2 s3 s' function e strategy opened
      first comma second last closed made written ih ih' ih'' =>
    have start := (called e.start begins).pastKind opened rfl
    obtain ⟨ws, said, ⟨a, words⟩, -⟩ := ih trivial
    obtain ⟨ls, middle, lines⟩ := ((start.trans said).pastKind comma rfl).pastLines
    obtain ⟨ws', said', words', -⟩ := ih' trivial
    obtain ⟨ws'', said'', words'', -⟩ := ih'' trivial
    have end_ := ((middle.trans said').trans said'').pastKind closed rfl
    let counted : Session := { s3.past with temporaries := s3.temporaries + 1 }
    have before : s.Says counted _ := end_.alike ⟨rfl, rfl, rfl, rfl, rfl, rfl, fun _ => id⟩ rfl
    have settled : counted.Settled none := Settled.past (s := s3) closed (by simp)
    obtain ⟨several, b, listed⟩ := words'' _ _ _ (Exposes.more (.one words) (word_kind comma rfl)
      ((words' _ mem_cons_self).after lines))
    have whole := Exposes.call (.inr (isFunction_word begins)) (word_kind opened rfl) listed
      (word_kind closed rfl)
    obtain ⟨alike, depth⟩ := (writes_writeSubstitution _ _ _).ok written
    exact ⟨_, before.alike alike depth, one (by simpa [atom] using whole),
      one ((settled.alike alike).any _)⟩
  | separator e comma inner ih =>
    obtain ⟨ls, first, lines⟩ := (e.said.pastKind comma rfl).pastLines
    obtain ⟨ws, said, ⟨b, words⟩, -⟩ := ih trivial
    refine ⟨_, first.trans said, fun before several a h => ⟨true, a || b, ?_⟩, trivial⟩
    simpa using Exposes.more h (word_kind comma rfl) (words.after lines)
  | noSeparator e | substitutedRecord e =>
    exact ⟨[], .refl e.start, fun before several a h => ⟨several, a, by simpa using h⟩, trivial⟩
  | @substituted g s s' e comma inner ih =>
    obtain ⟨ls, first, lines⟩ := (e.said.pastKind comma rfl).pastLines
    obtain ⟨ws, said, words, -⟩ := ih trivial
    refine ⟨_, first.trans said, fun before several a h => ⟨true, a || g.assigns, ?_⟩, trivial⟩
    simpa using Exposes.more h (word_kind comma rfl) ((words _ mem_cons_self).after lines)
  | substr e strategy arguments run ih =>
    obtain ⟨ws, said, words, ends⟩ := ih trivial
    refine ⟨_, (called e.start begins).trans said, one ?_, one (ends.any _)⟩
    rw [substr_assigns run]
    exact words _ (.inr (isFunction_word begins))
  | sprintf e strategy arguments run ih =>
    obtain ⟨ws, said, words, ends⟩ := ih trivial
    exact ⟨_, ((called e.start begins).trans said).writes (writes_formatted _) run,
      one (words _ (.inr (isFunction_word begins))),
      one ((ends.alike ((writes_formatted _).ok run).1).any _)⟩
  | lengthEmpty e strategy arguments ih | lengthOf e strategy arguments same ih
  | method e strategy arguments ih | index e strategy arguments ih | call e strategy arguments ih =>
    obtain ⟨ws, said, words, ends⟩ := ih trivial
    exact ⟨_, (called e.start begins).trans said, one (words _ (.inr (isFunction_word begins))),
      one (ends.any _)⟩
  | regex e kind =>
    exact ⟨_, e.said.pastKind kind rfl,
      ⟨false, .first (.plain (exposes_word (by simp [startsOperand, *])))⟩, trivial⟩
  | @literalRegex context limit g s s1 s2 s' id e operand use literal string made plain ih =>
    obtain ⟨ws, said, words, -⟩ := ih trivial
    have used := said.use use
    refine ⟨ws, ?_, ⟨g.assigns, words _ mem_cons_self⟩, trivial⟩
    rw [made]
    exact used.grow (grows_regexForString _ (used.sound.proper.regular _) string)
  | @dynamicRegex context limit g s s1 s' e operand use plain ih =>
    obtain ⟨ws, said, words, -⟩ := ih trivial
    exact ⟨ws, said.use use, ⟨g.assigns, words _ mem_cons_self⟩, trivial⟩
  | @piecesLiteral text about s s' e kind moved =>
    obtain ⟨first, operand⟩ : s.Says s.past [s.symbol.word] ∧
        Exposes .operand false [s.symbol.word] := by
      rcases kind with kind | kind <;>
        exact ⟨e.said.pastKind kind rfl, exposes_word (by simp [startsOperand, *])⟩
    refine ⟨_, ?_, ⟨false, .first (.plain operand)⟩, trivial⟩
    rcases moved with rfl | ⟨string, rfl⟩
    · exact first
    · exact first.grow (grows_regexForString _ e.start.current.regular string)
  | @piecesBy g about s s' e inner computed ih =>
    obtain ⟨ws, said, words, -⟩ := ih trivial
    exact ⟨ws, said, ⟨g.assigns, words _ mem_cons_self⟩, trivial⟩
  | noTarget e =>
    exact ⟨[], .refl e.start, fun before a h => ⟨a, by simpa using h⟩, begins⟩
  | fromCommand e | fromInput e =>
    exact ⟨[], .refl e.start, fun before a h => ⟨a, by simpa using h⟩, fun _ => id⟩
  | getlineTarget e kind operand ih =>
    obtain ⟨ws, said, words, ends⟩ := ih trivial
    exact ⟨ws, said, fun before a h => ⟨false, .into h (words _ mem_cons_self)⟩,
      ends _ mem_cons_self⟩
  | fromFile e less operand use ih =>
    have first := e.said.pastKind (Sound.kind_of_less e.start less) rfl
    obtain ⟨ws, said, words, ends⟩ := ih trivial
    have settled := (ends _ mem_cons_self).use said.sound use
    exact ⟨_, (first.trans said).use use, fun before a h =>
      ⟨false, .source h less (words _ mem_cons_self)⟩, fun target _ => settled.any target⟩
  | @getline args command g s s1 s2 s' e target source done ih ih' =>
    have kind : (Session.symbol { s with hasMainLoop := true }).kind = .keyword .getline := begins
    have noticed : s.Says { s with hasMainLoop := true } [] :=
      e.said.alike ⟨rfl, rfl, rfl, rfl, rfl, rfl, fun _ => id⟩ rfl
    have first := noticed.pastKind kind rfl
    obtain ⟨ws, said, words, ends⟩ := ih (.past kind (by simp))
    obtain ⟨ws', said', words', ends'⟩ := ih' trivial
    obtain ⟨a, h⟩ := words _ _ (.getline (word_kind kind rfl))
    obtain ⟨b, h'⟩ := words' _ _ h
    have all := (first.trans said).trans said'
    have settled := ends' _ ends
    -- what is read into is at most one operand
    cases target with
    | noTarget e' =>
      rcases done with ⟨rfl, -⟩ | ⟨f, mem, -⟩
      · exact ⟨_, all, ⟨⟨b, h'⟩, one rfl⟩, one settled⟩
      · cases mem
    | @getlineTarget into _ _ e' kind operand =>
      rcases done with ⟨rfl, other⟩ | ⟨f, mem, id, changes, mark⟩
      · exact ⟨_, all, ⟨⟨b, h'⟩, one rfl⟩, one fun p prior var =>
          .inr ((settled p prior var).resolve_left (other into mem_cons_self _))⟩
      · cases mem_singleton.mp mem
        have named : s2.Settled (some (.var id)) := changes ▸ settled
        exact ⟨_, all.markScalar mark, ⟨⟨b, h'⟩, one rfl⟩, one (named.mark all.sound mark)⟩

lemma Reads.trip {phrase : Phrase} {s s' : Session} {fs : List Fragment}
    (h : Reads phrase s fs s') (begins : phrase.Begins s) : s.Trip s' ∧ phrase.Ends s fs s' := by
  obtain ⟨ws, said, -, ends⟩ := h.worded begins
  exact ⟨said.toTrip, ends⟩

end Expression

end AwkToPython
