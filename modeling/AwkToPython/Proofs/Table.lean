import AwkToPython.Proofs.Python.Helper
import AwkToPython.Proofs.Python.Opener
import AwkToPython.Proofs.Table.Initialiser
import Mathlib.Tactic.Common

/-!
# What stays of a symbol

While expressions are compiled, the table learns how variables are used and gets
new entries. All that decides how a token is read and written, the word of its
symbol, stays as it is, and what is known of a variable stays known.
-/
namespace AwkToPython

open Python (IsPlain startsCut endsCut inHelper)

variable {k k' : SymbolKind} {use : VariableUse} {c : Char} {s : Symbol} {line : Nat}

/-- A kind without what is known of a variable's use. -/
def SymbolKind.bare : SymbolKind → SymbolKind
  | .var _ => .var {}
  | kind => kind

/-- What is known of a variable stays known. -/
def SymbolKind.Learns (k k' : SymbolKind) : Prop :=
  ∀ use, k = .var use → ∃ use', k' = .var use' ∧ (use.isArray = true → use'.isArray = true) ∧
    (use.isScalar = true → use'.isScalar = true)

/-- The Python text of the symbol begins a text of its own. -/
def SymbolKind.beginsText : SymbolKind → Bool
  | .var _ | .function _ | .number | .string | .regex | .field _ => true
  | .unary op => op = .not || op = .minus || op = .plus
  | _ => false

/-- The symbol is an operator whose Python text stands right at its operands. -/
def SymbolKind.joins : SymbolKind → Bool
  | .binary _ => true
  | .unary op => op = .minus || op = .plus
  | _ => false

/-- The symbol is a variable or a function that the program defines. -/
def SymbolKind.isDefinable : SymbolKind → Bool
  | .var _ => true
  | .function f => f.strategy = .user
  | _ => false

/-- A symbol without what is known of its use. -/
def Symbol.word (s : Symbol) : Symbol := { s with kind := s.kind.bare, initial := "" }

/-- Marks and operators, with those that have no key, stand in front. -/
def Table.markCount : Nat :=
  (Symbol.marks ++ Symbol.unaryOperators ++ Symbol.binaryOperators).length

namespace SymbolKind

lemma eq_of_bare (h : k.bare = k') (plain : ∀ use, k' ≠ .var use) : k = k' := by
  cases k with
  | var use => exact absurd h.symm (plain {})
  | _ => exact h

lemma bare_of_ne_var (plain : ∀ use, k ≠ .var use) : k.bare = k := by
  cases k with
  | var use => exact absurd rfl (plain use)
  | _ => rfl

lemma beginsText_bare (k : SymbolKind) : k.bare.beginsText = k.beginsText := by
  cases k <;> rfl

lemma joins_bare (k : SymbolKind) : k.bare.joins = k.joins := by
  cases k <;> rfl

lemma isDefinable_bare (k : SymbolKind) : k.bare.isDefinable = k.isDefinable := by
  cases k <;> rfl

lemma Learns.refl (k : SymbolKind) : k.Learns k := fun use h => ⟨use, h, id, id⟩

lemma Learns.trans (h : k.Learns k') (h' : k'.Learns k'') : k.Learns k'' := by
  intro use same
  obtain ⟨use', same', array, scalar⟩ := h use same
  obtain ⟨use'', same'', array', scalar'⟩ := h' use' same'
  exact ⟨use'', same'', array' ∘ array, scalar' ∘ scalar⟩

end SymbolKind

namespace Symbol

variable {s s' : Symbol}

lemma isVariable_iff : s.isVariable ↔ ∃ use, s.kind = .var use := by
  rw [isVariable, variableUse?]
  cases s.kind <;> simp

lemma word_parts (h : s'.word = s.word) : s'.key = s.key ∧ s'.kind.bare = s.kind.bare ∧
    s'.awkLevel = s.awkLevel ∧ s'.pythonLevel = s.pythonLevel ∧ s'.python = s.python := by
  simpa [word] using h

lemma key_of_word (h : s'.word = s.word) : s'.key = s.key := (word_parts h).1

lemma bare_of_word (h : s'.word = s.word) : s'.kind.bare = s.kind.bare := (word_parts h).2.1

lemma awkLevel_of_word (h : s'.word = s.word) : s'.awkLevel = s.awkLevel :=
  (word_parts h).2.2.1

lemma pythonLevel_of_word (h : s'.word = s.word) : s'.pythonLevel = s.pythonLevel :=
  (word_parts h).2.2.2.1

lemma python_of_word (h : s'.word = s.word) : s'.python = s.python := (word_parts h).2.2.2.2

/-- A kind that says nothing of a use stays. -/
lemma kind_of_word (h : s'.word = s.word) (hk : s.kind = k)
    (plain : ∀ use, k ≠ .var use) : s'.kind = k := by
  apply SymbolKind.eq_of_bare _ plain
  rw [bare_of_word h, hk, SymbolKind.bare_of_ne_var plain]

lemma var_of_word (h : s'.word = s.word) (hk : s.kind = .var use) :
    ∃ use', s'.kind = .var use' := by
  have hb := bare_of_word h
  rw [hk] at hb
  cases hk' : s'.kind with
  | var use' => exact ⟨use', rfl⟩
  | _ => rw [hk'] at hb; cases hb

/-- The kind of a word stays, but for the use of a variable. -/
lemma kind_cases (h : s'.word = s.word) :
    (∃ use use', s.kind = .var use ∧ s'.kind = .var use') ∨ s'.kind = s.kind := by
  cases hk : s.kind with
  | var use =>
    obtain ⟨use', hk'⟩ := var_of_word h hk
    exact .inl ⟨use, use', rfl, hk'⟩
  | _ => exact .inr (kind_of_word h hk (by simp))

/-- A sign stands for an arithmetic operator after an operand, and for one that
begins a text before it. -/
def isPaired (s : Symbol) : Bool :=
  match s.kind with
  | .ambiguous unary binary =>
    binary < Table.markCount && (Table.initial.symbol binary).kind = .binary .arithmetic &&
      unary < Table.markCount &&
      (IsPlain (Table.initial.symbol unary).python && (Table.initial.symbol unary).kind.joins)
  | _ => true

/-- An operator between two operands. -/
def isBinary (s : Symbol) : Bool :=
  match s.kind with
  | .binary _ => true
  | _ => false

lemma isBinary_of_word (h : s'.word = s.word) : s'.isBinary = s.isBinary := by
  rcases kind_cases h with ⟨use, use', hk, hk'⟩ | hk' <;> simp [isBinary, *]

lemma isFunction_of_word (h : s'.word = s.word) : s'.isFunction = s.isFunction := by
  rcases kind_cases h with ⟨use, use', hk, hk'⟩ | hk' <;> simp [isFunction, *]

/-- The Python text is no attribute of the owner of a function's variables. -/
def isGlobal (s : Symbol) : Bool := !Text.startsWith "_locals." s.python

lemma isGlobal_of_head (head : s.python.toList.head? = some c) (ne : c ≠ '_') : s.isGlobal := by
  cases text : s.python.toList with
  | nil => rw [text] at head; cases head
  | cons first rest =>
    rw [text, List.head?_cons] at head
    cases head
    simp [isGlobal, Text.startsWith, text, List.isPrefixOf, ne.symm]

/-- The symbol has the key and the Python text of a name in a namespace. -/
def Names (s : Symbol) (space : Namespace) (bare : String) : Prop :=
  Name.isIdentifier bare = true ∧ s.key = space.key bare ∧ s.python = space.pythonName bare

/-- The symbol is the flag of a range. -/
def IsRangeFlag (s : Symbol) : Prop :=
  ∃ n : Nat, s.key = s!"<range {n}>" ∧ s.python = s!"self._range_{n}"

/-- How the Python text of a symbol comes about: names have that of their
namespace, and regexes and ranges are numbered. -/
structure Coined (s : Symbol) : Prop where
  global : s.isGlobal = true
  named : s.kind.isDefinable = true → (∃ space bare, s.Names space bare) ∨ s.IsRangeFlag
  regex : s.kind = .regex → ∃ n : Nat, s.python = s!"self._re_{n}"

/-- What neither is a name nor stands for a regex. -/
lemma coined_of_isGlobal (global : s.isGlobal) (kind : s.kind.isDefinable = false)
    (other : s.kind ≠ .regex) : s.Coined :=
  ⟨global, by simp [kind], fun same => absurd same other⟩

lemma coined_endOfInput : Symbol.endOfInput.Coined := coined_of_isGlobal rfl rfl nofun

lemma Coined.same (h : s.Coined) (key : s'.key = s.key) (python : s'.python = s.python)
    (kind : s'.kind.isDefinable → s.kind.isDefinable)
    (regex : s'.kind = .regex → s.kind = .regex) : s'.Coined := by
  refine ⟨?_, fun definable => ?_, fun same => ?_⟩
  · rw [isGlobal, python]
    exact h.global
  · rcases h.named (kind definable) with ⟨space, bare, named, key', python'⟩ | ⟨n, key', python'⟩
    · exact .inl ⟨space, bare, named, key.trans key', python.trans python'⟩
    · exact .inr ⟨n, key.trans key', python.trans python'⟩
  · rw [python]
    exact h.regex (regex same)

lemma Coined.of_word (h : s.Coined) (same : s'.word = s.word) : s'.Coined := by
  refine h.same (key_of_word same) (python_of_word same) (fun definable => ?_) fun regex =>
    kind_of_word same.symm regex (by simp)
  rw [← SymbolKind.isDefinable_bare, ← bare_of_word same, SymbolKind.isDefinable_bare]
  exact definable

/-- The symbol is not both an array and a scalar. -/
def isExclusive (s : Symbol) : Bool :=
  match s.kind with
  | .var use => !(use.isArray && use.isScalar)
  | _ => true

lemma isPaired_of_word (h : s'.word = s.word) : s'.isPaired = s.isPaired := by
  rcases kind_cases h with ⟨use, use', hk, hk'⟩ | hk' <;> simp [isPaired, *]

/-- A symbol that is spelled like a mark or an operator is that one, a keyword has
its Python text, and a sign its operator. No operator between operands binds as
tight as those at one operand, and none but a power tighter than a sign; no Python
text of an operand opens a block, a string is a string in Python, and the Python text
of an operator keeps its operands apart. -/
structure Regular (s : Symbol) : Prop where
  mark : ∀ e ∈ marks ++ binaryOperators, e.keyed = true → s.key = e.symbol.key →
    s.kind = e.symbol.kind
  keyword : ∀ e ∈ keywords, s.kind = e.symbol.kind → s.python = e.symbol.python
  paired : s.isPaired = true
  loose : s.isBinary = true → 3 ≤ s.awkLevel ∧ (s.kind = .binary .arithmetic ∨ 5 ≤ s.awkLevel)
  plain : s.kind.beginsText = true → IsPlain s.python
  quoted : s.kind = .string → s.python.toList.head? = some '"'
  cut : s.kind.joins = true → startsCut s.python = true ∧ endsCut s.python = true ∧
    (s.kind = .binary .assign → s.python.toList.all (fun c => !inHelper c) = true)

lemma Regular.of_word (h : s.Regular) (same : s'.word = s.word) : s'.Regular := by
  refine ⟨?_, ?_, (isPaired_of_word same).trans h.paired, ?_, ?_, ?_, ?_⟩
  · intro e he keyed key
    rw [key_of_word same] at key
    refine kind_of_word same (h.mark e he keyed key) ?_
    have all : ∀ e ∈ marks ++ binaryOperators, e.symbol.kind.bare = e.symbol.kind ∧
        e.symbol.kind ≠ .var {} := by decide
    intro use var
    have := all e he
    rw [var] at this
    exact this.2 this.1.symm
  · intro e he kind
    rw [python_of_word same]
    refine h.keyword e he (kind_of_word same.symm kind ?_)
    have all : ∀ e ∈ keywords, e.symbol.kind.bare = e.symbol.kind ∧ e.symbol.kind ≠ .var {} := by
      decide
    intro use var
    have := all e he
    rw [var] at this
    exact this.2 this.1.symm
  · intro binary
    rw [isBinary_of_word same] at binary
    rw [awkLevel_of_word same]
    refine ⟨(h.loose binary).1, (h.loose binary).2.imp_left fun kind => ?_⟩
    exact kind_of_word same kind (by simp)
  · rw [← SymbolKind.beginsText_bare, bare_of_word same, SymbolKind.beginsText_bare,
      python_of_word same]
    exact h.plain
  · intro kind
    rw [python_of_word same]
    exact h.quoted (kind_of_word same.symm kind (by simp))
  · rw [← SymbolKind.joins_bare, bare_of_word same, SymbolKind.joins_bare, python_of_word same]
    intro joins
    obtain ⟨starts, ends, assign⟩ := h.cut joins
    exact ⟨starts, ends, fun kind => assign (kind_of_word same.symm kind (by simp))⟩

/-- A string is written as the literal of its value, and no other operand begins with a
quote. -/
structure Spelled (s : Symbol) : Prop where
  literal : s.kind = .string → ∃ value, s.python = Literal.python value
  unquoted : s.kind.beginsText = true → s.kind ≠ .string → s.python.toList.head? ≠ some '"'

lemma spelled_of_head (kind : s.kind ≠ .string)
    (head : s.python.toList.head? = some c) (ne : c ≠ '"') : s.Spelled :=
  ⟨fun string => absurd string kind, fun _ _ => by simpa [head] using ne⟩

lemma Spelled.of_word (h : s.Spelled) (same : s'.word = s.word) : s'.Spelled := by
  have python := python_of_word same
  refine ⟨fun kind => ?_, fun begins other => ?_⟩ <;> rw [python]
  · exact h.literal (kind_of_word same.symm kind (by simp))
  · refine h.unquoted ?_ fun kind => other (kind_of_word same kind (by simp))
    rwa [← SymbolKind.beginsText_bare, ← bare_of_word same, SymbolKind.beginsText_bare]

/-- A symbol that can be added to any table. -/
structure Fits (s : Symbol) : Prop where
  regular : s.Regular
  exclusive : s.isExclusive = true
  coined : s.Coined
  primed : s.isPrimed = true
  builtIn : s.isBuiltIn = false
  spelled : s.Spelled
  function : s.isFunction = false

/-- No mark is spelled like a comment, a string or a regex. -/
lemma mark_key : ∀ e ∈ marks ++ binaryOperators,
    e.symbol.key.toList.head? ≠ some '#' ∧ e.symbol.key.toList.head? ≠ some '"' ∧
      ¬(e.symbol.key.toList.head? = some '/' ∧ e.symbol.key.toList.getLast? = some '/' ∧
        2 ≤ e.symbol.key.toList.length) := by
  decide

lemma isPlain_regex (n : Nat) : IsPlain s!"self._re_{n}" :=
  IsPlain.append (by decide : IsPlain "self._re_") (toString n)

lemma fits_regex {key initial : String} (n : Nat)
    (unmarked : ∀ e ∈ marks ++ binaryOperators, key ≠ e.symbol.key) (some_ : initial ≠ "") :
    Fits { key, kind := .regex, python := s!"self._re_{n}", initial } := by
  refine ⟨⟨fun e he _ same => absurd same (unmarked e he), by simp [keywords, keywordEntry], rfl,
    nofun, fun _ => isPlain_regex n, nofun, nofun⟩, rfl,
    ⟨isGlobal_of_head (c := 's') ?_ (by decide), nofun, fun _ => ⟨n, rfl⟩⟩, ?_, rfl,
    spelled_of_head (c := 's') (by simp) ?_ (by decide), rfl⟩
  · simp [toString]
  · simpa [isPrimed] using some_
  · simp [toString]

/-- The key of a range's flag is no word of the language. -/
lemma fits_rangeFlag (n : Nat) :
    Fits { key := s!"<range {n}>", kind := .var { isScalar := true },
           python := s!"self._range_{n}", initial := "False" } := by
  refine ⟨⟨fun e he _ same => ?_, by simp [keywords, keywordEntry], rfl, nofun,
    fun _ => IsPlain.append (by decide : IsPlain "self._range_") (toString n), nofun, nofun⟩, rfl,
    ⟨isGlobal_of_head (c := 's') ?_ (by decide), fun _ => .inr ⟨n, rfl, rfl⟩, nofun⟩, rfl, rfl,
    spelled_of_head (c := 's') (by simp) ?_ (by decide), rfl⟩
  · have all : ∀ e ∈ marks ++ binaryOperators, e.symbol.key.toList.take 2 ≠ ['<', 'r'] := by decide
    exact absurd (by rw [← same]; simp [toString]) (all e he)
  all_goals simp [toString]

end Symbol

namespace Table

variable {t t' : Table} {id : SymbolId}

/-- No variable is both an array and a scalar, all symbols are regular, the marks
can be looked up, and the regexes made of strings have a Python text of their own. -/
structure Proper (t : Table) : Prop where
  exclusive : ∀ id, (t.symbol id).isExclusive = true
  regular : ∀ id, (t.symbol id).Regular
  regexes : ∀ e ∈ t.stringRegexes, e.2 < t.size ∧ IsPlain (t.symbol e.2).python
  marks : ∀ e ∈ Symbol.marks ++ Symbol.binaryOperators, e.keyed = true →
    (t.find? e.symbol.key).isSome = true
  valid : ∀ key id, t.find? key = some id → id < t.size

/-- All symbols are spelled as their kinds say. -/
def Spelled (t : Table) : Prop := ∀ id, (t.symbol id).Spelled

/-- Every entry keeps its word and what is known of it, and others may be added. -/
structure Grows (t t' : Table) : Prop where
  size : t.size ≤ t'.size
  word : ∀ id < t.size, (t'.symbol id).word = (t.symbol id).word
  learns : ∀ id < t.size, (t.symbol id).kind.Learns (t'.symbol id).kind
  fresh : ∀ id, t.size ≤ id → id < t'.size → (t'.symbol id).Coined
  proper : t.Proper → t'.Proper
  primes : t.Primes t'
  builtIn : ∀ id, (t'.symbol id).isBuiltIn = (t.symbol id).isBuiltIn
  spelled : t.Spelled → t'.Spelled
  functions : ∀ id, (t'.symbol id).isFunction = (t.symbol id).isFunction

namespace Grows

lemma refl (t : Table) : t.Grows t :=
  ⟨Nat.le_refl _, fun _ _ => rfl, fun _ _ => .refl _,
    fun _ above below => absurd below (Nat.not_lt.mpr above), id, .refl t, fun _ => rfl, id,
    fun _ => rfl⟩

lemma trans (h : t.Grows t') (h' : t'.Grows t'') : t.Grows t'' := by
  refine ⟨Nat.le_trans h.size h'.size,
    fun id bound => (h'.word id (Nat.lt_of_lt_of_le bound h.size)).trans (h.word id bound),
    fun id bound => (h.learns id bound).trans (h'.learns id (Nat.lt_of_lt_of_le bound h.size)),
    fun id above below => ?_, h'.proper ∘ h.proper, h.primes.trans h'.primes h.size,
    fun id => (h'.builtIn id).trans (h.builtIn id), h'.spelled ∘ h.spelled,
    fun id => (h'.functions id).trans (h.functions id)⟩
  rcases Nat.lt_or_ge id t'.size with old | new
  · exact (h.fresh id above old).of_word (h'.word id old)
  · exact h'.fresh id new below

end Grows

/-- The marks and operators stand at their places. -/
structure Marked (t : Table) : Prop where
  size : markCount ≤ t.size
  word : ∀ id < markCount, (t.symbol id).word = (initial.symbol id).word

lemma initial_marked : initial.Marked := ⟨by decide, fun _ _ => rfl⟩

lemma Marked.grows (h : t.Marked) (g : t.Grows t') : t'.Marked :=
  ⟨Nat.le_trans h.size g.size, fun id bound =>
    (g.word id (Nat.lt_of_lt_of_le bound h.size)).trans (h.word id bound)⟩

lemma word_set (same : s.word = (t.symbol id).word)
    (other : SymbolId) : ((t.set id s).symbol other).word = (t.symbol other).word := by
  rw [symbol_set]
  split
  case isTrue h => rw [same, h.1]
  case isFalse => rfl

lemma grows_set (old : (t.symbol id).kind = .var use) (new : s.kind = .var use')
    (same : s.word = (t.symbol id).word) (array : use.isArray → use'.isArray)
    (scalar : use.isScalar → use'.isScalar)
    (exclusive : (use'.isArray && use'.isScalar) = false) (builtIn : use'.builtIn = use.builtIn)
    (primed : (t.symbol id).isPrimed → s.isPrimed) : t.Grows (t.set id s) := by
  have word := word_set same
  have var : (t.symbol id).isVariable := by
    simp [Symbol.isVariable, Symbol.variableUse?, old]
  refine ⟨by simp, fun other _ => word other, fun other _ => ?_, fun other above below => ?_,
    fun proper => ⟨fun other => ?_, fun other => (proper.regular other).of_word (word other),
      fun e mem => ?_, proper.marks, fun key other found => ?_⟩,
    .set var (Symbol.key_of_word same) (by simp [new]) primed, fun other => ?_,
    fun spelled other => (spelled other).of_word (word other),
    fun other => Symbol.isFunction_of_word (word other)⟩
  · rw [symbol_set]
    split
    case isTrue h =>
      rw [← h.1, old, new]
      intro use'' same
      cases same
      exact ⟨use', rfl, array, scalar⟩
    case isFalse => exact .refl _
  · exact absurd (by simpa using below) (Nat.not_lt.mpr above)
  · rw [symbol_set]
    split
    case isTrue h => simp [Symbol.isExclusive, new, exclusive]
    case isFalse => exact proper.exclusive other
  · obtain ⟨bound, plain⟩ := proper.regexes e mem
    refine ⟨by simpa using bound, ?_⟩
    rwa [Symbol.python_of_word (word e.2)]
  · simpa using proper.valid key other found
  · rw [symbol_set]
    split
    case isTrue h => simp [Symbol.isBuiltIn, Symbol.variableUse?, ← h.1, old, new, builtIn]
    case isFalse => rfl

lemma grows_add (gains : t.Gains s t') (fits : s.Fits)
    (orderly : t.Orderly → t'.Orderly) : t.Grows t' := by
  refine ⟨by rw [gains.size]; omega, fun id bound => by rw [gains.old bound],
    fun id bound => by rw [gains.old bound]; exact .refl _, fun id above below => ?_,
    fun proper => ⟨fun id => ?_, fun id => ?_, fun e mem => ?_, fun e he keyed => ?_,
      fun key id found => ?_⟩, .add gains fits.primed orderly, fun id => ?_,
    fun spelled id => ?_, fun id => ?_⟩
  · rcases gains.eq_or_lt below with rfl | old
    · rw [gains.new]
      exact fits.coined
    · exact absurd old (Nat.not_lt.mpr above)
  · rw [gains.symbol]
    split
    · exact fits.exclusive
    · exact proper.exclusive id
  · rw [gains.symbol]
    split
    · exact fits.regular
    · exact proper.regular id
  · rcases gains.regexes e mem with old | ⟨new, regex⟩
    · obtain ⟨bound, plain⟩ := proper.regexes e old
      exact ⟨by rw [gains.size]; exact Nat.lt_succ_of_lt bound, by rwa [gains.old bound]⟩
    · rw [new, gains.new]
      exact ⟨by rw [gains.size]; exact Nat.lt_succ_self _, fits.regular.plain (by rw [regex]; rfl)⟩
  · rcases gains.find e.symbol.key with same | same <;> rw [same]
    · exact proper.marks e he keyed
    · rfl
  · rw [gains.size]
    rcases gains.find key with same | same <;> rw [same] at found
    · exact Nat.lt_succ_of_lt (proper.valid key id found)
    · cases found
      exact Nat.lt_succ_self _
  · rw [gains.symbol]
    split
    case isTrue new => rw [fits.builtIn, new, symbol_of_size_le (Nat.le_refl _)]; rfl
    case isFalse => rfl
  · rw [gains.symbol]
    split
    · exact fits.spelled
    · exact spelled id
  · rw [gains.symbol]
    split
    case isTrue new => rw [fits.function, new, symbol_of_size_le (Nat.le_refl _)]; rfl
    case isFalse => rfl

lemma grows_markArray (h : t.markArray id line = .ok t') : t.Grows t' := by
  rw [markArray] at h
  cases hk : (t.symbol id).kind with
  | var use =>
    simp only [hk] at h
    split at h
    · cases h
    case isFalse scalar =>
      split at h
      · cases h
        exact .refl t
      case isFalse array =>
        cases h
        refine grows_set hk rfl (by simp [Symbol.word, SymbolKind.bare, hk]) (fun _ => rfl)
          (fun known => known) (by simpa using scalar) rfl fun primed => ?_
        simp only [Symbol.isPrimed, hk] at primed ⊢
        split at primed <;> simp_all [emptyArray]
  | _ =>
    simp only [hk] at h
    cases h
    exact .refl t

lemma grows_markScalar (h : t.markScalar id line = .ok t') : t.Grows t' := by
  rw [markScalar] at h
  cases hk : (t.symbol id).kind with
  | var use =>
    simp only [hk] at h
    split at h
    · cases h
    case isFalse array =>
      cases h
      refine grows_set hk rfl (by simp [Symbol.word, SymbolKind.bare, hk])
        (fun known => known) (fun _ => rfl) (by simpa using array) rfl ?_
      simp only [Symbol.isPrimed, hk]
      split <;> simp_all
  | _ =>
    simp only [hk] at h
    cases h
    exact .refl t

lemma compiledString_ne (literal : String) : Literal.compiledString literal ≠ "" := by
  unfold Literal.compiledString
  intro same
  rw [String.append_eq_empty_iff] at same
  exact absurd same.2 (by decide)

lemma grows_addRegex (t : Table) (key initial : String)
    (unmarked : ∀ e ∈ Symbol.marks ++ Symbol.binaryOperators, key ≠ e.symbol.key)
    (some_ : initial ≠ "")
    (gains : t.Gains { key, kind := .regex, python := s!"self._re_{t.regexCount}", initial } t')
    (count : t'.regexCount = t.regexCount + 1)
    (made : t'.stringRegexes = t.stringRegexes ∧ key.toList.head? = some '/' ∨
      ∃ string, t'.stringRegexes = (string, t.size) :: t.stringRegexes ∧
        t.stringRegexes.lookup string = none ∧ (t.symbol string).kind = .string ∧
        key = (t.symbol string).python) : t.Grows t' :=
  grows_add gains (Symbol.fits_regex _ unmarked some_) fun h => h.addRegex gains count rfl rfl made

lemma grows_regex (t : Table) (body : String) : t.Grows (t.regex body).2 := by
  refine grows_addRegex t ("/" ++ body ++ "/") (Literal.compiledRegex body)
    (fun e he same => (Symbol.mark_key e he).2.2 ?_)
    (by simp [Literal.compiledRegex]) (gains_regex t body) rfl (.inl ⟨rfl, by simp⟩)
  rw [← same]
  simp [List.getLast?_cons]

lemma grows_regexForString (t : Table) (regular : (t.symbol id).Regular)
    (string : (t.symbol id).kind = .string) : t.Grows (t.regexForString id).2 := by
  cases known : t.stringRegexes.lookup id with
  | some regex =>
    rw [regexForString, known]
    exact .refl t
  | none =>
    let literal := (t.symbol id).python
    let symbol : Symbol := { key := literal, kind := .regex, python := s!"self._re_{t.regexCount}",
                             initial := Literal.compiledString literal }
    have gains : t.Gains symbol (t.regexForString id).2 := by
      rw [regexForString, known]
      refine ⟨rfl, fun _ => .inl rfl, fun e mem => ?_⟩
      rcases List.mem_cons.mp mem with rfl | mem
      · exact .inr ⟨rfl, rfl⟩
      · exact .inl mem
    refine grows_addRegex t literal (Literal.compiledString literal)
      (fun e he same => (Symbol.mark_key e he).2.1 (by rw [← same]; exact regular.quoted string))
      (compiledString_ne literal) gains ?_ (.inr ⟨id, ?_, known, string, rfl⟩) <;>
    · rw [regexForString, known]
      rfl

lemma grows_rangeFlag (t : Table) : t.Grows t.rangeFlag.2 := by
  refine grows_add ⟨rfl, fun _ => .inl rfl, fun _ mem => .inl mem⟩
    (Symbol.fits_rangeFlag t.rangeCount) fun h =>
      h.add ⟨rfl, fun _ => .inl rfl, fun _ mem => .inl mem⟩ rfl rfl (by simp) fun _ mem => ?_
  have all : ∀ word ∈ Name.sharedKeywords, word.toList.head? ≠ some '<' := by decide
  exact all _ mem (by simp [toString])

end Table

end AwkToPython
