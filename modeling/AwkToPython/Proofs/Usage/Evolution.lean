import AwkToPython.Proofs.Token.Reading
import AwkToPython.Proofs.Usage.Trip

/-!
# How a table changes between items

Inside an item a table only grows. Between items a name that was read as a
variable may become a function, as long as nothing is known of its use, and the
symbols of a function's parameters are others while its body is compiled.
-/
namespace AwkToPython

open AwkToPython.Symbol

open Python (IsComment IsPlain)

/-- A symbol that can stand in for a variable. -/
structure Symbol.Stands (s : Symbol) : Prop where
  regular : s.Regular
  exclusive : s.isExclusive = true
  plain : IsPlain s.python

namespace Table

variable {t t' t'' : Table} {id : SymbolId}

/-- Other symbols stand in for some variables. -/
structure Swaps (t t' : Table) : Prop where
  size : t'.size = t.size
  index : t'.index = t.index
  regexes : t'.stringRegexes = t.stringRegexes
  symbol : ∀ id, t'.symbol id = t.symbol id ∨
    (t.symbol id).isVariable = true ∧ (t'.symbol id).Stands
  orderly : t.Orderly → t'.Orderly

namespace Swaps

lemma refl (t : Table) : t.Swaps t := ⟨rfl, rfl, rfl, fun _ => .inl rfl, id⟩

lemma trans (h : t.Swaps t') (h' : t'.Swaps t'') : t.Swaps t'' := by
  refine ⟨h'.size.trans h.size, h'.index.trans h.index, h'.regexes.trans h.regexes, fun id => ?_,
    h'.orderly ∘ h.orderly⟩
  rcases h.symbol id with same | ⟨var, stands⟩
  · rw [← same]
    exact h'.symbol id
  · rcases h'.symbol id with same' | ⟨-, stands'⟩
    · exact .inr ⟨var, same' ▸ stands⟩
    · exact .inr ⟨var, stands'⟩

lemma set (var : (t.symbol id).isVariable) (stands : s.Stands)
    (key : s.key = (t.symbol id).key) (regex : s.kind ≠ .regex) : t.Swaps (t.set id s) := by
  refine ⟨size_set t id s, rfl, rfl, fun other => ?_, fun h => h.set var key regex⟩
  rw [symbol_set]
  split
  case isTrue same => exact .inr ⟨same.1 ▸ var, stands⟩
  case isFalse => exact .inl rfl

lemma stands (h : t.Swaps t') (proper : t.Proper) (id : SymbolId) :
    (t'.symbol id).Regular ∧ (t'.symbol id).isExclusive := by
  rcases h.symbol id with same | ⟨-, stands⟩
  · rw [same]
    exact ⟨proper.regular id, proper.exclusive id⟩
  · exact ⟨stands.regular, stands.exclusive⟩

lemma find (h : t.Swaps t') (key : String) : t'.find? key = t.find? key := by
  rw [find?, find?, h.index]

lemma proper (h : t.Swaps t') (proper : t.Proper) : t'.Proper := by
  refine ⟨fun id => (h.stands proper id).2, fun id => (h.stands proper id).1, fun e mem => ?_,
    fun e he keyed => ?_, fun key id found => ?_⟩
  · rw [h.regexes] at mem
    obtain ⟨bound, plain⟩ := proper.regexes e mem
    refine ⟨h.size ▸ bound, ?_⟩
    rcases h.symbol e.2 with same | ⟨-, stands⟩
    · rwa [same]
    · exact stands.plain
  · rw [h.find]
    exact proper.marks e he keyed
  · rw [h.find] at found
    rw [h.size]
    exact proper.valid key id found

end Swaps

lemma Marked.not_isVariable (h : t.Marked) (bound : id < markCount) :
    (t.symbol id).isVariable = false := by
  have all : ∀ id < markCount, (initial.symbol id).isVariable = false := by decide +kernel
  rw [isVariable_of_word (h.word id bound)]
  exact all id bound

lemma Swaps.marked (h : t.Swaps t') (marked : t.Marked) : t'.Marked := by
  refine ⟨h.size ▸ marked.size, fun id bound => ?_⟩
  rcases h.symbol id with same | ⟨var, -⟩
  · rw [same]
    exact marked.word id bound
  · rw [marked.not_isVariable bound] at var
    cases var

end Table

lemma Token.Sound.swap {token : Token} (h : token.Sound t) (swaps : t.Swaps t') :
    token.Sound t' := by
  rcases swaps.symbol token.symbol with same | ⟨var, stands⟩
  · refine ⟨swaps.size ▸ h.valid, ?_, ?_, ?_⟩ <;> rw [same]
    · exact h.newline
    · exact h.comment
    · exact h.regular
  · -- a variable is neither a line end nor a comment
    obtain ⟨use, kind⟩ := Symbol.isVariable_iff.mp var
    refine ⟨swaps.size ▸ h.valid, fun line => ?_, fun comment => ?_, stands.regular⟩
    · cases kind.symm.trans (h.newline line)
    · have plain := h.regular.plain (by rw [kind]; rfl)
      have mark : (t.symbol token.symbol).python.toList.head? = some '#' := h.comment comment
      rw [IsPlain] at plain
      cases text : (t.symbol token.symbol).python.toList with
      | nil => simp [text] at mark
      | cons c rest =>
        simp only [text, List.head?_cons, Option.some.injEq] at mark
        rw [text, mark] at plain
        cases rest <;> simp [Python.plainStart] at plain

lemma Session.Sound.swap {s : Session} (h : s.Sound) (swaps : s.table.Swaps t) :
    Session.Sound { s with table := t } := by
  refine ⟨swaps.marked h.marked, swaps.proper h.proper, fun x mem => (h.tokens x mem).swap swaps,
    fun x mem => ⟨(h.comments x mem).1.swap swaps, (h.comments x mem).2⟩,
    fun x mem => (h.prior x mem).swap swaps, h.lastWord, ?_⟩
  change (t.symbol s.cursor.last.symbol).kind = .endOfInput
  rcases swaps.symbol s.cursor.last.symbol with same | ⟨var, -⟩
  · rw [same]
    exact h.ends
  · obtain ⟨use, kind⟩ := Symbol.isVariable_iff.mp var
    cases kind.symm.trans h.ends

/-! ### From item to item -/

namespace Table

variable {t t' t'' : Table} {id : SymbolId}

/-- Nothing is known of the use of a variable. -/
def isUnused (t : Table) (id : SymbolId) : Bool :=
  (t.symbol id).isVariable && !t.isArray id && !t.isScalar id

/-- Every entry keeps its word and what is known of it, but a variable may become
a function while nothing is known of its use. -/
structure Evolves (t t' : Table) : Prop where
  size : t.size ≤ t'.size
  keeps : ∀ id < t.size,
    (t'.symbol id).word = (t.symbol id).word ∧
      (t.symbol id).kind.Learns (t'.symbol id).kind ∨
    t.isUnused id = true ∧ (t'.symbol id).isFunction = true ∧
      (t'.symbol id).key = (t.symbol id).key ∧ (t'.symbol id).python = (t.symbol id).python
  fresh : ∀ id, t.size ≤ id → id < t'.size → (t'.symbol id).Coined
  proper : t.Proper → t'.Proper
  /-- A function that a variable becomes is one that the program defines. -/
  definable : ∀ id, (t.symbol id).kind.isDefinable = true → (t'.symbol id).kind.isDefinable = true
  spelled : t.Spelled → t'.Spelled

lemma Grows.definable (h : t.Grows t') (definable : (t.symbol id).kind.isDefinable) :
    (t'.symbol id).kind.isDefinable := by
  have inside : id < t.size :=
    lt_size fun kind => by simp [kind, SymbolKind.isDefinable] at definable
  rwa [← SymbolKind.isDefinable_bare, bare_of_word (h.word id inside),
    SymbolKind.isDefinable_bare]

lemma Grows.evolves (h : t.Grows t') : t.Evolves t' :=
  ⟨h.size, fun id bound => .inl ⟨h.word id bound, h.learns id bound⟩, h.fresh, h.proper,
    fun _ => h.definable, h.spelled⟩

namespace Evolves

lemma isArray (h : t.Evolves t') (array : t.isArray id) : t'.isArray id := by
  rcases h.keeps id (lt_size_of_isArray array) with ⟨-, learns⟩ | ⟨unused, -⟩
  · obtain ⟨use, kind, isArray⟩ := isArray_iff.mp array
    obtain ⟨use', kind', keeps, -⟩ := learns use kind
    exact isArray_iff.mpr ⟨use', kind', keeps isArray⟩
  · simp [isUnused, array] at unused

lemma isScalar (h : t.Evolves t') (scalar : t.isScalar id) : t'.isScalar id := by
  rcases h.keeps id (lt_size_of_isScalar scalar) with ⟨-, learns⟩ | ⟨unused, -⟩
  · obtain ⟨use, kind, isScalar⟩ := isScalar_iff.mp scalar
    obtain ⟨use', kind', -, keeps⟩ := learns use kind
    exact isScalar_iff.mpr ⟨use', kind', keeps isScalar⟩
  · simp [isUnused, scalar] at unused

lemma isFunction_not_isVariable {s : Symbol} (h : s.isFunction) : s.isVariable = false := by
  cases kind : s.kind <;> simp_all [isFunction, isVariable, variableUse?]

/-- What is a variable now has always been one, with the same word. -/
lemma word_of_isVariable (h : t.Evolves t') (bound : id < t.size)
    (var : (t'.symbol id).isVariable) : (t'.symbol id).word = (t.symbol id).word := by
  rcases h.keeps id bound with ⟨word, -⟩ | ⟨-, function, -⟩
  · exact word
  · rw [isFunction_not_isVariable function] at var
    cases var

/-- A name that becomes a function has the same key and the same Python text. -/
lemma coined (h : t.Evolves t') (bound : id < t.size) (coined : (t.symbol id).Coined) :
    (t'.symbol id).Coined := by
  rcases h.keeps id bound with ⟨word, -⟩ | ⟨unused, function, key, python⟩
  · exact coined.of_word word
  · simp only [isUnused, Bool.and_eq_true] at unused
    obtain ⟨use, kind⟩ := isVariable_iff.mp unused.1.1
    refine coined.same key python (fun _ => by rw [kind]; rfl) fun regex => ?_
    simp [isFunction, regex] at function

lemma isUnused_back (word : (t'.symbol id).word = (t.symbol id).word)
    (learns : (t.symbol id).kind.Learns (t'.symbol id).kind) (unused : t'.isUnused id) :
    t.isUnused id := by
  simp only [isUnused, Bool.and_eq_true, Bool.not_eq_true'] at unused ⊢
  refine ⟨⟨isVariable_of_word word ▸ unused.1.1, ?_⟩, ?_⟩
  · rw [Bool.eq_false_iff]
    intro array
    obtain ⟨use, kind, isArray⟩ := isArray_iff.mp array
    obtain ⟨use', kind', keeps, -⟩ := learns use kind
    rw [isArray_iff.mpr ⟨use', kind', keeps isArray⟩] at unused
    cases unused.1.2
  · rw [Bool.eq_false_iff]
    intro scalar
    obtain ⟨use, kind, isScalar⟩ := isScalar_iff.mp scalar
    obtain ⟨use', kind', -, keeps⟩ := learns use kind
    rw [isScalar_iff.mpr ⟨use', kind', keeps isScalar⟩] at unused
    cases unused.2

lemma trans (h : t.Evolves t') (h' : t'.Evolves t'') : t.Evolves t'' := by
  refine ⟨Nat.le_trans h.size h'.size, fun id bound => ?_, fun id above below => ?_,
    h'.proper ∘ h.proper, fun id => h'.definable id ∘ h.definable id, h'.spelled ∘ h.spelled⟩
  · have bound' := Nat.lt_of_lt_of_le bound h.size
    rcases h.keeps id bound with ⟨word, learns⟩ | ⟨unused, function, key, python⟩
    · rcases h'.keeps id bound' with ⟨word', learns'⟩ | ⟨unused', function', key', python'⟩
      · exact .inl ⟨word'.trans word, learns.trans learns'⟩
      · exact .inr ⟨isUnused_back word learns unused', function',
          key'.trans (key_of_word word), python'.trans (python_of_word word)⟩
    · rcases h'.keeps id bound' with ⟨word', -⟩ | ⟨unused', -⟩
      · exact .inr ⟨unused, isFunction_of_word word' ▸ function,
          (key_of_word word').trans key, (python_of_word word').trans python⟩
      · simp [isUnused, isFunction_not_isVariable function] at unused'
  · rcases Nat.lt_or_ge id t'.size with old | new
    · exact h'.coined old (h.fresh id above old)
    · exact h'.fresh id new below

lemma set (unused : t.isUnused id) (user : s.kind = .function { strategy := .user })
    (key : s.key = (t.symbol id).key) (python : s.python = (t.symbol id).python)
    (stands : t.Proper → s.Stands) :
    t.Evolves (t.set id s) := by
  have var : (t.symbol id).isVariable := by
    simp only [isUnused, Bool.and_eq_true] at unused
    exact unused.1.1
  have function : s.isFunction := by rw [isFunction, user]
  refine ⟨Nat.le_of_eq (size_set t id s).symm, fun other bound => ?_, fun other above below => ?_,
    fun proper => (Swaps.set var (stands proper) key fun regex => ?_).proper proper,
    fun other definable => ?_, fun spelled other => ?_⟩
  · rw [symbol_set]
    split
    case isTrue same => exact .inr ⟨same.1 ▸ unused, function, same.1 ▸ key, same.1 ▸ python⟩
    case isFalse => exact .inl ⟨rfl, .refl _⟩
  · exact absurd (size_set t id s ▸ below) (Nat.not_lt.mpr above)
  · simp [isFunction, regex] at function
  · rw [symbol_set]
    split
    · rw [user]
      rfl
    · exact definable
  · rw [symbol_set]
    split
    · obtain ⟨use, kind⟩ := isVariable_iff.mp var
      refine ⟨fun string => by simp [user] at string, fun _ _ => ?_⟩
      rw [python]
      exact (spelled id).unquoted (by rw [kind]; rfl) (by simp [kind])
    · exact spelled other

lemma good (h : t.Evolves t') (good : t.Good) : t'.Good := by
  refine ⟨h.proper good.proper, ⟨Nat.le_trans good.marked.size h.size, fun id bound => ?_⟩,
    fun id => ?_⟩
  · have inside := Nat.lt_of_lt_of_le bound good.marked.size
    rcases h.keeps id inside with ⟨word, -⟩ | ⟨unused, -⟩
    · exact word.trans (good.marked.word id bound)
    · simp [isUnused, good.marked.not_isVariable bound] at unused
  · rcases Nat.lt_or_ge id t.size with old | new
    · exact h.coined old (good.coined id)
    · rcases Nat.lt_or_ge id t'.size with inside | outside
      · exact h.fresh id new inside
      · rw [symbol_of_size_le outside]
        exact coined_endOfInput

end Evolves

end Table

lemma Token.Linked.evolves (h : Linked t a b) (g : t.Evolves t')
    (inside : a.symbol < t.size) (inside' : b.symbol < t.size) : Linked t' a b := by
  intro var
  rw [isVariable_of_word (g.word_of_isVariable inside var)] at var
  -- a mark is no function, so it has been the same before
  have back : ∀ {k : SymbolKind}, (∀ use, k ≠ .var use) → (∀ f, k ≠ .function f) →
      (t'.symbol b.symbol).kind = k → (t.symbol b.symbol).kind = k := by
    intro k plain other kind
    rcases g.keeps _ inside' with ⟨word, -⟩ | ⟨-, function, -⟩
    · exact kind_of_word word.symm kind plain
    · cases k <;> simp_all [isFunction]
  refine ⟨fun subscript => g.isArray ((h var).1 ?_), fun assign => g.isScalar ((h var).2 ?_)⟩
  · exact decide_eq_true (back (by simp) (by simp) (of_decide_eq_true subscript))
  · exact decide_eq_true (back (by simp) (by simp) (of_decide_eq_true assign))

end AwkToPython
