import AwkToPython.Proofs.Python.Literal
import AwkToPython.Symbol.Initial
import Mathlib.Tactic.Common

/-!
# Initial values

A variable that the program makes has an initial value, and so has a regex; what the
support module provides has none, nor has anything else. Regexes are numbered in the
order in which they are made, and a string has at most one. Words of the language
keep their entries, so that no variable is spelled like one of them.

A table that changes does so in two ways: an entry is added, or that of a variable is
replaced.
-/
namespace AwkToPython

/-- Python's keywords that AWK reserves as well. -/
def Name.sharedKeywords : List String :=
  ["break", "continue", "else", "for", "if", "in", "return", "while"]

namespace Symbol

/-- The symbol is a variable that the support module provides. -/
def isBuiltIn (s : Symbol) : Bool := (s.variableUse?.map (·.builtIn)).getD false

/-- The symbol has the initial value that its kind asks for. -/
def isPrimed (s : Symbol) : Bool :=
  match s.kind with
  | .var use =>
    if use.builtIn then s.initial = "" && (use.isArray || use.isScalar)
    else s.initial ≠ "" && (!use.isArray || s.initial = emptyArray)
  | .regex => s.initial ≠ ""
  | _ => s.initial = ""

lemma isPrimed_var {s : Symbol} {use : VariableUse} (kind : s.kind = .var use)
    (own : use.builtIn = false) :
    s.isPrimed ↔ s.initial ≠ "" ∧ (use.isArray → s.initial = emptyArray) := by
  cases array : use.isArray <;> simp [isPrimed, kind, own, array]

end Symbol

namespace Table

variable {t t' t'' : Table} {s : Symbol} {id : SymbolId}

/-! ### Entries -/

lemma symbol_set (t : Table) (id other : SymbolId) (s : Symbol) :
    (t.set id s).symbol other =
      if id = other ∧ other < t.size then s else t.symbol other := by
  simp only [symbol, set, size, Array.getD_eq_getD_getElem?, Array.getElem?_setIfInBounds]
  by_cases same : id = other
  · subst same
    by_cases bound : id < t.entries.size <;> simp [bound]
  · simp [same]

@[simp] lemma size_set (t : Table) (id : SymbolId) (s : Symbol) : (t.set id s).size = t.size := by
  simp [size, set]

lemma symbol_push (t : Table) (s : Symbol) (id : SymbolId) :
    (t.push s).2.symbol id = if id = t.size then s else t.symbol id := by
  simp only [push, symbol, size, Array.getD_eq_getD_getElem?, Array.getElem?_push]
  split <;> rfl

lemma symbol_of_size_le (outside : t.size ≤ id) : t.symbol id = Symbol.endOfInput := by
  simp only [symbol, Array.getD_eq_getD_getElem?]
  rw [Array.getElem?_eq_none outside]
  rfl

lemma lt_size (h : (t.symbol id).kind ≠ .endOfInput) : id < t.size := by
  rcases Nat.lt_or_ge id t.size with bound | bound
  · exact bound
  · rw [symbol_of_size_le bound] at h
    exact absurd rfl h

/-- The table has one entry more, which may have a key and may be the regex of a
string. -/
structure Gains (t : Table) (s : Symbol) (t' : Table) : Prop where
  entries : t'.entries = t.entries.push s
  find : ∀ key, t'.find? key = t.find? key ∨ t'.find? key = some t.size
  regexes : ∀ e ∈ t'.stringRegexes, e ∈ t.stringRegexes ∨ e.2 = t.size ∧ s.kind = .regex

namespace Gains

lemma size (h : t.Gains s t') : t'.size = t.size + 1 := by
  rw [Table.size, h.entries, Array.size_push]
  rfl

lemma symbol (h : t.Gains s t') (id : SymbolId) :
    t'.symbol id = if id = t.size then s else t.symbol id := by
  rw [← symbol_push, Table.symbol, h.entries]
  rfl

lemma new (h : t.Gains s t') : t'.symbol t.size = s := by
  rw [h.symbol, if_pos rfl]

lemma old (h : t.Gains s t') (bound : id < t.size) : t'.symbol id = t.symbol id := by
  rw [h.symbol, if_neg (Nat.ne_of_lt bound)]

lemma eq_or_lt (h : t.Gains s t') (bound : id < t'.size) : id = t.size ∨ id < t.size := by
  rw [h.size] at bound
  exact Nat.eq_or_lt_of_le (Nat.le_of_lt_succ bound)

end Gains

lemma gains_push (t : Table) (s : Symbol) : t.Gains s (t.push s).2 :=
  ⟨rfl, fun _ => .inl rfl, fun _ mem => .inl mem⟩

lemma gains_insert (t : Table) (s : Symbol) : t.Gains s (t.insert s).2 := by
  refine ⟨rfl, fun key => ?_, fun _ mem => .inl mem⟩
  simp only [find?, Table.insert, List.lookup_cons]
  split
  · exact .inr rfl
  · exact .inl rfl

lemma gains_regex (t : Table) (body : String) :
    t.Gains { key := "/" ++ body ++ "/", kind := .regex, python := s!"self._re_{t.regexCount}",
              initial := Literal.compiledRegex body } (t.regex body).2 :=
  ⟨rfl, fun _ => .inl rfl, fun _ mem => .inl mem⟩

/-! ### Regexes and words -/

/-- Regexes have different numbers, each is a literal or the only one of a string, and
the words of the language are no variables. -/
structure Orderly (t : Table) : Prop where
  numbered : ∀ id, (t.symbol id).kind = .regex →
    ∃ n < t.regexCount, (t.symbol id).python = s!"self._re_{n}"
  distinct : ∀ id id', (t.symbol id).kind = .regex → (t.symbol id').kind = .regex →
    (t.symbol id).python = (t.symbol id').python → id = id'
  literal : ∀ id, (t.symbol id).kind = .regex →
    (t.symbol id).key.toList.head? = some '/' ∨ ∃ string, (string, id) ∈ t.stringRegexes
  string : ∀ e ∈ t.stringRegexes, (t.symbol e.1).kind = .string ∧
    (t.symbol e.2).kind = .regex ∧ (t.symbol e.2).key = (t.symbol e.1).python
  single : (t.stringRegexes.map (·.1)).Nodup
  reserved : ∀ word ∈ Name.sharedKeywords, (t.find? word).isSome = true
  apart : ∀ id, (t.symbol id).isVariable = true → (t.symbol id).key ∉ Name.sharedKeywords

namespace Orderly

/-- Regexes and strings are as they were. -/
lemma same (h : t.Orderly)
    (back : ∀ {x : SymbolId}, (t'.symbol x).kind = .regex →
      (t.symbol x).kind = .regex ∧ t'.symbol x = t.symbol x)
    (regexes : t'.stringRegexes = t.stringRegexes) (count : t'.regexCount = t.regexCount)
    (kept : ∀ {x : SymbolId} {k : SymbolKind}, k = .regex ∨ k = .string →
      (t.symbol x).kind = k → t'.symbol x = t.symbol x)
    (reserved : ∀ word ∈ Name.sharedKeywords, (t'.find? word).isSome)
    (apart : ∀ id, (t'.symbol id).isVariable → (t'.symbol id).key ∉ Name.sharedKeywords) :
    t'.Orderly := by
  refine ⟨fun x kind => ?_, fun x y kind kind' same => ?_, fun x kind => ?_, fun e mem => ?_,
    regexes ▸ h.single, reserved, apart⟩
  · obtain ⟨kind, same⟩ := back kind
    rw [same, count]
    exact h.numbered x kind
  · obtain ⟨kind, same_x⟩ := back kind
    obtain ⟨kind', same_y⟩ := back kind'
    rw [same_x, same_y] at same
    exact h.distinct x y kind kind' same
  · obtain ⟨kind, same⟩ := back kind
    rw [same, regexes]
    exact h.literal x kind
  · rw [regexes] at mem
    obtain ⟨text, kind, same⟩ := h.string e mem
    rw [kept (.inr rfl) text, kept (.inl rfl) kind]
    exact ⟨text, kind, same⟩

lemma set (h : t.Orderly) (var : (t.symbol id).isVariable)
    (key : s.key = (t.symbol id).key) (regex : s.kind ≠ .regex) : (t.set id s).Orderly := by
  refine h.same (fun {x} kind => ?_) rfl rfl (fun {x k} kinds kind => ?_) h.reserved
    fun x var' => ?_
  · rw [symbol_set] at kind ⊢
    split at kind
    · exact absurd kind regex
    case isFalse outside => exact ⟨kind, if_neg outside⟩
  · rw [symbol_set, if_neg]
    rintro ⟨rfl, -⟩
    rcases kinds with rfl | rfl <;>
      simp [Symbol.isVariable, Symbol.variableUse?, kind] at var
  · rw [symbol_set] at var' ⊢
    split
    · rw [key]
      exact h.apart id var
    case isFalse outside =>
      rw [if_neg outside] at var'
      exact h.apart x var'

/-- What is no regex, and no variable spelled like a word of the language, is added. -/
lemma add (h : t.Orderly) (gains : t.Gains s t') (regexes : t'.stringRegexes = t.stringRegexes)
    (count : t'.regexCount = t.regexCount) (regex : s.kind ≠ .regex)
    (apart : s.isVariable → s.key ∉ Name.sharedKeywords) : t'.Orderly := by
  refine h.same (fun {x} kind => ?_) regexes count (fun {x k} kinds kind => ?_)
    (fun word mem => ?_) fun x var => ?_
  · rw [gains.symbol] at kind ⊢
    split at kind
    · exact absurd kind regex
    case isFalse other => exact ⟨kind, if_neg other⟩
  · refine gains.old (lt_size ?_)
    rcases kinds with rfl | rfl <;> simp [kind]
  · rcases gains.find word with same | same <;> rw [same]
    · exact h.reserved word mem
    · rfl
  · rw [gains.symbol] at var ⊢
    split
    case isTrue new =>
      rw [if_pos new] at var
      exact apart var
    case isFalse old =>
      rw [if_neg old] at var
      exact h.apart x var

/-- A regex is added, which is a literal or the first one of a string. -/
lemma addRegex (h : t.Orderly) (gains : t.Gains s t') (count : t'.regexCount = t.regexCount + 1)
    (regex : s.kind = .regex) (python : s.python = s!"self._re_{t.regexCount}")
    (made : t'.stringRegexes = t.stringRegexes ∧ s.key.toList.head? = some '/' ∨
      ∃ string, t'.stringRegexes = (string, t.size) :: t.stringRegexes ∧
        t.stringRegexes.lookup string = none ∧ (t.symbol string).kind = .string ∧
        s.key = (t.symbol string).python) : t'.Orderly := by
  have cases : ∀ {x : SymbolId}, (t'.symbol x).kind = .regex →
      x = t.size ∨ (t.symbol x).kind = .regex ∧ t'.symbol x = t.symbol x := by
    intro x kind
    by_cases new : x = t.size
    · exact .inl new
    · rw [gains.symbol, if_neg new] at kind ⊢
      exact .inr ⟨kind, rfl⟩
  have later : ∀ {x : SymbolId}, (t.symbol x).kind = .regex → (t.symbol x).python ≠ s.python := by
    intro x kind same
    obtain ⟨n, below, text⟩ := h.numbered x kind
    rw [text, python] at same
    exact Nat.ne_of_lt below (Python.numbered_inj "self._re_" same)
  have kept : ∀ e ∈ t.stringRegexes, (t'.symbol e.1).kind = .string ∧
      (t'.symbol e.2).kind = .regex ∧ (t'.symbol e.2).key = (t'.symbol e.1).python := by
    intro e mem
    obtain ⟨text, kind, same⟩ := h.string e mem
    rw [gains.old (lt_size (by simp [text])), gains.old (lt_size (by simp [kind]))]
    exact ⟨text, kind, same⟩
  have listed : ∀ e ∈ t.stringRegexes, e ∈ t'.stringRegexes := by
    intro e mem
    rcases made with ⟨same, -⟩ | ⟨string, same, -⟩ <;> rw [same]
    · exact mem
    · exact List.mem_cons_of_mem _ mem
  refine ⟨fun x kind => ?_, fun x y kind kind' same => ?_, fun x kind => ?_, fun e mem => ?_, ?_,
    fun word mem => ?_, fun x var => ?_⟩
  · rcases cases kind with rfl | ⟨kind, same⟩
    · exact ⟨t.regexCount, by omega, by rw [gains.new, python]⟩
    · obtain ⟨n, below, text⟩ := h.numbered x kind
      exact ⟨n, by omega, by rw [same, text]⟩
  · rcases cases kind with rfl | ⟨kind, same_x⟩ <;> rcases cases kind' with rfl | ⟨kind', same_y⟩
    · rfl
    · rw [gains.new, same_y] at same
      exact absurd same.symm (later kind')
    · rw [gains.new, same_x] at same
      exact absurd same (later kind)
    · rw [same_x, same_y] at same
      exact h.distinct x y kind kind' same
  · rcases cases kind with rfl | ⟨kind, same⟩
    · rw [gains.new]
      refine made.imp (·.2) ?_
      rintro ⟨string, same, -⟩
      exact ⟨string, same ▸ List.mem_cons_self⟩
    · rw [same]
      refine (h.literal x kind).imp_right ?_
      rintro ⟨string, mem⟩
      exact ⟨string, listed _ mem⟩
  · rcases made with ⟨same, -⟩ | ⟨string, same, -, text, key⟩
    · exact kept e (same ▸ mem)
    · rw [same, List.mem_cons] at mem
      rcases mem with rfl | mem
      · rw [gains.new, gains.old (lt_size (by simp [text]))]
        exact ⟨text, regex, key⟩
      · exact kept e mem
  · rcases made with ⟨same, -⟩ | ⟨string, same, unknown, -⟩ <;> rw [same]
    · exact h.single
    · rw [List.map_cons, List.nodup_cons]
      refine ⟨fun mem => ?_, h.single⟩
      obtain ⟨e, mem, same⟩ := List.mem_map.mp mem
      exact bne_iff_ne.mp (List.lookup_eq_none_iff.mp unknown e mem) same.symm
  · rcases gains.find word with same | same <;> rw [same]
    · exact h.reserved word mem
    · rfl
  · by_cases new : x = t.size
    · rw [new, gains.new] at var
      simp [Symbol.isVariable, Symbol.variableUse?, regex] at var
    · rw [gains.symbol, if_neg new] at var ⊢
      exact h.apart x var

end Orderly

/-! ### Initial values -/

/-- Whatever has the initial value that it needs keeps one, what is added has one, and
the table stays in order. -/
structure Primes (t t' : Table) : Prop where
  kept : ∀ id < t.size, (t.symbol id).isPrimed = true → (t'.symbol id).isPrimed = true
  fresh : ∀ id, t.size ≤ id → id < t'.size → (t'.symbol id).isPrimed = true
  orderly : t.Orderly → t'.Orderly

namespace Primes

lemma refl (t : Table) : t.Primes t :=
  ⟨fun _ _ => id, fun _ above below => absurd below (Nat.not_lt.mpr above), id⟩

lemma trans (h : t.Primes t') (h' : t'.Primes t'') (size : t.size ≤ t'.size) : t.Primes t'' := by
  refine ⟨fun id bound primed =>
    h'.kept id (Nat.lt_of_lt_of_le bound size) (h.kept id bound primed),
    fun id above below => ?_, h'.orderly ∘ h.orderly⟩
  rcases Nat.lt_or_ge id t'.size with old | new
  · exact h'.kept id old (h.fresh id above old)
  · exact h'.fresh id new below

lemma set (var : (t.symbol id).isVariable) (key : s.key = (t.symbol id).key)
    (regex : s.kind ≠ .regex) (primed : (t.symbol id).isPrimed → s.isPrimed) :
    t.Primes (t.set id s) := by
  refine ⟨fun x _ before => ?_, fun x above below => ?_, fun h => h.set var key regex⟩
  · rw [symbol_set]
    split
    case isTrue same => exact primed (same.1 ▸ before)
    case isFalse => exact before
  · exact absurd (by simpa using below) (Nat.not_lt.mpr above)

lemma add (gains : t.Gains s t') (primed : s.isPrimed) (orderly : t.Orderly → t'.Orderly) :
    t.Primes t' := by
  refine ⟨fun x bound before => ?_, fun x above below => ?_, orderly⟩
  · rwa [gains.old bound]
  · rcases gains.eq_or_lt below with rfl | old
    · rwa [gains.new]
    · exact absurd old (Nat.not_lt.mpr above)

end Primes

end Table

end AwkToPython
