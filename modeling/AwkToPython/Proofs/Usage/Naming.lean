import AwkToPython.Proofs.Usage.Source

/-!
# When two names have one Python text

The Python text of a name is the lead of its namespace and the name, with an
underscore behind a keyword. The lead ends with two underscores, which a name may
hold as well, and a name may end with an underscore. So two names can have the same
text. Here it is said when: in one namespace only a keyword and the same word with
an underscore; across namespaces only if one of the names begins with an underscore
or holds two in a row. Regexes and ranges share their text with nothing but names
that are spelled like it.
-/
namespace AwkToPython

variable {s : String} {t : Table} {id : SymbolId}

open List Name

namespace Name

/-- No underscore in front and no two in a row. -/
structure Simple (cs : List Char) : Prop where
  front : cs.head? ≠ some '_'
  single : cs.IsChain fun a b => ¬(a = '_' ∧ b = '_')

instance (cs : List Char) : Decidable (Simple cs) :=
  decidable_of_iff (cs.head? ≠ some '_' ∧ cs.IsChain fun a b => ¬(a = '_' ∧ b = '_'))
    ⟨fun h => ⟨h.1, h.2⟩, fun h => ⟨h.1, h.2⟩⟩

/-- One name is a keyword, the other one the same word with an underscore. -/
def Escapes (a b : String) : Prop :=
  a ∈ pythonKeywords ∧ b = a ++ "_" ∨ b ∈ pythonKeywords ∧ a = b ++ "_"

lemma python_of_mem (h : s ∈ pythonKeywords) : python s = s ++ "_" := by
  rw [python, if_pos (contains_iff_mem.mpr h)]

lemma python_of_not_mem (h : s ∉ pythonKeywords) : python s = s := by
  rw [python, if_neg fun found => h (contains_iff_mem.mp found)]

/-- Two names have the same Python spelling only if one is escaped to the other. -/
lemma python_inj (h : python a = python b) : a = b ∨ Escapes a b := by
  by_cases ha : a ∈ pythonKeywords
  · rw [python_of_mem ha] at h
    by_cases hb : b ∈ pythonKeywords
    · rw [python_of_mem hb] at h
      have text := congrArg String.toList h
      rw [String.toList_append, String.toList_append, append_cancel_right_eq] at text
      exact .inl (String.toList_inj.mp text)
    · rw [python_of_not_mem hb] at h
      exact .inr (.inl ⟨ha, h.symm⟩)
  · rw [python_of_not_mem ha] at h
    by_cases hb : b ∈ pythonKeywords
    · rw [python_of_mem hb] at h
      exact .inr (.inr ⟨hb, h⟩)
    · rw [python_of_not_mem hb] at h
      exact .inl h

lemma Simple.python (h : Simple s.toList) : Simple (python s).toList := by
  have all : ∀ k ∈ pythonKeywords, Simple (k ++ "_").toList := by decide
  by_cases mem : s ∈ pythonKeywords
  · rw [python_of_mem mem]
    exact all s mem
  · rwa [python_of_not_mem mem]

/-- A simple text is told from what stands before it, if that is nothing or ends
with two underscores. -/
lemma append_inj_of_simple (hx : xs = [] ∨ ['_', '_'] <:+ xs)
    (hy : ys = [] ∨ ['_', '_'] <:+ ys) (hp : Simple ps) (hq : Simple qs)
    (h : xs ++ ps = ys ++ qs) : xs = ys := by
  -- one of the leads goes on where the other ends
  have longer : ∀ {xs ys ps qs as : List Char}, (ys = [] ∨ ['_', '_'] <:+ ys) → Simple ps →
      ys = xs ++ as → ps = as ++ qs → xs = ys := by
    intro xs ys ps qs as hy hp lead tail
    rcases eq_nil_or_concat' as with rfl | ⟨front, last, rfl⟩
    · rw [lead, append_nil]
    · rcases hy with rfl | ⟨zs, ends⟩
      · simp at lead
      · rcases eq_nil_or_concat' front with rfl | ⟨front, other, rfl⟩
        · have same : zs ++ ['_'] ++ ['_'] = xs ++ [last] := by simpa using ends.trans lead
          have mark : '_' = last := (append_inj' same rfl).2 |> singleton_inj.mp
          exact absurd (by simp [tail, ← mark]) hp.front
        · have same : zs ++ ['_', '_'] = (xs ++ front) ++ [other, last] := by
            simpa using ends.trans lead
          have marks := (append_inj' same rfl).2
          have chain := hp.single
          rw [tail, append_assoc, append_assoc, isChain_append] at chain
          simp only [cons.injEq, and_true] at marks
          rw [← marks.1, ← marks.2] at chain
          exact absurd ⟨rfl, rfl⟩ (isChain_cons_cons.mp chain.2.1).1
  rcases append_eq_append_iff.mp h with ⟨as, lead, tail⟩ | ⟨as, lead, tail⟩
  · exact longer hy hp lead tail
  · exact (longer hx hq lead tail).symm

end Name

namespace Namespace

variable {space space' : Namespace} {bare bare' : String}

/-- What a namespace puts before its names behind `self.` -/
def mark (space : Namespace) : List Char :=
  if space.isDefault then [] else space.name.toList ++ ['_', '_']

lemma pythonName_eq (space : Namespace) (bare : String) :
    (space.pythonName bare).toList = "self.".toList ++ (space.mark ++ (python bare).toList) := by
  rw [pythonName, pythonLead, mark]
  split <;> simp

lemma mark_ends (space : Namespace) : space.mark = [] ∨ ['_', '_'] <:+ space.mark := by
  rw [mark]
  split
  · exact .inl rfl
  · exact .inr ⟨_, rfl⟩

lemma mark_inj (h : space.mark = space'.mark) : space = space' := by
  have other : ∀ n : Namespace, n.isDefault = false → n.mark = n.name.toList ++ ['_', '_'] := by
    intro n named
    simp [mark, named]
  cases hs : space.isDefault with
  | true =>
    cases hs' : space'.isDefault with
    | true => exact (of_decide_eq_true hs).trans (of_decide_eq_true hs').symm
    | false =>
      rw [other space' hs', mark, hs] at h
      simp at h
  | false =>
    rw [other space hs] at h
    cases hs' : space'.isDefault with
    | true =>
      rw [mark, hs'] at h
      simp at h
    | false =>
      rw [other space' hs', append_cancel_right_eq] at h
      obtain ⟨name⟩ := space
      obtain ⟨name'⟩ := space'
      exact congrArg Namespace.mk (String.toList_inj.mp h)

/-- Two names with one Python text: in one namespace a keyword and its escape, in two
namespaces names that are not both simple. -/
lemma pythonName_clash (h : space.pythonName bare = space'.pythonName bare') :
    space = space' ∧ (bare = bare' ∨ Escapes bare bare') ∨
      space ≠ space' ∧ ¬(Simple bare.toList ∧ Simple bare'.toList) := by
  have text := congrArg String.toList h
  rw [pythonName_eq, pythonName_eq, append_cancel_left_eq] at text
  by_cases same : space = space'
  · subst same
    rw [append_cancel_left_eq] at text
    exact .inl ⟨rfl, python_inj (String.toList_inj.mp text)⟩
  · refine .inr ⟨same, fun simple => same (mark_inj ?_)⟩
    exact append_inj_of_simple space.mark_ends space'.mark_ends simple.1.python simple.2.python
      text

lemma pythonName_numbered (stem : String) {n : Nat}
    (single : stem.toList.IsChain fun a b => ¬(a = '_' ∧ b = '_'))
    (h : space.pythonName bare = "self." ++ stem ++ toString n) :
    space = default ∧ bare = stem ++ toString n := by
  have digit : ∀ c ∈ (toString n).toList, c.isDigit = true := by
    intro c mem
    rw [Nat.toString_eq_repr, Nat.repr, String.toList_ofList] at mem
    exact Nat.isDigit_of_mem_toDigits (by decide) (by decide) mem
  have text := congrArg String.toList h
  rw [pythonName_eq, String.toList_append, String.toList_append, append_assoc,
    append_cancel_left_eq] at text
  -- no two underscores stand in a row
  have chain : (stem.toList ++ (toString n).toList).IsChain fun a b => ¬(a = '_' ∧ b = '_') := by
    refine isChain_append.mpr ⟨single, ?_, fun a _ b head both => ?_⟩
    · refine (pairwise_of_forall_mem_list fun a ha b _ both => ?_).isChain
      exact absurd (both.1 ▸ digit a ha) (by decide)
    · exact absurd (both.2 ▸ digit b (mem_of_head? head)) (by decide)
  rw [← text] at chain
  have unmarked : space.mark = [] := by
    rcases space.mark_ends with none | ⟨zs, ends⟩
    · exact none
    · rw [← ends, append_assoc] at chain
      exact absurd ⟨rfl, rfl⟩ (isChain_cons_cons.mp (isChain_append.mp chain).2.1).1
  rw [unmarked, nil_append] at text
  refine ⟨mark_inj (unmarked.trans rfl), ?_⟩
  have spelled : python bare = stem ++ toString n :=
    String.toList_inj.mp (text.trans String.toList_append.symm)
  by_cases mem : bare ∈ pythonKeywords
  · -- a digit is no underscore
    rw [python_of_mem mem] at text
    have last := congrArg getLast? text
    have some : (toString n).toList ≠ [] := by
      rw [Nat.toString_eq_repr, Nat.repr, String.toList_ofList]
      exact Nat.toDigits_ne_nil
    rw [String.toList_append, getLast?_append, getLast?_append,
      getLast?_eq_some_getLast some] at last
    have found := digit _ (getLast_mem some)
    simp only [String.reduceToList, getLast?_singleton, Option.some_or, Option.some.injEq] at last
    rw [← last] at found
    exact absurd found (by decide)
  · rw [← spelled, python_of_not_mem mem]

end Namespace

namespace Table

/-- A variable or a function of the program, other than the flag of a range. -/
def IsUser (t : Table) (id : SymbolId) : Prop :=
  (t.symbol id).kind.isDefinable = true ∧ ¬(t.symbol id).IsRangeFlag

/-- Whether two entries are names with different keys and the same Python text. -/
def clashes (t : Table) (id id' : SymbolId) : Bool :=
  let s := t.symbol id
  let s' := t.symbol id'
  s.kind.isDefinable && s'.kind.isDefinable && s.key.toList.head? ≠ some '<' &&
    s'.key.toList.head? ≠ some '<' && s.key ≠ s'.key && s.python = s'.python

lemma isUser_of_head (kind : (t.symbol id).kind.isDefinable = true)
    (head : (t.symbol id).key.toList.head? ≠ some '<') : t.IsUser id := by
  refine ⟨kind, fun ⟨n, key, _⟩ => head ?_⟩
  rw [key]
  simp [toString]

lemma of_clashes {id : SymbolId} (h : t.clashes id id' = true) :
    t.IsUser id ∧ t.IsUser id' ∧ (t.symbol id).key ≠ (t.symbol id').key ∧
      (t.symbol id).python = (t.symbol id').python := by
  simp only [clashes, Bool.and_eq_true, decide_eq_true_eq] at h
  obtain ⟨⟨⟨⟨⟨kind, kind'⟩, head⟩, head'⟩, keys⟩, python⟩ := h
  exact ⟨isUser_of_head kind head, isUser_of_head kind' head', keys, python⟩

lemma Good.names (good : t.Good) (user : t.IsUser id) :
    ∃ space bare, (t.symbol id).Names space bare :=
  ((good.coined id).named user.1).resolve_right user.2

end Table

namespace Call

open AwkToPython.Symbol

/-- Two names of a program have the same Python text only as a keyword and its
escape, or if not both of them are simple; a name has that of a regex or a range
only if it is spelled like it. -/
theorem names_clash_only_if (options : Options) (calls : List Call) :
    let t := (last { options } calls).table
    (∀ id id', t.IsUser id → t.IsUser id' → (t.symbol id).key ≠ (t.symbol id').key →
      (t.symbol id).python = (t.symbol id').python →
      ∃ space bare space' bare', (t.symbol id).Names space bare ∧
        (t.symbol id').Names space' bare' ∧
        (space = space' ∧ Name.Escapes bare bare' ∨
          space ≠ space' ∧ ¬(Name.Simple bare.toList ∧ Name.Simple bare'.toList))) ∧
    ∀ id id', t.IsUser id → (t.symbol id').kind = .regex ∨ (t.symbol id').IsRangeFlag →
      (t.symbol id).python = (t.symbol id').python →
      ∃ n : Nat, (t.symbol id).Names .default s!"_re_{n}" ∨
        (t.symbol id).Names .default s!"_range_{n}" := by
  intro t
  have good : t.Good := good_last options calls
  refine ⟨fun id id' user user' keys same => ?_, fun id id' user numbered same => ?_⟩
  · obtain ⟨space, bare, names⟩ := good.names user
    obtain ⟨space', bare', names'⟩ := good.names user'
    have clash := Namespace.pythonName_clash (names.2.2.symm.trans (same.trans names'.2.2))
    refine ⟨space, bare, space', bare', names, names', clash.imp_left ?_⟩
    rintro ⟨rfl, rfl | escapes⟩
    · exact absurd (names.2.1.trans names'.2.1.symm) keys
    · exact ⟨rfl, escapes⟩
  · obtain ⟨space, bare, names⟩ := good.names user
    have text := names.2.2.symm.trans same
    rcases numbered with regex | ⟨n, -, python⟩
    · obtain ⟨n, python⟩ := (good.coined id').regex regex
      obtain ⟨rfl, rfl⟩ := Namespace.pythonName_numbered "_re_" (by decide)
        (text.trans python)
      exact ⟨n, .inl names⟩
    · obtain ⟨rfl, rfl⟩ := Namespace.pythonName_numbered "_range_" (by decide)
        (text.trans python)
      exact ⟨n, .inr names⟩

/-- The variables `class` and `class_` are one in Python. -/
theorem names_clash_only_if_escaped :
    let t := (last {} [.source (.program "BEGIN \x7b class = class_ \x7d")]).table
    t.IsUser 112 ∧ t.IsUser 113 ∧ (t.symbol 112).key ≠ (t.symbol 113).key ∧
      (t.symbol 112).python = (t.symbol 113).python ∧
      ∃ space bare space' bare', (t.symbol 112).Names space bare ∧
        (t.symbol 113).Names space' bare' ∧
        (space = space' ∧ Name.Escapes bare bare' ∨
          space ≠ space' ∧ ¬(Name.Simple bare.toList ∧ Name.Simple bare'.toList)) := by
  intro t
  obtain ⟨user, user', keys, same⟩ := Table.of_clashes
    (show t.clashes 112 113 = true by decide +kernel)
  exact ⟨user, user', keys, same, (names_clash_only_if {} _).1 112 113 user user' keys same⟩

/-- The variable `x` of the namespace `lib` and the variable `lib__x` are one in
Python. -/
theorem names_clash_across_namespaces :
    let input := Source.program "BEGIN \x7b lib::x = 1; lib__x = 2 \x7d"
    let t := (last {} [.source input]).table
    Compile.succeeds ((Call.source input).run {}) = true ∧ t.IsUser 112 ∧ t.IsUser 114 ∧
      (t.symbol 112).key ≠ (t.symbol 114).key ∧
      (t.symbol 112).python = (t.symbol 114).python := by
  intro input t
  exact ⟨by decide +kernel, Table.of_clashes (show t.clashes 112 114 = true by decide +kernel)⟩

end Call

end AwkToPython
