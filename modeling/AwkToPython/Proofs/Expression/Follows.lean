import AwkToPython.Proofs.Expression.Effect

/-!
# Tokens on the way through an expression

A derivation knows its tokens by the table it starts with. While the expression
is compiled the table grows, but every token still to come keeps its word, so
that it is the operand, the mark or the operator that the derivation says.
-/
namespace AwkToPython

open Expression Compile AwkToPython.Symbol Table

namespace Awk

variable {s s' : Symbol} {limit : Nat} {key : String}

variable {table table' : Table} {t : Token}
variable {printing : Bool} {binary unary : SymbolId} {symbol : Symbol} {ts : List Token}
  {parts : Parts} {left : Fragment} {context : Context}

/-! ### Words that stay -/

lemma IsVariable.grows {owner name : String} (h : IsVariable table t owner name)
    (g : table.Grows table') : IsVariable table' t owner name := by
  obtain ⟨use, kind⟩ := isVariable_iff.mp h.kind
  have word := g.word t.symbol (lt_size (by simp [kind]))
  exact ⟨isVariable_iff.mpr (var_of_word word kind), (python_of_word word).trans h.python, h.owner,
    h.name⟩

lemma IsNumber.grows {folded : Bool} {digits : List Char} (h : IsNumber table t folded digits)
    (g : table.Grows table') : IsNumber table' t folded digits := by
  have word := g.word t.symbol (lt_size (by simp [h.kind]))
  have key := key_of_word word
  exact ⟨kind_of_word word h.kind (by simp), key.trans h.key,
    by rw [python_of_word word, key, h.python], h.digits⟩

lemma IsString.grows (h : IsString table t value) (g : table.Grows table') :
    IsString table' t value := by
  have word := g.word t.symbol (lt_size (by simp [h.kind]))
  exact ⟨kind_of_word word h.kind (by simp), (python_of_word word).trans h.python⟩

lemma IsField.grows {index : Nat} (h : IsField table t index) (g : table.Grows table') :
    IsField table' t index := by
  have word := g.word t.symbol (lt_size (by simp [h.kind]))
  exact ⟨kind_of_word word h.kind (by simp), (python_of_word word).trans h.python⟩

lemma IsSubstitution.grows (h : IsSubstitution table t) (g : table.Grows table') :
    IsSubstitution table' t := by
  obtain ⟨everywhere, kind⟩ := h
  have word := g.word t.symbol (lt_size (by simp [kind]))
  exact ⟨everywhere, kind_of_word word kind (by simp)⟩

lemma startsOperand_of_word (h : s'.word = s.word) : s'.startsOperand = s.startsOperand := by
  rcases kind_cases h with ⟨use, use', hk, hk'⟩ | hk' <;> simp [startsOperand, *]

lemma redirects_of_word (h : s'.word = s.word) : redirects s' = redirects s := by
  rcases kind_cases h with ⟨use, use', hk, hk'⟩ | hk' <;> simp [redirects, key_of_word h, *]

lemma attaches_of_word {s s' : Table} {t' : Token}
    (h : (s'.symbol t'.symbol).word = (s.symbol t.symbol).word) :
    attaches s' t' = attaches s t := by
  rcases kind_cases h with ⟨use, use', hk, hk'⟩ | hk' <;> simp [attaches, *]

lemma continues_operator (h : s'.word = s.word) :
    (decide (s'.awkLevel < limit) && decide (s'.kind ≠ .binary .colon) &&
      !(printing && redirects s')) =
    (decide (s.awkLevel < limit) && decide (s.kind ≠ .binary .colon) &&
      !(printing && redirects s)) := by
  have colon : s'.kind = .binary .colon ↔ s.kind = .binary .colon :=
    ⟨fun hk => kind_of_word h.symm hk (by simp), fun hk => kind_of_word h hk (by simp)⟩
  rw [awkLevel_of_word h, redirects_of_word h]
  simp only [ne_eq, colon]

lemma continues_of_grows (g : table.Grows table')
    (marked : table.Marked) (valid : t.symbol < table.size)
    (paired : (table.symbol t.symbol).isPaired = true) :
    continues table' t printing limit = continues table t printing limit := by
  have word := g.word _ valid
  cases hk : (table.symbol t.symbol).kind with
  | ambiguous unary binary =>
    have hk' := kind_of_word word hk (by simp)
    simp only [continues, operatorAt_ambiguous hk, operatorAt_ambiguous hk']
    exact continues_operator (g.word _ (binary_of_paired marked paired hk).1)
  | binary op =>
    have hk' := kind_of_word word hk (by simp)
    simp only [continues, operatorAt_binary hk, operatorAt_binary hk']
    exact continues_operator word
  | var use =>
    obtain ⟨use', hk'⟩ := var_of_word word hk
    have starts := startsOperand_of_word word
    simp [continues, operatorAt, hk, hk', starts]
  | _ =>
    have hk' := kind_of_word word hk (by simp)
    have starts := startsOperand_of_word word
    have key := key_of_word word
    simp [continues, operatorAt, hk, hk', starts, key]

/-! ### Marks -/

lemma initial_operator : ∀ op ∈ Operator.all, ∀ key ∈ op.keys, ∀ id ∈ initial.find? key,
    ∃ entry < markCount, id < markCount ∧ ((initial.symbol id).kind = .ambiguous (entry - 1) entry ∨
        (initial.symbol id).kind = .binary op.kind ∧ entry = id) ∧
      (initial.symbol entry).kind = .binary op.kind ∧ (initial.symbol entry).awkLevel = op.level ∧
      (initial.symbol entry).key = key ∧
      ((initial.symbol entry).python, op.python) ∈ Python.joints := by
  decide +kernel

lemma word_of_mark (id : SymbolId) (marked : table.Marked) (mark : IsMark key t)
    (known : initial.find? key = some id) (bound : id < markCount) :
    t.symbol = id ∧ (table.symbol t.symbol).word = (initial.symbol id).word := by
  have same : t.symbol = id := Option.some.inj (mark.symm.trans known)
  exact ⟨same, same ▸ marked.word id bound⟩

lemma kind_of_mark (kind : SymbolKind) (marked : table.Marked)
    (mark : IsMark key t) (known : ∃ id ∈ initial.find? key, id < markCount ∧
      (initial.symbol id).kind = kind) (plain : ∀ use, kind ≠ .var use) :
    (table.symbol t.symbol).kind = kind := by
  obtain ⟨id, found, bound, hk⟩ := known
  exact kind_of_word (word_of_mark id marked mark found bound).2 hk plain

/-- The operator that a token spells is found after an operand. -/
lemma operatorAt_of_mark {op : Operator} (marked : table.Marked)
    (spelling : key ∈ op.keys) (mark : IsMark key t) : ∃ symbol, operatorAt table t = some symbol ∧
      symbol.kind = .binary op.kind ∧ symbol.awkLevel = op.level ∧ symbol.key = key ∧
      (symbol.python, op.python) ∈ Python.joints := by
  obtain ⟨entry, bound, bound', kinds, kind, level, spelled, joint⟩ :=
    initial_operator op op.mem_all key spelling t.symbol mark
  have word := marked.word entry bound
  refine ⟨table.symbol entry, ?_, kind_of_word word kind (by simp),
    (awkLevel_of_word word).trans level, (key_of_word word).trans spelled,
    (python_of_word word) ▸ joint⟩
  rcases kinds with hk | ⟨hk, rfl⟩
  · exact operatorAt_ambiguous (kind_of_word (marked.word _ bound') hk (by simp))
  · exact operatorAt_binary (kind_of_word (marked.word _ bound') hk (by simp))

/-! ### Sessions that follow a derivation -/

/-- The tokens ahead are known to the table of a derivation, which has grown into
that of the session. -/
structure Follows (table : Table) (s : Session) : Prop where
  marked : table.Marked
  sound : s.Sound
  grows : table.Grows s.table
  valid : ∀ t ∈ s.cursor.shown, t.symbol < table.size

namespace Follows

variable {s s' : Session}

lemma effect (h : Follows table s) (e : s.Effect s') : Follows table s' := by
  obtain ⟨ts, same, -⟩ := e.shown
  refine ⟨h.marked, e.sound, h.grows.trans e.table, fun t mem => h.valid t ?_⟩
  rw [same]
  exact List.mem_append_right ts mem

lemma here (h : Follows table s) : s.table.Marked := h.marked.grows h.grows

lemma word (h : Follows table s) (mem : t ∈ s.cursor.shown) :
    (s.table.symbol t.symbol).word = (table.symbol t.symbol).word :=
  h.grows.word _ (h.valid t mem)

/-- What the current token goes on with is known to both tables. -/
lemma continues_eq (h : Follows table s) (printing : Bool) (limit : Nat) :
    continues s.table s.cursor.current printing limit =
      continues table s.cursor.current printing limit := by
  have mem : s.cursor.current ∈ s.cursor.shown := List.mem_cons_self
  refine continues_of_grows h.grows h.marked (h.valid _ mem) ?_
  rw [← isPaired_of_word (h.word mem)]
  exact h.sound.current.regular.paired

lemma current (shown : s.cursor.shown = t :: ts) : s.cursor.current = t :=
  (List.cons.inj shown).1

lemma symbol_shown (shown : s.cursor.shown = t :: ts) : s.symbol = s.table.symbol t.symbol := by
  rw [Session.symbol, current shown]

lemma advance (h : Follows table s) (shown : s.cursor.shown = t :: ts)
    (inner : (s.table.symbol t.symbol).isInner = true) :
    s.Effect { s with cursor := s.cursor.advance } ∧ s.cursor.advance.shown = ts := by
  rw [← current shown] at inner
  have ne : s.symbol.kind ≠ .endOfInput := by
    intro e
    simp [isInner, e] at inner
  have step := h.sound.shown_advance ne
  rw [shown] at step
  exact ⟨(Session.Effect.refl h.sound).advance inner, (List.cons.inj step).2.symm⟩

end Follows

end Awk

end AwkToPython
