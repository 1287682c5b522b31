import AwkToPython.Proofs.Step

/-!
# Steps that come to an end

A stream that closes with an end of input is read from its front to its back. A
step may fail, but never because its budget is used up, and where it succeeds the
cursor has moved on by a number of tokens that can be told in advance. Whether a
construct comes to an end depends only on how many tokens are left where it
starts, so all is said in terms of that number.
-/
namespace AwkToPython

namespace Cursor

/-- The number of tokens before the current one, hidden ones included. -/
def position (c : Cursor) : Nat := c.passed.length

/-- The whole stream that is being read. -/
def buffer (c : Cursor) : List Token := c.passed.reverse ++ c.tokens

lemma length_buffer (c : Cursor) : c.buffer.length = c.position + c.remaining + 1 := by
  simp [buffer, tokens, position, remaining, Nat.add_assoc]

lemma getLast?_buffer (c : Cursor) : c.buffer.getLast? = some c.last := by
  rw [buffer, tokens, last, List.getLast?_append]
  cases h : c.ahead with
  | nil => simp
  | cons next rest => simp [List.getLast?_cons, List.getLastD_eq_getLast?]

section Settle

variable (passed : List Token) (current : Token) (ahead comments : List Token)
  (prior : Option Token)

lemma settle_buffer : (settle passed current ahead comments prior).buffer =
    passed.reverse ++ current :: ahead := by
  induction ahead generalizing passed current comments with
  | nil => simp [settle, buffer, tokens]
  | cons next rest ih =>
    rw [settle]
    split
    · rw [ih]
      simp
    · split
      · rw [ih]
        simp
      · rfl

lemma settle_position : passed.length ≤ (settle passed current ahead comments prior).position := by
  induction ahead generalizing passed current comments with
  | nil => simp [settle, position]
  | cons next rest ih =>
    have further : ∀ comments, passed.length ≤
        (settle (current :: passed) next rest comments prior).position := fun comments =>
      Nat.le_trans (Nat.le_succ _) (ih (current :: passed) next comments)
    rw [settle]
    split
    · exact further _
    · split
      · exact further _
      · exact Nat.le_refl _

end Settle

/-- The cursor at the start of a stream with its padding holds all of it. -/
lemma ofTokens_buffer (ts : List Token) (line : Nat) :
    (ofTokens (ts ++ List.replicate endPadding (Token.endOfInput line))).buffer =
      ts ++ List.replicate endPadding (Token.endOfInput line) := by
  cases h : ts ++ List.replicate endPadding (Token.endOfInput line) with
  | nil => simp [endPadding, List.replicate_succ] at h
  | cons first rest => simp [ofTokens, settle_buffer]

variable {c : Cursor}

lemma advance_buffer (c : Cursor) : c.advance.buffer = c.buffer := by
  cases h : c.ahead with
  | nil => simp [advance, h, buffer, tokens]
  | cons next rest =>
    rw [advance, h]
    simp only
    rw [settle_buffer, buffer, tokens, h]
    simp

lemma position_lt_advance (more : 0 < c.remaining) : c.position < c.advance.position := by
  cases h : c.ahead with
  | nil => simp [remaining, h] at more
  | cons next rest =>
    rw [advance, h]
    exact settle_position (c.current :: c.passed) next rest c.comments (some c.current)

lemma position_le_advance (c : Cursor) : c.position ≤ c.advance.position := by
  cases h : c.ahead with
  | nil => simp [advance, h, position]
  | cons next rest => exact Nat.le_of_lt (position_lt_advance (by simp [remaining, h]))

lemma skipWhile_reads (p : Token → Bool) (fuel : Nat) (c : Cursor) :
    (skipWhile p fuel c).buffer = c.buffer ∧ c.position ≤ (skipWhile p fuel c).position := by
  induction fuel generalizing c with
  | zero => exact ⟨rfl, Nat.le_refl _⟩
  | succ fuel ih =>
    rw [skipWhile]
    split
    · obtain ⟨same, further⟩ := ih c.advance
      exact ⟨same.trans (advance_buffer c), Nat.le_trans (position_le_advance c) further⟩
    · exact ⟨rfl, Nat.le_refl _⟩

/-- The budget of a skip lasts to the end of the stream. -/
lemma skipWhile_stops {p : Token → Bool} (fuel : Nat) (enough : c.remaining < fuel)
    (stop : p c.last = false) : p (skipWhile p fuel c).current = false := by
  induction fuel generalizing c with
  | zero => exact absurd enough (Nat.not_lt_zero _)
  | succ fuel ih =>
    rw [skipWhile]
    split
    case isTrue goes =>
      have more : 0 < c.remaining := List.length_pos_iff.mpr (ahead_ne_nil fun same => by
        rw [same, stop] at goes
        cases goes)
      have before := c.length_buffer
      have after := c.advance.length_buffer
      have further := position_lt_advance more
      rw [advance_buffer] at after
      exact ih (by omega) (by rw [advance_last]; exact stop)
    case isFalse stays => exact Bool.eq_false_iff.mpr stays

end Cursor

/-! ### Streams that close -/

/-- The mark of the end of input is at its place. -/
structure Table.HasEnd (t : Table) : Prop where
  size : endOfInput < t.size
  kind : (t.symbol endOfInput).kind = .endOfInput

namespace Table.HasEnd

variable {t t' : Table}

lemma grows (h : t.HasEnd) (g : t.Grows t') : t'.HasEnd :=
  ⟨Nat.lt_of_lt_of_le h.size g.size, Symbol.kind_of_word (g.word _ h.size) h.kind (by simp)⟩

lemma push (h : t.HasEnd) (s : Symbol) : (t.push s).2.HasEnd := by
  have more : (t.push s).2.size = t.size + 1 := by simp [Table.push, Table.size]
  refine ⟨by rw [more]; exact Nat.lt_succ_of_lt h.size, ?_⟩
  rw [symbol_push, if_neg (Nat.ne_of_lt h.size)]
  exact h.kind

lemma set (h : t.HasEnd) {id : SymbolId} (other : id ≠ endOfInput) (s : Symbol) :
    (t.set id s).HasEnd := by
  refine ⟨by simpa using h.size, ?_⟩
  rw [symbol_set, if_neg fun same => other same.1]
  exact h.kind

lemma ne_of_kind (h : t.HasEnd) {id : SymbolId} (other : (t.symbol id).kind ≠ .endOfInput) :
    id ≠ endOfInput := fun same => other (same ▸ h.kind)

/-- Only the entries count. -/
lemma same (h : t.HasEnd) (entries : t'.entries = t.entries) : t'.HasEnd := by
  obtain ⟨size, kind⟩ := h
  rw [Table.size, ← entries] at size
  rw [Table.symbol, ← entries] at kind
  exact ⟨size, kind⟩

lemma regexForString (h : t.HasEnd) (id : SymbolId) : (t.regexForString id).2.HasEnd := by
  rw [Table.regexForString]
  split
  · exact h
  · exact (h.push _).same rfl

lemma rangeFlag (h : t.HasEnd) : t.rangeFlag.2.HasEnd := (h.push _).same rfl

end Table.HasEnd

lemma Table.initial_hasEnd : Table.initial.HasEnd := ⟨by decide, by decide⟩

namespace Session

/-- The stream closes with an end of input. -/
structure Closed (s : Session) : Prop where
  table : s.table.HasEnd
  last : ∀ t ∈ s.cursor.buffer.getLast?, t.symbol = Table.endOfInput

/-- The same stream is read on by at least `n` tokens. -/
structure Reads (n : Nat) (s s' : Session) : Prop where
  buffer : s'.cursor.buffer = s.cursor.buffer
  table : s'.table.HasEnd
  position : s.cursor.position + n ≤ s'.cursor.position

variable {s s' s'' : Session} {m n : Nat}

lemma Closed.refl (h : s.Closed) : s.Reads 0 s := ⟨rfl, h.table, Nat.le_refl _⟩

lemma Closed.reads (h : s.Closed) (r : s.Reads n s') : s'.Closed := ⟨r.table, r.buffer ▸ h.last⟩

lemma Reads.trans (h : s.Reads m s') (h' : s'.Reads n s'') : s.Reads (m + n) s'' :=
  ⟨h'.buffer.trans h.buffer, h'.table, by have := h.position; have := h'.position; omega⟩

lemma Reads.weaken (h : s.Reads n s') (le : m ≤ n) : s.Reads m s' :=
  ⟨h.buffer, h.table, by have := h.position; omega⟩

lemma Reads.remaining (h : s.Reads n s') : s'.cursor.remaining + n ≤ s.cursor.remaining := by
  have before := s.cursor.length_buffer
  have after := s'.cursor.length_buffer
  have position := h.position
  rw [h.buffer] at after
  omega

/-- The last token of all is an end of input. -/
lemma Closed.more (h : s.Closed)
    (other : s.symbol.kind ≠ .endOfInput) :
    0 < s.cursor.remaining := by
  refine List.length_pos_iff.mpr (Cursor.ahead_ne_nil fun same => other ?_)
  rw [Session.symbol, h.last _ (same ▸ s.cursor.getLast?_buffer)]
  exact h.table.kind

lemma Closed.advance (h : s.Closed) : s.Reads 0 { s with cursor := s.cursor.advance } :=
  ⟨s.cursor.advance_buffer, h.table, s.cursor.position_le_advance⟩

lemma Closed.advance_more (h : s.Closed) (more : 0 < s.cursor.remaining) :
    s.Reads 1 { s with cursor := s.cursor.advance } :=
  ⟨s.cursor.advance_buffer, h.table, Cursor.position_lt_advance more⟩

lemma Closed.skip (h : s.Closed) (p : Token → Bool) :
    s.Reads 0 { s with cursor := s.cursor.skip p } :=
  have reads := Cursor.skipWhile_reads p (s.cursor.remaining + 1) s.cursor
  ⟨reads.1, h.table, reads.2⟩

/-- A skip stops where the property fails, which it has to at the end of input. -/
lemma Closed.skip_stops (h : s.Closed) {p : Token → Bool}
    (stop : ∀ t, t.symbol = Table.endOfInput → p t = false) :
    p (s.cursor.skip p).current = false :=
  Cursor.skipWhile_stops _ (Nat.lt_succ_self _) (stop _ (h.last _ s.cursor.getLast?_buffer))

lemma Closed.skipTerminators_stops (h : s.Closed) (run : Compile.skipTerminators s = .ok () s') :
    s'.symbol.isConsumedTerminator = false := by
  cases run
  refine h.skip_stops (p := fun t => (s.table.symbol t.symbol).isConsumedTerminator) ?_
  intro t ending
  simp [ending, Symbol.isConsumedTerminator, h.table.kind]

/-- Whatever the tokens are, a stream with the padding behind them closes. -/
lemma closed_of_buffer (table : s.table.HasEnd)
    (buffer : s.cursor.buffer = ts ++ List.replicate endPadding (Token.endOfInput line)) :
    s.Closed := by
  refine ⟨table, fun t mem => ?_⟩
  rw [buffer, List.getLast?_append, List.getLast?_replicate] at mem
  simp only [endPadding, Option.mem_def] at mem
  cases mem
  rfl

end Session

/-! ### The calculus -/

namespace Compile

variable {α β : Type} {x y : Compile α} {f : α → Compile β} {r m n : Nat} {s : Session}

/-- From a session, the step does not use up a budget, and if it succeeds at least
`n` tokens are passed. -/
def Passes (n : Nat) (x : Compile α) (s : Session) : Prop :=
  match x s with
  | .ok _ s' => s.Reads n s'
  | .error e _ => e ≠ .exhausted

lemma Passes.ok (h : Passes n x s) (run : x s = .ok a s') : s.Reads n s' := by
  rw [Passes, run] at h
  exact h

lemma Passes.going (h : Passes n x s) : x s ≠ .error .exhausted s' := by
  intro run
  rw [Passes, run] at h
  exact h rfl

lemma Passes.bind (hx : Passes m x s)
    (hf : ∀ a s', x s = .ok a s' → s.Reads m s' → Passes n (f a) s') :
    Passes (m + n) (x >>= f) s := by
  cases run : x s with
  | ok a s' =>
    have first := hx.ok run
    have second := hf a s' run first
    rw [Passes, bind_of_ok run]
    rw [Passes] at second
    cases run' : f a s' with
    | ok b s'' =>
      rw [run'] at second
      exact first.trans second
    | error e s'' =>
      rw [run'] at second
      exact second
  | error e s' =>
    rw [Passes, bind_of_error run]
    rw [Passes, run] at hx
    exact hx

lemma Passes.weaken (h : Passes n x s) (le : m ≤ n) : Passes m x s := by
  cases run : x s with
  | ok a s' =>
    rw [Passes, run]
    exact (h.ok run).weaken le
  | error e s' =>
    rw [Passes, run] at h ⊢
    exact h

/-- Only the run counts. -/
lemma Passes.congr (run : x s = y s) (h : Passes n y s) : Passes n x s := by
  rw [Passes, run]
  exact h

lemma passes_unexpected (e : Expectation) : Passes n (unexpected e : Compile α) s := by
  change Error.unexpected .. ≠ .exhausted
  nofun

lemma passes_throw (h : e ≠ .exhausted) : Passes n (throw e : Compile α) s := h

/-- A step that does not touch the stream. -/
class Still (x : Compile α) : Prop where
  passes {s : Session} : s.Closed → Passes 0 x s
  remaining {s s' : Session} {a : α} : s.Closed → x s = .ok a s' →
    s'.cursor.remaining = s.cursor.remaining

/-- A step that passes at least `n` tokens wherever fewer than `r` are left. -/
class Below (r n : Nat) (x : Compile α) : Prop where
  passes {s : Session} : s.Closed → s.cursor.remaining < r → Passes n x s

/-- A step that passes at least `n` tokens before the last of them, wherever at most
`r` are left. -/
class Before (r n : Nat) (x : Compile α) : Prop where
  passes {s : Session} : s.Closed → 0 < s.cursor.remaining → s.cursor.remaining ≤ r → Passes n x s

/-! What a construct does is found by taking it apart: the rules below are instances, the later
ones are tried first. -/

instance Still.below [h : Still x] : Below r 0 x := ⟨fun closed _ => h.passes closed⟩

instance Below.weaken [h : Below r 1 x] : Below r 0 x :=
  ⟨fun closed few => (h.passes closed few).weaken (Nat.zero_le _)⟩

/-- What comes first passes the tokens. -/
instance Below.first [hx : Below r n x] [hf : ∀ a, Below r 0 (f a)] : Below r n (x >>= f) :=
  ⟨fun closed few => (hx.passes closed few).bind fun a _ _ reads => (hf a).passes
    (closed.reads reads)
    (Nat.lt_of_le_of_lt (Nat.le_trans (Nat.le_add_right _ _) reads.remaining) few)⟩

instance Below.bind [hx : Below r 0 x] [hf : ∀ a, Below r n (f a)] : Below r n (x >>= f) := by
  refine ⟨fun closed few => ?_⟩
  have both := (hx.passes closed few).bind fun a s' _ reads => (hf a).passes (closed.reads reads)
    (Nat.lt_of_le_of_lt reads.remaining few)
  simpa using both

instance Below.map {g : α → β} [h : Below r n x] : Below r n (g <$> x) := by
  have done : ∀ a, Below r 0 (pure (g a) : Compile β) := fun a => ⟨fun closed _ => closed.refl⟩
  rw [← bind_pure_comp]
  exact .first

instance Still.then [hx : Still x] [hf : ∀ a, Still (f a)] : Still (x >>= f) where
  passes closed := (hx.passes closed).bind fun a _ _ reads => (hf a).passes (closed.reads reads)
  remaining closed run := by
    obtain ⟨a, s', first, second⟩ := bind_ok.mp run
    rw [(hf a).remaining (closed.reads ((hx.passes closed).ok first)) second,
      hx.remaining closed first]

instance Before.bind [hx : Before r 1 x] [hf : ∀ a, Below r 0 (f a)] : Before r 1 (x >>= f) := by
  refine ⟨fun closed more few => ?_⟩
  have both := (hx.passes closed more few).bind fun a s' _ reads =>
    (hf a).passes (closed.reads reads) (by have := reads.remaining; omega)
  exact both.weaken (Nat.le_add_right _ _)

instance Still.before [hx : Still x] [hf : ∀ a, Before r n (f a)] : Before r n (x >>= f) := by
  refine ⟨fun closed more few => ?_⟩
  have both := (hx.passes closed).bind fun a s' run reads => (hf a).passes (closed.reads reads)
    (by rw [hx.remaining closed run]; exact more) (by rw [hx.remaining closed run]; exact few)
  simpa using both

/-- Passing a token that is not the last leaves fewer. -/
instance before_advance {g : Unit → Compile β} [h : ∀ a, Below r n (g a)] :
    Before r (n + 1) (advance >>= g) := by
  refine ⟨fun {s} closed more few => ?_⟩
  have first : Passes 1 advance s := closed.advance_more more
  have both := first.bind fun a s' _ reads => (h a).passes (closed.reads reads)
    (by have := reads.remaining; omega)
  rwa [Nat.add_comm]

/-! Where a result is not used, one and the same step follows, and the rules ask for that step
alone. -/

instance Below.first_same {y : Compile β} [Below r n x] [Below r 0 y] :
    Below r n (x >>= fun _ => y) := .first

instance Below.same {y : Compile β} [Below r 0 x] [Below r n y] : Below r n (x >>= fun _ => y) :=
  .bind

instance Still.same {y : Compile β} [Still x] [Still y] : Still (x >>= fun _ => y) := .then

instance Still.before_same {y : Compile β} [Still x] [Before r n y] :
    Before r n (x >>= fun _ => y) := Still.before

instance before_advance_same {y : Compile β} [Below r n y] :
    Before r (n + 1) (advance >>= fun _ => y) := before_advance

/-! The same rules with what follows given by hand, for a construct that branches on it. -/

lemma Below.andThen [Below r 0 x] (h : ∀ a, Below r n (f a)) : Below r n (x >>= f) := .bind

lemma Still.andThen [Still x] (h : ∀ a, Still (f a)) : Still (x >>= f) := .then

lemma Before.andThen [Still x] (h : ∀ a, Before r n (f a)) : Before r n (x >>= f) := Still.before

lemma Before.advancing {g : Unit → Compile β} (h : ∀ a, Below r n (g a)) :
    Before r (n + 1) (advance >>= g) := before_advance

/-- What passes a token wherever one more is left passes one before the last. -/
lemma Below.before (h : Below (r + 1) n x) : Before r n x :=
  ⟨fun closed _ few => h.passes closed (Nat.lt_succ_of_le few)⟩

lemma Before.below (h : Before r n x)
    (ends : ∀ s : Session, s.Closed → s.symbol.kind = .endOfInput →
      s.cursor.remaining < r + 1 → Passes n x s) : Below (r + 1) n x := by
  refine ⟨fun {s} closed few => ?_⟩
  by_cases other : s.symbol.kind = .endOfInput
  · exact ends s closed other few
  · exact h.passes closed (closed.more other) (Nat.le_of_lt_succ few)

/-- A loop comes to an end if every pass either ends it or passes a token. -/
lemma passes_loop {σ : Type} (loop : Nat → σ → Compile β) (next : σ → α → σ) (done : σ → β)
    {pass : Compile (Option α)} (below : Below r 0 pass)
    (succ : ∀ fuel state, loop (fuel + 1) state =
      pass >>= (·.elim (pure (done state)) fun a => loop fuel (next state a)))
    (reads : ∀ {s s' : Session} {a : α}, s.Closed → s.cursor.remaining < r →
      pass s = .ok (some a) s' → s.Reads 1 s') (fuel : Nat) (state : σ) (closed : s.Closed)
    (few : s.cursor.remaining < r) (enough : s.cursor.remaining < fuel) :
    Passes 0 (loop fuel state) s := by
  induction fuel generalizing s state with
  | zero => exact absurd enough (Nat.not_lt_zero _)
  | succ fuel ih =>
    rw [succ]
    refine (below.passes closed few).bind (n := 0) fun a s' run first => ?_
    have closed' := closed.reads first
    cases a with
    | none => exact closed'.refl
    | some a =>
      have left := (reads closed few run).remaining
      exact ih _ closed' (by omega) (by omega)

/-! ### Choices -/

section Choices

variable {c : Prop} [Decidable c]

instance Still.ite [Still x] [Still y] : Still (if c then x else y) := by
  split <;> infer_instance

instance Below.ite [Below r n x] [Below r n y] : Below r n (if c then x else y) := by
  split <;> infer_instance

instance Before.ite [Before r n x] [Before r n y] : Before r n (if c then x else y) := by
  split <;> infer_instance

end Choices

/-! ### Single steps -/

instance below_unexpected (e : Expectation) : Below r n (unexpected e : Compile α) :=
  ⟨fun _ _ => passes_unexpected e⟩

instance below_unexpected_bind (e : Expectation) : Below r n (unexpected e >>= f) :=
  ⟨fun _ _ => passes_unexpected e⟩

instance before_unexpected (e : Expectation) : Before r n (unexpected e : Compile α) :=
  ⟨fun _ _ _ => passes_unexpected e⟩

instance still_unexpected (e : Expectation) : Still (unexpected e : Compile α) :=
  ⟨fun _ => passes_unexpected e, fun _ run => absurd run unexpected_ne_ok⟩

instance below_advance : Below r 0 advance := ⟨fun closed _ => closed.advance⟩

instance below_skipNewlines : Below r 0 skipNewlines := ⟨fun closed _ => closed.skip _⟩

instance below_skipTerminators : Below r 0 skipTerminators := ⟨fun closed _ => closed.skip _⟩

/-- A step that changes other things than the stream. -/
lemma Still.change {g : Session → α} {h : Session → Session} (run : ∀ s, x s = .ok (g s) (h s))
    (buffer : ∀ s : Session, (h s).cursor.buffer = s.cursor.buffer)
    (position : ∀ s : Session, (h s).cursor.position = s.cursor.position)
    (table : ∀ s : Session, s.table.HasEnd → (h s).table.HasEnd) : Still x := by
  have reads : ∀ s : Session, s.Closed → s.Reads 0 (h s) := fun s closed =>
    ⟨buffer s, table s closed.table, Nat.le_of_eq (position s).symm⟩
  refine ⟨fun {s} closed => by rw [Passes, run]; exact reads s closed, fun {s} _ _ _ same => ?_⟩
  rw [run] at same
  cases same
  have before := s.cursor.length_buffer
  have after := (h s).cursor.length_buffer
  rw [buffer, position] at after
  omega

instance Still.look [h : Looks x] : Still x := by
  have reads : ∀ {s s' : Session} {a : α}, x s = .ok a s' → s' = s := fun {s s' a} run => by
    obtain ⟨b, look⟩ := h.run s
    cases look.symm.trans run
    rfl
  refine ⟨fun {s} closed => ?_, fun _ run => by rw [reads run]⟩
  obtain ⟨b, look⟩ := h.run s
  rw [Passes, look]
  exact closed.refl

instance still_pure (a : α) : Still (pure a : Compile α) := .change (g := fun _ => a) (fun _ => rfl)
  (fun _ => rfl) (fun _ => rfl) fun _ => id

/-- A change that leaves the stream and the table alone. -/
lemma Still.aside {g : Session → α} {h : Session → Session} (run : ∀ s, x s = .ok (g s) (h s))
    (same : ∀ s : Session, (h s).cursor.buffer = s.cursor.buffer ∧
      (h s).cursor.position = s.cursor.position ∧ (h s).table = s.table) : Still x :=
  .change run (fun s => (same s).1) (fun s => (same s).2.1) fun s closed => by rwa [(same s).2.2]

instance still_emit (text : String) : Still (emit text) :=
  .aside (fun _ => rfl) fun _ => ⟨rfl, rfl, rfl⟩

instance still_write (change : Listing → Listing) : Still (write change) :=
  .aside (fun _ => rfl) fun _ => ⟨rfl, rfl, rfl⟩

instance still_indent : Still indent := still_write _

instance still_dedent : Still dedent := still_write _

instance still_appendLines (lines : List String) (levels : Nat) :
    Still (appendLines lines levels) :=
  still_write _

instance still_takeSince (mark : Nat) : Still (takeSince mark) :=
  .aside (fun _ => rfl) fun _ => ⟨rfl, rfl, rfl⟩

instance still_nextTemporary : Still nextTemporary :=
  .aside (fun _ => rfl) fun _ => ⟨rfl, rfl, rfl⟩

instance still_needMainLoop : Still needMainLoop :=
  .aside (fun _ => rfl) fun _ => ⟨rfl, rfl, rfl⟩

instance still_noteCall (call : SymbolId × Nat) :
    Still (modify fun s : Session => { s with calls := s.calls ++ [call] }) :=
  .aside (fun _ => rfl) fun _ => ⟨rfl, rfl, rfl⟩

lemma still_intern {add : Table → SymbolId × Table}
    (h : ∀ t : Table, t.HasEnd → (add t).2.HasEnd) : Still (intern add) :=
  .change (fun _ => rfl) (fun _ => rfl) (fun _ => rfl) fun _ => h _

instance still_regexForString (id : SymbolId) : Still (intern (·.regexForString id)) :=
  still_intern fun _ h => h.regexForString _

instance still_requireLibrary (library : String) : Still (requireLibrary library) := by
  refine .change (g := fun _ => ()) (fun _ => rfl) ?_ ?_ ?_ <;> intro s
  · split <;> rfl
  · split <;> rfl
  · split <;> exact id

lemma still_changeTable {change : Table → Except Error Table}
    (h : ∀ t t' : Table, t.HasEnd → change t = .ok t' → t'.HasEnd)
    (going : ∀ t, change t ≠ .error .exhausted) : Still (changeTable change) := by
  refine ⟨fun {s} closed => ?_, fun _ run => ?_⟩
  · rw [Passes, changeTable_run]
    cases changed : change s.table with
    | ok table => exact ⟨rfl, h _ _ closed.table changed, Nat.le_refl _⟩
    | error e => exact fun same => going _ (same ▸ changed)
  · obtain ⟨t, -, rfl⟩ := changeTable_eq run
    rfl

instance still_markArray (id : SymbolId) (line : Nat) : Still (markArray id line) := by
  refine still_changeTable (fun t t' h marked => h.grows (Table.grows_markArray marked)) fun t => ?_
  rw [Table.markArray]
  split
  · split
    · simp
    · split <;> simp
  · simp

instance still_markScalar (id : SymbolId) (line : Nat) : Still (markScalar id line) := by
  refine still_changeTable (fun t t' h marked => h.grows (Table.grows_markScalar marked))
    fun t => ?_
  rw [Table.markScalar]
  split
  · split <;> simp
  · simp

instance still_warn (warning : Format.Warning) : Still (warn warning) := by
  have noted : ∀ line, Still (modify fun s : Session =>
      { s with diagnostics := s.diagnostics ++ [{ line, warning }] }) := fun _ =>
    .aside (fun _ => rfl) fun _ => ⟨rfl, rfl, rfl⟩
  unfold warn
  infer_instance

instance still_forM {g : β → Compile Unit} [∀ b, Still (g b)] (bs : List β) :
    Still (bs.forM g) := by
  induction bs with
  | nil => exact still_pure ()
  | cons b bs ih => exact Still.then

instance still_formatted (arguments : List Fragment) : Still (formatted arguments) := by
  unfold formatted
  infer_instance

instance still_useAsScalar (f : Fragment) : Still (Expression.useAsScalar f) := by
  unfold Expression.useAsScalar
  split <;> infer_instance

instance below_expectBracket (b : Bracket) (text : String) : Below r 1 (expectBracket b text) := by
  refine ⟨fun {s} closed few => ?_⟩
  change Passes 1 (if (decide (s.symbol.kind = .bracket b)) = true
    then advance else unexpected (.mark text)) s
  split
  case isTrue at_ =>
    refine closed.advance_more (closed.more ?_)
    rw [of_decide_eq_true at_]
    simp
  case isFalse => exact passes_unexpected _

instance below_expectComma : Below r 0 expectComma := by
  unfold expectComma
  infer_instance

instance below_expectSemicolon : Below r 0 expectSemicolon := by
  unfold expectSemicolon
  infer_instance

end Compile

end AwkToPython
