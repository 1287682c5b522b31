import AwkToPython.Proofs.Cursor
import AwkToPython.Proofs.Python.Block
import AwkToPython.Proofs.Run
import AwkToPython.Proofs.Table

/-!
# What compiling an expression does to a session

An expression passes tokens that can stand inside one, lets the table grow,
writes straight code at the end of the current bucket and takes temporaries. All
else stays. This holds whether it is compiled or refused.
-/
namespace AwkToPython

open Python (IsComment IsPlain Shows Written Block)

variable {b : Block String} {table : Table} {k : SymbolKind} {s s0 : Session}

/-- A symbol that can stand inside an expression. -/
def Symbol.isInner (s : Symbol) : Bool :=
  match s.kind with
  | .bracket .openBrace | .elseWord | .heading _ | .comment _ | .endOfInput => false
  | .keyword keyword => keyword = .getline
  | .terminator consumed collapsed => consumed && collapsed
  | _ => true

/-- Code without loops and jumps, as it stands before the line of an expression. -/
inductive Python.Block.Straight : Block String → Prop where
  | done : Straight .done
  | line {text : String} (plain : IsPlain text) {rest : Block String} (h : Straight rest) :
      Straight (.line (.plain text) rest)
  | when (text : String) {yes rest : Block String} (filled : yes.isDone = false)
      (h : Straight yes) (h' : Straight rest) : Straight (.when (.holds text) yes rest)
  | choose (text : String) {yes no rest : Block String} (filled : yes.isDone = false)
      (filledNo : no.isDone = false) (h : Straight yes) (h' : Straight no) (h'' : Straight rest) :
      Straight (.choose (.holds text) yes no rest)

lemma Python.Block.Straight.append (ha : a.Straight) (hb : b.Straight) : (a ++ b).Straight := by
  induction ha with
  | done => exact hb
  | line plain _ ih => exact .line plain ih
  | «when» text filled h _ _ ih => exact .when text filled h ih
  | choose text filled filledNo h h' _ _ _ ih => exact .choose text filled filledNo h h' ih

/-- What holds of every token that was read from a source text: its role is that
of its symbol, and its symbol is regular. -/
structure Token.Sound (table : Table) (t : Token) : Prop where
  valid : t.symbol < table.size
  newline : t.isNewline = true → (table.symbol t.symbol).kind = .terminator true true
  comment : t.isComment = true → IsComment (table.symbol t.symbol).python
  regular : (table.symbol t.symbol).Regular

/-- The marks are at their places, the table is proper, and the tokens from the
one before the current one on are sound and close with an end of input. -/
structure Session.Sound (s : Session) : Prop where
  marked : s.table.Marked
  proper : s.table.Proper
  tokens : ∀ t ∈ s.cursor.tokens, t.Sound s.table
  comments : ∀ t ∈ s.cursor.comments, t.Sound s.table ∧ t.isComment = true
  prior : ∀ t ∈ s.cursor.prior, t.Sound s.table
  lastWord : s.cursor.last.isComment = false
  ends : (s.table.symbol s.cursor.last.symbol).kind = .endOfInput

/-- The session after the current token was passed. -/
abbrev Session.past (s : Session) : Session := { s with cursor := s.cursor.advance }

/-- The session after line ends were passed. -/
abbrev Session.pastLines (s : Session) : Session :=
  { s with cursor := s.cursor.skip Token.isNewline }

lemma Token.Sound.grows {token : Token} (h : token.Sound t) (g : t.Grows t') : token.Sound t' := by
  have same := g.word _ h.valid
  refine ⟨Nat.lt_of_lt_of_le h.valid g.size, fun line => ?_, fun comment => ?_,
    h.regular.of_word same⟩
  · exact Symbol.kind_of_word same (h.newline line) (by simp)
  · rw [Symbol.python_of_word same]
    exact h.comment comment

namespace Session

variable {s s' : Session}

lemma Sound.current (h : s.Sound) : s.cursor.current.Sound s.table :=
  h.tokens _ List.mem_cons_self

/-- Only the tokens and the table count. -/
lemma Sound.same (h : s.Sound) (cursor : s'.cursor = s.cursor) (table : s'.table = s.table) :
    s'.Sound := by
  obtain ⟨marked, proper, tokens, comments, prior, lastWord, ends⟩ := h
  rw [← table] at marked proper tokens comments prior ends
  rw [← cursor] at tokens comments prior lastWord ends
  exact ⟨marked, proper, tokens, comments, prior, lastWord, ends⟩

lemma Sound.grows (h : s.Sound) (g : s.table.Grows table) : Sound { s with table } := by
  refine ⟨h.marked.grows g, g.proper h.proper, fun t ht => (h.tokens t ht).grows g,
    fun t ht => ⟨(h.comments t ht).1.grows g, (h.comments t ht).2⟩,
    fun t ht => (h.prior t ht).grows g, h.lastWord, ?_⟩
  exact Symbol.kind_of_word (g.word _ (h.tokens _ (Cursor.last_mem_tokens _)).valid) h.ends
    (by simp)

lemma Sound.ahead_ne_nil (h : s.Sound) (inner : s.symbol.kind ≠ .endOfInput) :
    s.cursor.ahead ≠ [] :=
  Cursor.ahead_ne_nil fun same => inner (by rw [Session.symbol, same]; exact h.ends)

lemma Sound.move (h : s.Sound) (tokens : c.tokens <:+ s.cursor.tokens)
    (comments : ∀ t ∈ c.comments, t ∈ s.cursor.comments ∨ t ∈ s.cursor.tokens ∧ t.isComment = true)
    (prior : ∀ t ∈ c.prior, t ∈ s.cursor.prior ∨ t ∈ s.cursor.tokens)
    (last : c.last = s.cursor.last) : Sound { s with cursor := c } := by
  refine ⟨h.marked, h.proper, fun t ht => h.tokens t (tokens.mem ht), fun t ht => ?_,
    fun t ht => ?_, ?_, ?_⟩
  · rcases comments t ht with old | ⟨mem, comment⟩
    · exact h.comments t old
    · exact ⟨h.tokens t mem, comment⟩
  · exact (prior t ht).elim (h.prior t) (h.tokens t)
  · rw [last]
    exact h.lastWord
  · simp only [last]
    exact h.ends

lemma Sound.advance (h : s.Sound) : Sound { s with cursor := s.cursor.advance } :=
  h.move (Cursor.advance_tokens_suffix _) (fun _ => Cursor.advance_comments)
    (fun t ht => .inr (by
      rw [Cursor.advance_prior, Option.mem_some_iff] at ht
      exact ht ▸ List.mem_cons_self)) (Cursor.advance_last _)

lemma Sound.skip (h : s.Sound) (p : Token → Bool) : Sound { s with cursor := s.cursor.skip p } :=
  h.move (Cursor.skipWhile_tokens_suffix _ _) (fun _ => Cursor.skipWhile_comments _)
    (fun _ => Cursor.skipWhile_prior _)
    (Cursor.skipWhile_last _ _)

/-- Advancing takes the current token away unless the input ends there. -/
lemma Sound.shown_advance (h : s.Sound) (inner : s.symbol.kind ≠ .endOfInput) :
    s.cursor.shown = s.cursor.current :: s.cursor.advance.shown :=
  Cursor.shown_advance (h.ahead_ne_nil inner) h.lastWord

lemma Sound.last_not_newline (h : s.Sound) : s.cursor.last.isNewline = false := by
  cases e : s.cursor.last.isNewline with
  | false => rfl
  | true =>
    have := (h.tokens _ (Cursor.last_mem_tokens _)).newline e
    rw [h.ends] at this
    cases this

lemma Sound.peek (h : s.Sound) (n : Nat) : (s.cursor.peek n).Sound s.table :=
  h.tokens _ (Cursor.nth_mem n _ _)

/-- Looking one token ahead shows where advancing leads, line ends apart. -/
lemma Sound.advance_peek (h : s.Sound)
    (found : (s.table.symbol (s.cursor.peek 1).symbol).kind = k) (line : k ≠ .terminator true true)
    (inner : k ≠ .endOfInput) : s.cursor.advance.current = s.cursor.peek 1 ∧
      ∀ n, s.cursor.advance.peek (n + 1) = s.cursor.peek (n + 2) := by
  refine Cursor.advance_of_peek rfl ?_ fun same => ?_
  · cases e : (s.cursor.peek 1).isNewline with
    | false => rfl
    | true => exact absurd (found.symm.trans ((h.peek 1).newline e)) line
  · have ends := h.ends
    rw [← same, found] at ends
    exact inner ends

lemma Sound.advance_current (h : s.Sound)
    (found : (s.table.symbol (s.cursor.peek 1).symbol).kind = k) (line : k ≠ .terminator true true)
    (inner : k ≠ .endOfInput) : s.cursor.advance.current = s.cursor.peek 1 :=
  (h.advance_peek found line inner).1

/-- The session after lines were written, with the comments passed before. -/
def written (s : Session) (ls : List String) : Session :=
  { s with cursor := { s.cursor with comments := [] }, listing := s.listing.extend ls }

/-- The texts of the comments that were passed and fit a description. -/
def commentTexts (s : Session) (p : Token → Bool) : List String :=
  (s.cursor.comments.filter p).map fun t => (s.table.symbol t.symbol).python

/-- The lines as which a text is written, with the comments passed before. -/
def linesFor (s : Session) (text : String) : List String :=
  (s.commentTexts (Compile.isOwnLineComment s.table)).map
    (Listing.indentation s.listing.depth ++ ·) ++
    [Listing.indentation s.listing.depth ++ text ++
      String.join ((s.commentTexts (!Compile.isOwnLineComment s.table ·)).map ("  " ++ ·))]

@[simp] lemma written_written (s : Session) (ls ls' : List String) :
    (s.written ls).written ls' = s.written (ls ++ ls') := by
  simp [written]

@[simp] lemma written_depth (s : Session) (ls : List String) :
    (s.written ls).listing.depth = s.listing.depth := by
  simp [written]

lemma Sound.written (h : s.Sound) (ls : List String) : (s.written ls).Sound :=
  ⟨h.marked, h.proper, h.tokens, by simp [Session.written], h.prior, h.lastWord, h.ends⟩

end Session

/-- What compiling an expression may do to a session. -/
structure Session.Effect (s s' : Session) : Prop where
  start : s.Sound
  shown : ∃ ts, s.cursor.shown = ts ++ s'.cursor.shown ∧
    ∀ t ∈ ts, (s.table.symbol t.symbol).isInner = true
  table : s.table.Grows s'.table
  listing : ∃ b ls, s'.listing = s.listing.extend ls ∧ b.Straight ∧
    Written Eq s.listing.depth b ls
  temporaries : s.temporaries ≤ s'.temporaries
  others : s'.registry = s.registry ∧ s'.files = s.files ∧ s'.options = s.options ∧
    s'.headers = s.headers
  sound : s'.Sound

namespace Session.Effect

variable {s s' s'' : Session}

lemma refl (h : s.Sound) : s.Effect s :=
  ⟨h, ⟨[], by simp⟩, .refl _, ⟨.done, [], by simp, .done, .done⟩, Nat.le_refl _,
    ⟨rfl, rfl, rfl, rfl⟩, h⟩

lemma depth (h : s.Effect s') : s'.listing.depth = s.listing.depth := by
  obtain ⟨b, ls, same, _⟩ := h.listing
  rw [same, Listing.extend_toPosition]

lemma shorter (h : s.Effect s') : s'.cursor.shown.length ≤ s.cursor.shown.length := by
  obtain ⟨ts, same, -⟩ := h.shown
  rw [same, List.length_append]
  exact Nat.le_add_left _ _

lemma word (h : s.Effect s') {t : Token} (valid : t.symbol < s.table.size) :
    (s'.table.symbol t.symbol).word = (s.table.symbol t.symbol).word := h.table.word _ valid

end Session.Effect

lemma Symbol.isInner_of_word {s s' : Symbol} (h : s'.word = s.word) : s'.isInner = s.isInner := by
  rcases kind_cases h with ⟨use, use', hk, hk'⟩ | hk' <;> simp [isInner, *]

namespace Session.Effect

variable {s s' s'' : Session}

lemma trans (h : s.Effect s') (h' : s'.Effect s'') : s.Effect s'' := by
  obtain ⟨ts, shown, inner⟩ := h.shown
  obtain ⟨ts', shown', inner'⟩ := h'.shown
  obtain ⟨b, ls, same, straight, written⟩ := h.listing
  obtain ⟨b', ls', same', straight', written'⟩ := h'.listing
  refine ⟨h.start, ⟨ts ++ ts', by rw [shown, shown', List.append_assoc], ?_⟩,
    h.table.trans h'.table,
    ⟨b ++ b', ls ++ ls', by rw [same', same, Listing.extend_extend], straight.append straight', ?_⟩,
    Nat.le_trans h.temporaries h'.temporaries, ?_, h'.sound⟩
  · intro t ht
    rcases List.mem_append.mp ht with ht | ht
    · exact inner t ht
    · -- the token was shown at first already, so its word is still the same
      have mem : t ∈ s.cursor.shown := by
        rw [shown, shown']
        simp [ht]
      have mem' : t ∈ s.cursor.tokens :=
        (((Cursor.visible_sublist _).cons_cons s.cursor.current).mem mem)
      rw [← Symbol.isInner_of_word (h.word (h.start.tokens t mem').valid)]
      exact inner' t ht
  · rw [h.depth] at written'
    exact written.append written'
  · rw [h'.others.1, h'.others.2.1, h'.others.2.2.1, h'.others.2.2.2]
    exact h.others

lemma advance (h : s.Effect s') (inner : s'.symbol.isInner = true) :
    s.Effect { s' with cursor := s'.cursor.advance } := by
  have ne : s'.symbol.kind ≠ .endOfInput := by
    intro e
    simp [Symbol.isInner, e] at inner
  refine h.trans ⟨h.sound, ⟨[s'.cursor.current], h.sound.shown_advance ne, ?_⟩, .refl _,
    ⟨.done, [], by simp, .done, .done⟩, Nat.le_refl _, ⟨rfl, rfl, rfl, rfl⟩, h.sound.advance⟩
  intro t ht
  rw [List.mem_singleton.mp ht]
  exact inner

lemma skipNewlines (h : s.Effect s') :
    s.Effect { s' with cursor := s'.cursor.skip Token.isNewline } := by
  obtain ⟨ts, shown, all⟩ :=
    Cursor.skipWhile_shown (s'.cursor.remaining + 1) h.sound.lastWord h.sound.last_not_newline
  refine h.trans ⟨h.sound, ⟨ts, shown, ?_⟩, .refl _, ⟨.done, [], by simp, .done, .done⟩,
    Nat.le_refl _, ⟨rfl, rfl, rfl, rfl⟩, h.sound.skip _⟩
  intro t ht
  have mem : t ∈ s'.cursor.shown := by
    rw [shown]
    simp [ht]
  have mem' : t ∈ s'.cursor.tokens :=
    ((Cursor.visible_sublist _).cons_cons s'.cursor.current).mem mem
  simp [Symbol.isInner, (h.sound.tokens t mem').newline (all t ht)]

lemma grow (h : s.Effect s') (g : s'.table.Grows table) : s.Effect { s' with table } :=
  h.trans ⟨h.sound, ⟨[], by simp⟩, g, ⟨.done, [], by simp, .done, .done⟩, Nat.le_refl _,
    ⟨rfl, rfl, rfl, rfl⟩, h.sound.grows g⟩

/-- Straight code is written. -/
lemma write (h : s.Effect s') (straight : b.Straight)
    (written : Written Eq s'.listing.depth b ls) : s.Effect (s'.written ls) :=
  h.trans ⟨h.sound, ⟨[], rfl, by simp⟩, .refl _, ⟨b, ls, rfl, straight, written⟩, Nat.le_refl _,
    ⟨rfl, rfl, rfl, rfl⟩, h.sound.written ls⟩

lemma count (h : s.Effect s') (more : s'.temporaries ≤ n) : s.Effect { s' with temporaries := n } :=
  h.trans ⟨h.sound, ⟨[], rfl, by simp⟩, .refl _, ⟨.done, [], by simp, .done, .done⟩, more,
    ⟨rfl, rfl, rfl, rfl⟩, h.sound.same rfl rfl⟩

/-- Steps that touch nothing but the notes for later. -/
lemma note {imports : List String} {hasMainLoop : Bool} {calls : List (SymbolId × Nat)}
    {diagnostics : List Diagnostic} (h : s.Effect s') :
    s.Effect { s' with imports, hasMainLoop, calls, diagnostics } :=
  h.trans ⟨h.sound, ⟨[], rfl, by simp⟩, .refl _, ⟨.done, [], by simp, .done, .done⟩, Nat.le_refl _,
    ⟨rfl, rfl, rfl, rfl⟩, h.sound.same rfl rfl⟩

lemma takeSince (h : s.Effect s') : ∃ b ls, s'.listing.takeSince s.listing.mark = (ls, s.listing) ∧
    b.Straight ∧ Written Eq s.listing.depth b ls := by
  obtain ⟨b, ls, same, straight, written⟩ := h.listing
  exact ⟨b, ls, by rw [same, Listing.takeSince_extend], straight, written⟩

lemma takeBack (h : s.Effect s') : s.Effect { s' with listing := s.listing } :=
  ⟨h.start, h.shown, h.table, ⟨.done, [], by simp, .done, .done⟩, h.temporaries, h.others,
    h.sound.same rfl rfl⟩

end Session.Effect

namespace Listing

lemma foldl_line (texts : List String) (l : Listing) :
    texts.foldl line l = l.extend (texts.map (indentation l.depth ++ ·)) := by
  induction texts generalizing l with
  | nil => simp
  | cons text rest ih => simp [ih, line_eq_extend]

lemma foldl_append (texts : List String) (l : Listing) (ls : List String) (last : String) :
    texts.foldl append (l.extend (ls ++ [last])) =
      l.extend (ls ++ [last ++ String.join texts]) := by
  induction texts generalizing last with
  | nil => simp
  | cons text rest ih =>
    rw [List.foldl_cons, append_extend, ih]
    simp [String.append_assoc]

end Listing

namespace Compile

variable {x : Compile α} {s : Session}

variable {α β : Type}

/-- The session that a step leaves behind, whether it failed or not. -/
def after : EStateM.Result Error Session α → Session
  | .ok _ s => s
  | .error _ s => s

def succeeds : EStateM.Result Error Session α → Bool
  | .ok _ _ => true
  | .error _ _ => false

lemma ok_of_succeeds (h : succeeds (x s) = true) : ∃ a, x s = .ok a (after (x s)) := by
  cases run : x s with
  | ok a s' => exact ⟨a, rfl⟩
  | error e s' =>
    rw [run] at h
    cases h

lemma ok_after {x : Compile Unit} (h : succeeds (x s) = true) : x s = .ok () (after (x s)) :=
  (ok_of_succeeds h).choose_spec

/-- A step that does no more than an expression may do. -/
class Moves (x : Compile α) : Prop where
  effect {s : Session} : s.Sound → s.Effect (after (x s))

lemma Moves.ok (h : Moves x) (sound : s.Sound) (run : x s = .ok a s') : s.Effect s' := by
  have := h.effect sound
  rwa [run] at this

lemma Moves.bind {x : Compile α} {f : α → Compile β} (hx : Moves x)
    (h : s0.Effect s) (hf : ∀ a s', x s = .ok a s' → s0.Effect s' → s0.Effect (after (f a s'))) :
    s0.Effect (after ((x >>= f) s)) := by
  have hs := h.trans (hx.effect h.sound)
  cases hr : x s with
  | ok a s' =>
    rw [hr] at hs
    rw [bind_of_ok hr]
    exact hf a s' hr hs
  | error e s' =>
    rw [hr] at hs
    rw [bind_of_error hr]
    exact hs

lemma Moves.then (hx : Moves x) (h : s0.Effect s) :
    s0.Effect (after (x s)) := h.trans (hx.effect h.sound)

instance Moves.andThen {x : Compile α} {f : α → Compile β} [hx : Moves x] [hf : ∀ a, Moves (f a)] :
    Moves (x >>= f) :=
  ⟨fun sound => hx.bind (.refl sound) fun a _ _ e => (hf a).then e⟩

instance Moves.ite {c : Prop} [Decidable c] {x y : Compile α} [Moves x] [Moves y] :
    Moves (if c then x else y) := by
  split <;> infer_instance

@[simp] lemma after_map (f : α → β) (x : Compile α) (s : Session) :
    after ((f <$> x) s) = after (x s) := by
  cases hr : x s <;> simp [Functor.map, EStateM.map, hr, after]

instance Moves.map {x : Compile α} {f : α → β} [hx : Moves x] : Moves (f <$> x) :=
  ⟨fun sound => by
    rw [after_map]
    exact hx.effect sound⟩

@[simp] lemma after_pure (a : α) (s : Session) : after ((pure a : Compile α) s) = s := rfl

@[simp] lemma after_throw (e : Error) (s : Session) : after ((throw e : Compile α) s) = s := rfl

@[simp] lemma after_unexpected (e : Expectation) (s : Session) :
    after ((unexpected e : Compile α) s) = s := rfl

@[simp] lemma after_unexpected_bind (e : Expectation) (f : α → Compile β) (s : Session) :
    after ((unexpected e >>= f) s) = s := rfl

instance moves_pure (a : α) : Moves (pure a : Compile α) := ⟨fun sound => .refl sound⟩

instance moves_throw (e : Error) : Moves (throw e : Compile α) := ⟨fun sound => .refl sound⟩

instance moves_unexpected (e : Expectation) : Moves (unexpected e : Compile α) :=
  ⟨fun sound => .refl sound⟩

instance moves_unexpected_bind (e : Expectation) (f : α → Compile β) : Moves (unexpected e >>= f) :=
  ⟨fun sound => .refl sound⟩

/-- A line is written after the comments that have lines of their own, with the
others at its end. -/
lemma emit_eq (text : String) (s : Session) :
    emit text s = .ok () (s.written (s.linesFor text)) := by
  let textOf (t : Token) : String := (s.table.symbol t.symbol).python
  let own := s.cursor.comments.filter (isOwnLineComment s.table)
  let behind := s.cursor.comments.filter (!isOwnLineComment s.table ·)
  have first := Listing.foldl_line (own.map textOf) s.listing
  have second := Listing.foldl_append ((behind.map textOf).map ("  " ++ ·)) s.listing
    ((own.map textOf).map (Listing.indentation s.listing.depth ++ ·))
    (Listing.indentation s.listing.depth ++ text)
  rw [List.foldl_map] at first second
  rw [List.foldl_map] at second
  have run : emit text s = .ok () { s with
      cursor := { s.cursor with comments := [] }
      listing := behind.foldl (fun l t => l.append ("  " ++ textOf t))
        ((own.foldl (fun l t => l.line (textOf t)) s.listing).line text) } := by
    have parts : s.cursor.comments.partition (isOwnLineComment s.table) = (own, behind) :=
      List.partition_eq_filter_filter
    rw [emit, modify_run]
    simp only [Cursor.takeComments, parts]
    rfl
  rw [run, first, Listing.line_eq_extend, Listing.extend_extend, Listing.extend_toPosition, second]
  rfl

/-- The line that is written shows the text, with the comments passed before it. -/
lemma emit_run (sound : s.Sound) (text : String) : ∃ ls,
    emit text s = .ok () (s.written ls) ∧ Shows s.listing.depth text ls := by
  have comment : ∀ t ∈ s.cursor.comments, IsComment (s.table.symbol t.symbol).python := fun t ht =>
    (sound.comments t ht).1.comment (sound.comments t ht).2
  refine ⟨s.linesFor text, emit_eq text s, _, _, ?_, ?_, rfl⟩
  all_goals
    intro c hc
    obtain ⟨t, ht, rfl⟩ := List.mem_map.mp hc
    exact comment t (List.mem_filter.mp ht).1

/-- Lines that were taken out before go under a level of their own, with one more
line behind them. -/
lemma emit_inside (sound : s.Sound) (lines : List String) (text : String)
    (f : Unit → Compile α) : ∃ ls, Shows (s.listing.depth + 1) text ls ∧
      (do appendLines lines 1; indent; emit text; dedent; f ()) s =
        f () (s.written (Listing.deeper 1 lines ++ ls)) := by
  let s1 : Session := { s with listing := (s.listing.extend (Listing.deeper 1 lines)).indent }
  have sound1 : s1.Sound := sound.same rfl rfl
  obtain ⟨ls, run, shows⟩ := emit_run sound1 text
  refine ⟨ls, by simpa [s1] using shows, ?_⟩
  have step : (do appendLines lines 1; indent; emit text; dedent; f ()) s =
      (do emit text; dedent; f ()) s1 := rfl
  have same : ((s1.written ls).listing).dedent =
      s.listing.extend (Listing.deeper 1 lines ++ ls) := by
    simp only [Session.written, s1]
    rw [Listing.indent_extend, Listing.dedent_indent, Listing.extend_extend]
  rw [step]
  have run2 : (do emit text; dedent; f ()) s1 = (do dedent; f ()) (s1.written ls) := by
    simp only [Bind.bind, EStateM.bind, run]
  rw [run2, dedent, write_bind, same]
  rfl

end Compile

end AwkToPython
