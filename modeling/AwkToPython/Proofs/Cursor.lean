import AwkToPython.Cursor
import Mathlib.Data.List.Basic

/-!
# What a cursor shows

The tokens that reading and advancing brings to light, as one list. Advancing
takes the first of them away; nothing else about the hidden tokens matters to a
reader. The last token of a stream is the one on which a cursor rests for good.
-/
namespace AwkToPython.Cursor

open List

variable {c : Cursor} {t : Token}

/-- The tokens of a stream that are no comments and no line ends before further
line ends. -/
def visible : List Token → List Token
  | [] => []
  | t :: rest =>
    if t.isComment || (t.isNewline && newlineFollows rest) then visible rest
    else t :: visible rest

/-- The current token and all that advancing will show after it. -/
def shown (c : Cursor) : List Token := c.current :: visible c.ahead

/-- The current token and all that stand after it. -/
def tokens (c : Cursor) : List Token := c.current :: c.ahead

/-- The token that the cursor comes to rest on. -/
def last (c : Cursor) : Token := c.ahead.getLastD c.current

-- their equations are made once, before the lemmas ask for them
attribute [local grind =] settle newlineFollows visible shown tokens last advance nth skipWhile skip

lemma visible_sublist (ts : List Token) : (visible ts).Sublist ts := by
  induction ts with
  | nil => exact List.Sublist.refl _
  | cons t rest ih =>
    rw [visible]
    split
    · exact ih.cons t
    · exact ih.cons_cons t

lemma last_mem_tokens (c : Cursor) : c.last ∈ c.tokens := by
  cases h : c.ahead with
  | nil => simp [last, tokens, h]
  | cons next rest =>
    rw [last, tokens, h, getLastD_cons]
    exact mem_cons_of_mem _ (getLastD_mem_cons)

lemma ahead_ne_nil (h : c.current ≠ c.last) : c.ahead ≠ [] := by
  intro nil
  exact h (by simp [last, nil])

section Settle

variable (passed : List Token) (current : Token) (ahead comments : List Token)
  (prior : Option Token)

lemma settle_last : (settle passed current ahead comments prior).last = ahead.getLastD current := by
  induction ahead generalizing passed current comments with
  | nil => simp [settle, last]
  | cons next rest ih =>
    rw [settle, getLastD_cons]
    split
    · exact ih _ _ _
    · split
      · exact ih _ _ _
      · simp only [last, getLastD_cons]

lemma settle_tokens_suffix :
    (settle passed current ahead comments prior).tokens <:+ current :: ahead := by
  induction ahead generalizing passed current comments with
  | nil => simp [settle, tokens]
  | cons next rest ih =>
    rw [settle]
    split
    · exact (ih _ _ _).trans (suffix_cons _ _)
    · split
      · exact (ih _ _ _).trans (suffix_cons _ _)
      · exact suffix_refl _

/-- What is set aside on the way are comments that stood in the stream. -/
lemma settle_comments (h : t ∈ (settle passed current ahead comments prior).comments) :
    t ∈ comments ∨ t ∈ current :: ahead ∧ t.isComment = true := by
  induction ahead generalizing passed current comments with
  | nil => exact Or.inl (by simpa [settle] using h)
  | cons next rest ih =>
    rw [settle] at h
    split at h
    case isTrue comment =>
      rcases ih _ _ _ h with old | ⟨hmem, hc⟩
      · rcases mem_append.mp old with old | new
        · exact Or.inl old
        · have same := mem_singleton.mp new
          subst same
          exact Or.inr ⟨mem_cons_self, comment⟩
      · exact Or.inr ⟨mem_cons_of_mem _ hmem, hc⟩
    case isFalse =>
      split at h
      · rcases ih _ _ _ h with old | ⟨hmem, hc⟩
        · exact Or.inl old
        · exact Or.inr ⟨mem_cons_of_mem _ hmem, hc⟩
      · exact Or.inl h

lemma settle_shown (word : (ahead.getLastD current).isComment = false) :
    (settle passed current ahead comments prior).shown = visible (current :: ahead) := by
  induction ahead generalizing passed current comments with
  | nil =>
    have plain : current.isComment = false := word
    simp [settle, shown, visible, plain, newlineFollows]
  | cons next rest ih =>
    rw [getLastD_cons] at word
    rw [settle, visible]
    cases comment : current.isComment with
    | true => simpa [comment] using ih (current :: passed) next (comments ++ [current]) word
    | false =>
      cases repeated : current.isNewline && newlineFollows (next :: rest) with
      | true => simpa [comment, repeated] using ih (current :: passed) next comments word
      | false => simp [shown]

lemma settle_prior : (settle passed current ahead comments prior).prior = prior := by
  induction ahead generalizing passed current comments with
  | nil => rfl
  | cons next rest ih =>
    rw [settle]
    split
    · exact ih _ _ _
    · split
      · exact ih _ _ _
      · rfl

end Settle

/-- Away from the end of the stream, advancing takes away the first token shown. -/
lemma shown_advance (more : c.ahead ≠ []) (word : c.last.isComment = false) :
    c.shown = c.current :: c.advance.shown := by
  cases h : c.ahead with
  | nil => exact absurd h more
  | cons next rest =>
    rw [last, h, getLastD_cons] at word
    rw [advance, h]
    simp only
    rw [settle_shown _ _ _ _ _ word, shown, h]

lemma advance_prior (c : Cursor) : c.advance.prior = some c.current := by
  cases h : c.ahead with
  | nil => simp [advance, h]
  | cons next rest =>
    rw [advance, h]
    exact settle_prior _ _ _ _ _

lemma advance_last (c : Cursor) : c.advance.last = c.last := by
  cases h : c.ahead with
  | nil => simp [advance, h, last]
  | cons next rest =>
    rw [advance, h]
    simp only
    rw [settle_last, last, h, getLastD_cons]

lemma advance_tokens_suffix (c : Cursor) : c.advance.tokens <:+ c.tokens := by
  cases h : c.ahead with
  | nil => simp [advance, h, tokens]
  | cons next rest =>
    rw [advance, h]
    change _ <:+ c.current :: c.ahead
    rw [h]
    exact (settle_tokens_suffix _ _ _ _ _).trans (suffix_cons _ _)

lemma advance_comments (h : t ∈ c.advance.comments) :
    t ∈ c.comments ∨ t ∈ c.tokens ∧ t.isComment = true := by
  cases hc : c.ahead with
  | nil => exact Or.inl (by simpa [advance, hc] using h)
  | cons next rest =>
    rw [advance, hc] at h
    rcases settle_comments _ _ _ _ _ h with old | ⟨mem, comment⟩
    · exact Or.inl old
    · exact Or.inr ⟨by rw [tokens, hc]; exact mem_cons_of_mem _ mem, comment⟩

section Skip

variable {p : Token → Bool}

lemma skip_of_not (h : p c.current = false) : c.skip p = c := by
  simp [skip, skipWhile, h]

/-- Skipping takes away tokens with the property, and never the last token. -/
lemma skipWhile_shown (fuel : Nat) (word : c.last.isComment = false)
    (stop : p c.last = false) : ∃ ts, c.shown = ts ++ (skipWhile p fuel c).shown ∧
      ∀ t ∈ ts, p t = true := by
  induction fuel generalizing c with
  | zero => exact ⟨[], by simp [skipWhile]⟩
  | succ fuel ih =>
    rw [skipWhile]
    cases h : p c.current with
    | false => exact ⟨[], by simp⟩
    | true =>
      have more : c.ahead ≠ [] := ahead_ne_nil fun same => by
        rw [same, stop] at h
        cases h
      obtain ⟨ts, shows, all⟩ := ih (c := c.advance)
        (by rw [advance_last]; exact word) (by rw [advance_last]; exact stop)
      refine ⟨c.current :: ts, ?_, ?_⟩
      · rw [shown_advance more word, shows]
        simp
      · intro t ht
        rcases mem_cons.mp ht with rfl | ht
        · exact h
        · exact all t ht

lemma skipWhile_last (fuel : Nat) (c : Cursor) : (skipWhile p fuel c).last = c.last := by
  induction fuel generalizing c with
  | zero => rfl
  | succ fuel ih =>
    rw [skipWhile]
    split
    · rw [ih, advance_last]
    · rfl

lemma skipWhile_tokens_suffix (fuel : Nat) (c : Cursor) :
    (skipWhile p fuel c).tokens <:+ c.tokens := by
  induction fuel generalizing c with
  | zero => exact suffix_refl _
  | succ fuel ih =>
    rw [skipWhile]
    split
    · exact (ih _).trans (advance_tokens_suffix c)
    · exact suffix_refl _

lemma skipWhile_prior (fuel : Nat)
    (h : t ∈ (skipWhile p fuel c).prior) : t ∈ c.prior ∨ t ∈ c.tokens := by
  induction fuel generalizing c with
  | zero => exact Or.inl h
  | succ fuel ih =>
    rw [skipWhile] at h
    split at h
    · rcases ih h with old | mem
      · rw [advance_prior, Option.mem_some_iff] at old
        exact Or.inr (old ▸ mem_cons_self)
      · exact Or.inr ((advance_tokens_suffix c).mem mem)
    · exact Or.inl h

lemma skipWhile_comments (fuel : Nat) (h : t ∈ (skipWhile p fuel c).comments) :
    t ∈ c.comments ∨ t ∈ c.tokens ∧ t.isComment = true := by
  induction fuel generalizing c with
  | zero => exact Or.inl h
  | succ fuel ih =>
    rw [skipWhile] at h
    split at h
    · rcases ih h with old | ⟨mem, comment⟩
      · exact advance_comments old
      · exact Or.inr ⟨(advance_tokens_suffix c).mem mem, comment⟩
    · exact Or.inl h

end Skip

lemma nth_mem (n : Nat) (last : Token) (ahead : List Token) : nth n last ahead ∈ last :: ahead := by
  induction ahead generalizing n last with
  | nil => exact mem_singleton.mpr rfl
  | cons t rest ih =>
    rw [nth]
    split
    · exact mem_cons_of_mem _ (ih n t)
    · split
      · simp
      · exact mem_cons_of_mem _ (ih (n - 1) t)

lemma settle_of_nth {next last : Token} (passed comments : List Token)
    (prior : Option Token) (found : nth 1 last (next :: rest) = t) (line : t.isNewline = false)
    (inner : t ≠ rest.getLastD next) : (settle passed next rest comments prior).current = t ∧
      ∀ n, (settle passed next rest comments prior).peek (n + 1) =
        nth (n + 2) last (next :: rest) := by
  induction rest generalizing passed next last comments with
  | nil => exact absurd (by simpa [nth] using found.symm) inner
  | cons a rest ih =>
    rw [settle]
    cases comment : next.isComment with
    | true =>
      have found' : nth 1 next (a :: rest) = t := by simpa [nth, comment] using found
      obtain ⟨current, further⟩ := ih (next :: passed) (comments ++ [next]) found'
        (by rwa [getLastD_cons] at inner)
      refine ⟨by simpa using current, fun n => ?_⟩
      rw [nth]
      simpa [comment] using further n
    | false =>
      have same : next = t := by simpa [nth, comment] using found
      subst same
      simp [line, peek, nth, comment]

/-- A token found by looking ahead that is neither a line end nor the last of
all is where advancing leads, and looking further goes on from there. -/
lemma advance_of_peek (found : c.peek 1 = t) (line : t.isNewline = false) (inner : t ≠ c.last) :
    c.advance.current = t ∧ ∀ n, c.advance.peek (n + 1) = c.peek (n + 2) := by
  cases h : c.ahead with
  | nil =>
    simp only [peek, last, h, nth, getLastD_nil] at found inner
    exact absurd found.symm inner
  | cons next rest =>
    rw [peek, h] at found
    rw [last, h, getLastD_cons] at inner
    simp only [advance, h]
    obtain ⟨current, further⟩ := settle_of_nth (c.current :: c.passed) c.comments (some c.current)
      found line inner
    exact ⟨current, fun n => (further n).trans (by rw [peek, h])⟩

end AwkToPython.Cursor
