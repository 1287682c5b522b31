import AwkToPython.Proofs.Step
import AwkToPython.Statement.Compound
import Mathlib.Data.List.Chain

/-!
# From one session to the next

Whatever comes of a step, the table has only grown, and lines go where they went
before. If the step succeeds, more is known: of all pairs of neighbours among the
tokens it has passed, a variable before an opening bracket is an array by now, and
one before an assignment is a scalar.
-/
namespace AwkToPython

open Compile List AwkToPython.Symbol Cursor SymbolKind

namespace Table

variable {line : Nat} {t : Table} {ts : List Token}

def isScalar (t : Table) (id : SymbolId) : Bool :=
  ((t.symbol id).variableUse?.map (·.isScalar)).getD false

variable {t t' : Table} {id : SymbolId}

lemma isArray_iff : t.isArray id ↔ ∃ use, (t.symbol id).kind = .var use ∧ use.isArray := by
  rw [isArray, variableUse?]
  cases (t.symbol id).kind <;> simp

lemma isScalar_iff : t.isScalar id ↔ ∃ use, (t.symbol id).kind = .var use ∧ use.isScalar := by
  rw [isScalar, variableUse?]
  cases (t.symbol id).kind <;> simp

lemma lt_size_of_isArray (h : t.isArray id) : id < t.size := by
  obtain ⟨use, kind, -⟩ := isArray_iff.mp h
  exact lt_size (by simp [kind])

lemma lt_size_of_isScalar (h : t.isScalar id) : id < t.size := by
  obtain ⟨use, kind, -⟩ := isScalar_iff.mp h
  exact lt_size (by simp [kind])

lemma Grows.isArray (g : t.Grows t') (h : t.isArray id) : t'.isArray id := by
  obtain ⟨use, kind, array⟩ := isArray_iff.mp h
  obtain ⟨use', kind', keeps, -⟩ := g.learns id (lt_size_of_isArray h) use kind
  exact isArray_iff.mpr ⟨use', kind', keeps array⟩

lemma Grows.isScalar (g : t.Grows t') (h : t.isScalar id) : t'.isScalar id := by
  obtain ⟨use, kind, scalar⟩ := isScalar_iff.mp h
  obtain ⟨use', kind', -, keeps⟩ := g.learns id (lt_size_of_isScalar h) use kind
  exact isScalar_iff.mpr ⟨use', kind', keeps scalar⟩

lemma Proper.not_both (h : t.Proper) (array : t.isArray id) (scalar : t.isScalar id) : False := by
  obtain ⟨use, kind, isArray⟩ := isArray_iff.mp array
  obtain ⟨use', kind', isScalar⟩ := isScalar_iff.mp scalar
  cases kind.symm.trans kind'
  have := h.exclusive id
  simp [isExclusive, kind, isArray, isScalar] at this

lemma isArray_of_markArray (h : t.markArray id line = .ok t')
    (var : (t.symbol id).isVariable) : t'.isArray id := by
  obtain ⟨use, kind⟩ := isVariable_iff.mp var
  have bound : id < t.size := lt_size (by simp [kind])
  rw [markArray] at h
  simp only [kind] at h
  split at h
  · cases h
  · split at h
    case isTrue array =>
      cases h
      exact isArray_iff.mpr ⟨use, kind, array⟩
    case isFalse =>
      cases h
      rw [isArray_iff, symbol_set, if_pos ⟨rfl, bound⟩]
      exact ⟨_, rfl, rfl⟩

lemma isScalar_of_markScalar (h : t.markScalar id line = .ok t')
    (var : (t.symbol id).isVariable) : t'.isScalar id := by
  obtain ⟨use, kind⟩ := isVariable_iff.mp var
  have bound : id < t.size := lt_size (by simp [kind])
  rw [markScalar] at h
  simp only [kind] at h
  split at h
  · cases h
  · cases h
    rw [isScalar_iff, symbol_set, if_pos ⟨rfl, bound⟩]
    exact ⟨_, rfl, rfl⟩

end Table

lemma Symbol.isVariable_of_word {s s' : Symbol} (h : s'.word = s.word) :
    s'.isVariable = s.isVariable := by
  rcases kind_cases h with ⟨use, use', hk, hk'⟩ | hk' <;> simp [isVariable, variableUse?, *]

/-- What a token says of the variable right before it. -/
def SymbolKind.isSubscript (k : SymbolKind) : Bool := k = .bracket .openBracket

def SymbolKind.isAssign (k : SymbolKind) : Bool := k = .binary .assign

/-- A token that says nothing of what stands right before it. -/
def SymbolKind.isSilent (k : SymbolKind) : Bool := !k.isSubscript && !k.isAssign

namespace Token

/-- A variable right before an opening bracket is an array, and one right before
an assignment a scalar. -/
def Linked (t : Table) (a b : Token) : Prop :=
  (t.symbol a.symbol).isVariable = true →
    ((t.symbol b.symbol).kind.isSubscript = true → t.isArray a.symbol = true) ∧
    ((t.symbol b.symbol).kind.isAssign = true → t.isScalar a.symbol = true)

variable {t t' : Table} {a b : Token}

lemma Linked.grows (h : Linked t a b) (g : t.Grows t') (inside : a.symbol < t.size)
    (inside' : b.symbol < t.size) : Linked t' a b := by
  intro var
  rw [isVariable_of_word (g.word _ inside)] at var
  have back : ∀ {k : SymbolKind}, (∀ use, k ≠ .var use) → (t'.symbol b.symbol).kind = k →
      (t.symbol b.symbol).kind = k := fun plain kind =>
    kind_of_word (g.word _ inside').symm kind plain
  refine ⟨fun subscript => g.isArray ((h var).1 ?_), fun assign => g.isScalar ((h var).2 ?_)⟩
  · exact decide_eq_true (back (by simp) (of_decide_eq_true subscript))
  · exact decide_eq_true (back (by simp) (of_decide_eq_true assign))

lemma linked_of_isSilent (h : (t.symbol b.symbol).kind.isSilent) : Linked t a b := by
  simp only [isSilent, Bool.and_eq_true, Bool.not_eq_true'] at h
  exact fun _ => ⟨fun subscript => by simp [h.1] at subscript,
    fun assign => by simp [h.2] at assign⟩

end Token

/-- The last token of a list is found from the last one of its first part on. -/
lemma getLast?_resume {α : Type} (l m : List α) :
    (l.getLast?.toList ++ m).getLast? = (l ++ m).getLast? := by
  rw [getLast?_append, getLast?_append]
  cases l.getLast? <;> rfl

namespace Session

/-- What compiling an item leaves alone. -/
def setting (s : Session) : Registry × SourceFiles × Options := (s.registry, s.files, s.options)

/-- What any step may do to a session, also if it fails. -/
structure Stays (s s' : Session) : Prop where
  start : s.Sound
  table : s.table.Grows s'.table
  position : s'.listing.toPosition = s.listing.toPosition
  setting : s'.setting = s.setting
  sound : s'.Sound

/-- The neighbours among the token before the current one and tokens after it are
linked. -/
def Links (s : Session) (t : Table) (ts : List Token) : Prop :=
  (s.cursor.prior.toList ++ ts).IsChain (Token.Linked t)

/-- What a step that succeeds does. -/
structure Trip (s s' : Session) : Prop extends Stays s s' where
  tokens : ∃ ts, s.cursor.shown = ts ++ s'.cursor.shown ∧
    s'.cursor.prior = (s.cursor.prior.toList ++ ts).getLast? ∧ s.Links s'.table ts

variable {s s' s'' : Session}

namespace Stays

lemma refl (sound : s.Sound) : s.Stays s := ⟨sound, .refl _, rfl, rfl, sound⟩

lemma trans (h : s.Stays s') (h' : s'.Stays s'') : s.Stays s'' :=
  ⟨h.start, h.table.trans h'.table, h'.position.trans h.position, h'.setting.trans h.setting,
    h'.sound⟩

end Stays

lemma Effect.stays (h : s.Effect s') : s.Stays s' := by
  refine ⟨h.start, h.table, ?_, ?_, h.sound⟩
  rotate_left
  · rw [setting, h.others.1, h.others.2.1, h.others.2.2.1, setting]
  obtain ⟨b, ls, same, -⟩ := h.listing
  rw [same, Listing.extend_toPosition]

lemma Sound.shown_sound (sound : s.Sound) (mem : t ∈ s.cursor.shown) : t.Sound s.table :=
  sound.tokens t (((visible_sublist _).cons_cons s.cursor.current).mem mem)

lemma Links.grows (h : s.Links t ts) (g : t.Grows t')
    (valid : ∀ x ∈ s.cursor.prior.toList ++ ts, x.symbol < t.size) : s.Links t' ts := by
  refine List.IsChain.imp_of_mem_imp (fun a b ha hb linked => ?_) h
  exact linked.grows g (valid a ha) (valid b hb)

lemma Sound.valid_of_mem (sound : s.Sound) (mem : ∀ b ∈ ts, b ∈ s.cursor.shown) :
    ∀ x ∈ s.cursor.prior.toList ++ ts, x.symbol < s.table.size := by
  intro x hx
  rcases mem_append.mp hx with hx | hx
  · exact (sound.prior x (by simpa using hx)).valid
  · exact (sound.shown_sound (mem x hx)).valid

lemma links_append (h : s.Links t ts) (h' : s'.Links t ts')
    (prior : s'.cursor.prior = (s.cursor.prior.toList ++ ts).getLast?) : s.Links t (ts ++ ts') := by
  rw [Links] at h h' ⊢
  rw [prior] at h'
  rw [← append_assoc]
  generalize s.cursor.prior.toList ++ ts = before at h h' ⊢
  rcases eq_nil_or_concat' before with rfl | ⟨rest, last, rfl⟩
  · simpa using h'
  · rw [getLast?_concat, Option.toList_some] at h'
    exact List.IsChain.append_overlap h h' (by simp)

namespace Trip

lemma refl (sound : s.Sound) : s.Trip s := by
  refine ⟨.refl sound, [], rfl, by cases s.cursor.prior <;> rfl, ?_⟩
  rw [Links]
  cases s.cursor.prior <;> simp

lemma trans (h : s.Trip s') (h' : s'.Trip s'') : s.Trip s'' := by
  obtain ⟨ts, shown, prior, links⟩ := h.tokens
  obtain ⟨ts', shown', prior', links'⟩ := h'.tokens
  have mem : ∀ b ∈ ts, b ∈ s.cursor.shown := by
    rw [shown]
    exact fun b hb => mem_append_left _ hb
  have valid := fun x hx => Nat.lt_of_lt_of_le (h.start.valid_of_mem mem x hx) h.table.size
  refine ⟨h.toStays.trans h'.toStays, ts ++ ts', by rw [shown, shown', append_assoc], ?_,
    links_append (links.grows h'.table valid) links' prior⟩
  rw [prior', prior, ← append_assoc]
  exact getLast?_resume _ _

/-- Pass the current token, if what it says of the one before it is so. -/
lemma pastLinked (h : s.Trip s') (inner : s'.symbol.kind ≠ .endOfInput)
    (linked : ∀ p ∈ s'.cursor.prior, Token.Linked s'.table p s'.cursor.current) :
    s.Trip s'.past := by
  refine h.trans ⟨⟨h.sound, .refl _, rfl, rfl, h.sound.advance⟩, [s'.cursor.current],
    h.sound.shown_advance inner, ?_, ?_⟩
  · rw [advance_prior, getLast?_concat]
  · rw [Links]
    cases prior : s'.cursor.prior with
    | none => simp
    | some p => exact isChain_pair.mpr (linked p prior)

/-- Pass a token that says nothing of the one before it. -/
lemma past (h : s.Trip s') (inner : s'.symbol.kind ≠ .endOfInput)
    (silent : s'.symbol.kind.isSilent) : s.Trip s'.past :=
  h.pastLinked inner fun _ _ => Token.linked_of_isSilent silent

/-- Pass all tokens with a property that only terminators have. -/
lemma skip {p : Token → Bool} (h : s.Trip s') (terminators : ∀ t ∈ s'.cursor.tokens, p t →
      ∃ consumed collapsed, (s'.table.symbol t.symbol).kind = .terminator consumed collapsed) :
    s.Trip { s' with cursor := s'.cursor.skip p } := by
  -- one token after the other, as long as the fuel lasts
  have run : ∀ fuel (c : Cursor), c.tokens <:+ s'.cursor.tokens → s.Trip { s' with cursor := c } →
      s.Trip { s' with cursor := skipWhile p fuel c } := by
    intro fuel
    induction fuel with
    | zero => exact fun c _ trip => trip
    | succ fuel ih =>
      intro c sub trip
      rw [skipWhile]
      split
      case isTrue found =>
        obtain ⟨consumed, collapsed, kind⟩ := terminators _ (sub.mem mem_cons_self) found
        exact ih _ ((advance_tokens_suffix c).trans sub)
          (trip.past (by simp [Session.symbol, kind])
            (by simp [Session.symbol, kind, isSilent, isSubscript,
              isAssign]))
      case isFalse => exact trip
  exact run _ _ (suffix_refl _) h

lemma pastLines (h : s.Trip s') : s.Trip s'.pastLines :=
  h.skip fun t mem line => ⟨true, true, (h.sound.tokens t mem).newline line⟩

lemma pastTerminators (h : s.Trip s') : s.Trip { s' with
    cursor := s'.cursor.skip fun t => (s'.table.symbol t.symbol).isConsumedTerminator } := by
  refine h.skip fun t _ consumed => ?_
  rw [isConsumedTerminator] at consumed
  cases kind : (s'.table.symbol t.symbol).kind with
  | terminator taken collapsed => exact ⟨taken, collapsed, rfl⟩
  | _ => simp [kind] at consumed

lemma grow (h : s.Trip s') (g : s'.table.Grows t) : s.Trip { s' with table := t } := by
  refine h.trans ⟨⟨h.sound, g, rfl, rfl, h.sound.grows g⟩, [], rfl, ?_, ?_⟩
  · cases s'.cursor.prior <;> rfl
  · rw [Links]
    cases s'.cursor.prior <;> simp

end Trip

/-- Two sessions that differ in lines, comments and notes at most. -/
structure Alike (s s' : Session) : Prop where
  table : s'.table = s.table
  setting : s'.setting = s.setting
  current : s'.cursor.current = s.cursor.current
  ahead : s'.cursor.ahead = s.cursor.ahead
  prior : s'.cursor.prior = s.cursor.prior
  bucket : s'.listing.bucket = s.listing.bucket
  comments : ∀ t ∈ s'.cursor.comments, t ∈ s.cursor.comments

lemma Alike.refl (s : Session) : s.Alike s := ⟨rfl, rfl, rfl, rfl, rfl, rfl, fun _ => id⟩

lemma Alike.trans (h : s.Alike s') (h' : s'.Alike s'') : s.Alike s'' :=
  ⟨h'.table.trans h.table, h'.setting.trans h.setting, h'.current.trans h.current,
    h'.ahead.trans h.ahead, h'.prior.trans h.prior, h'.bucket.trans h.bucket,
    fun t mem => h.comments t (h'.comments t mem)⟩

lemma Sound.alike (sound : s.Sound) (h : s.Alike s') : s'.Sound := by
  have tokens : s'.cursor.tokens = s.cursor.tokens := by
    rw [Cursor.tokens, Cursor.tokens, h.current, h.ahead]
  have last : s'.cursor.last = s.cursor.last := by
    rw [Cursor.last, Cursor.last, h.current, h.ahead]
  refine ⟨?_, ?_, ?_, fun t mem => ?_, ?_, ?_, ?_⟩
  · exact h.table ▸ sound.marked
  · exact h.table ▸ sound.proper
  · rw [tokens, h.table]
    exact sound.tokens
  · rw [h.table]
    exact sound.comments t (h.comments t mem)
  · rw [h.prior, h.table]
    exact sound.prior
  · exact last ▸ sound.lastWord
  · rw [last, h.table]
    exact sound.ends

/-- Nothing that matters changes if the depth is the same. -/
lemma Trip.alike (h : s.Trip s') (alike : s'.Alike s'')
    (depth : s''.listing.depth = s'.listing.depth) : s.Trip s'' := by
  refine h.trans ⟨⟨h.sound, alike.table ▸ .refl _, ?_, alike.setting, h.sound.alike alike⟩, [], ?_,
    ?_, ?_⟩
  · rw [Position.mk.injEq]
    exact ⟨alike.bucket, depth⟩
  · rw [nil_append, shown, shown, alike.current, alike.ahead]
  · rw [alike.prior]
    cases s'.cursor.prior <;> rfl
  · rw [Links]
    cases s'.cursor.prior <;> simp

end Session

end AwkToPython
