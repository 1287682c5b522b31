import AwkToPython.Expression.Operator
import AwkToPython.Proofs.Effect

/-!
# The effect of single steps

The steps that expressions are compiled with have the effect of an expression, and
those that can fail say by their result what they found.
-/
namespace AwkToPython

open Python (IsPlain)

namespace Compile

variable {change : Table → Except Error Table} {s s' : Session}

variable {α : Type}

/-- A step that does no more than an expression may do where the current token
can stand inside one. -/
class MovesInside (x : Compile α) : Prop where
  effect {s : Session} : s.Sound → s.symbol.isInner = true → s.Effect (after (x s))

section Rules

variable {β : Type} {x y : Compile α} {f : α → Compile β}

lemma MovesInside.then {s0 s : Session} (hx : MovesInside x)
    (h : s0.Effect s) (inner : s.symbol.isInner) : s0.Effect (after (x s)) :=
  h.trans (hx.effect h.sound inner)

lemma MovesInside.ok (h : MovesInside x) (sound : s.Sound)
    (inner : s.symbol.isInner) (run : x s = .ok a s') : s.Effect s' := by
  have := h.effect sound inner
  rwa [run] at this

/-! What a construct does is found by taking it apart: the rules below are instances, the
later ones are tried first. -/

instance Moves.inside [h : Moves x] : MovesInside x := ⟨fun sound _ => h.effect sound⟩

instance MovesInside.andThen [hx : MovesInside x] [hf : ∀ a, Moves (f a)] :
    MovesInside (x >>= f) := by
  refine ⟨fun {s} sound inner => ?_⟩
  have e := hx.effect sound inner
  cases run : x s with
  | ok a s' =>
    rw [run] at e
    rw [bind_of_ok run]
    exact (hf a).then e
  | error error s' =>
    rw [run] at e
    rw [bind_of_error run]
    exact e

instance MovesInside.map {f : α → β} [hx : MovesInside x] : MovesInside (f <$> x) :=
  ⟨fun sound inner => by
    rw [after_map]
    exact hx.effect sound inner⟩

instance MovesInside.ite {c : Prop} [Decidable c] [MovesInside x] [MovesInside y] :
    MovesInside (if c then x else y) := by
  split <;> infer_instance

instance movesInside_advance : MovesInside advance :=
  ⟨fun sound inner => (Session.Effect.refl sound).advance inner⟩

/-- A step that leaves the current token inside an expression. -/
class Stays (x : Compile α) : Prop where
  inner {s s' : Session} {a : α} : s.Sound → x s = .ok a s' → s'.symbol.isInner = s.symbol.isInner

instance Stays.andThen [hx : Moves x] [stays : Stays x] [hf : ∀ a, MovesInside (f a)] :
    MovesInside (x >>= f) := by
  refine ⟨fun {s} sound inner => hx.bind (.refl sound) fun a s' run e => ?_⟩
  exact (hf a).then e ((stays.inner sound run).trans inner)

/-! The same rules with what follows given by hand, for a construct that branches on it. -/

lemma Moves.next [Moves x] (h : ∀ a, Moves (f a)) : Moves (x >>= f) := .andThen

lemma MovesInside.next [MovesInside x] (h : ∀ a, Moves (f a)) : MovesInside (x >>= f) := .andThen

lemma Stays.next [Moves x] [Stays x] (h : ∀ a, MovesInside (f a)) : MovesInside (x >>= f) :=
  Stays.andThen

/-- A step that only looks. -/
class Looks (x : Compile α) : Prop where
  run (s : Session) : ∃ a, x s = .ok a s

lemma Looks.ok [h : Looks x] (run : x s = .ok a s') : s' = s := by
  obtain ⟨b, look⟩ := h.run s
  cases look.symm.trans run
  rfl

instance Looks.stays [Looks x] : Stays x := ⟨fun _ run => by rw [Looks.ok run]⟩

instance Looks.moves [h : Looks x] : Moves x := by
  refine ⟨fun {s} sound => ?_⟩
  obtain ⟨b, look⟩ := h.run s
  rw [look]
  exact .refl sound

end Rules

section Looking

instance : Looks get := ⟨fun _ => ⟨_, rfl⟩⟩

instance : Looks current := ⟨fun _ => ⟨_, rfl⟩⟩

instance : Looks symbol := ⟨fun _ => ⟨_, rfl⟩⟩

instance : Looks kind := ⟨fun _ => ⟨_, rfl⟩⟩

instance : Looks line := ⟨fun _ => ⟨_, rfl⟩⟩

instance : Looks remaining := ⟨fun _ => ⟨_, rfl⟩⟩

instance : Looks atStatementEnd := ⟨fun _ => ⟨_, rfl⟩⟩

instance {t : Token} : Looks (symbolOf t) := ⟨fun _ => ⟨_, rfl⟩⟩

instance {n : Nat} : Looks (peek n) := ⟨fun _ => ⟨_, rfl⟩⟩

instance {id : SymbolId} : Looks (pythonOf id) := ⟨fun _ => ⟨_, rfl⟩⟩

instance {k : SymbolKind} : Looks (atKind k) := ⟨fun _ => ⟨_, rfl⟩⟩

instance {b : Bracket} : Looks (atBracket b) := ⟨fun _ => ⟨_, rfl⟩⟩

instance {key : String} : Looks (atKey key) := ⟨fun _ => ⟨_, rfl⟩⟩

instance : Looks mark := ⟨fun _ => ⟨_, rfl⟩⟩

end Looking

/-! ### A token of a kind that can stand inside an expression -/

/-- Tokens of this kind can stand inside an expression. -/
class Inner (k : SymbolKind) : Prop where
  inner {s : Symbol} : s.kind = k → s.isInner = true

instance : Inner .comma := ⟨fun kind => by rw [Symbol.isInner, kind]⟩

instance : Inner .regex := ⟨fun kind => by rw [Symbol.isInner, kind]⟩

instance : Inner (.bracket .openParen) := ⟨fun kind => by rw [Symbol.isInner, kind]⟩

instance : Inner (.bracket .closeParen) := ⟨fun kind => by rw [Symbol.isInner, kind]⟩

instance : Inner (.bracket .closeBracket) := ⟨fun kind => by rw [Symbol.isInner, kind]⟩

instance : Inner (.keyword .getline) := ⟨fun kind => by rw [Symbol.isInner, kind]; rfl⟩

section Tests

variable {k : SymbolKind} [found : Inner k] {x y : Compile α}

instance moves_ifKind [hx : MovesInside x] [hy : Moves y] :
    Moves (atKind k >>= fun at_ => if at_ = true then x else y) := by
  refine ⟨fun {s} sound => ?_⟩
  rw [atKind_bind]
  split
  case isTrue at_ => exact hx.effect sound (found.inner (of_decide_eq_true at_))
  case isFalse => exact hy.effect sound

instance moves_unlessKind [hx : Moves x] [hy : MovesInside y] :
    Moves (atKind k >>= fun at_ => if (!at_) = true then x else y) := by
  refine ⟨fun {s} sound => ?_⟩
  rw [atKind_bind]
  split
  case isTrue => exact hx.effect sound
  case isFalse at_ => exact hy.effect sound (found.inner (by simpa using at_))

instance moves_ifBracket {b : Bracket} [Inner (.bracket b)] [MovesInside x] [Moves y] :
    Moves (atBracket b >>= fun at_ => if at_ = true then x else y) :=
  moves_ifKind

end Tests

lemma moves_emit (plain : IsPlain text) : Moves (emit text) := by
  refine ⟨fun {s} sound => ?_⟩
  obtain ⟨ls, run, shows⟩ := emit_run sound text
  rw [run]
  exact (Session.Effect.refl sound).write (.line plain .done) (.single (.plain text) shows)

lemma changeTable_run (change : Table → Except Error Table) (s : Session) :
    changeTable change s = match change s.table with
      | .ok t => .ok () { s with table := t }
      | .error e => .error e s := by
  rw [changeTable, get_bind]
  cases change s.table <;> rfl

lemma changeTable_eq (run : changeTable change s = .ok () s') :
    ∃ t, change s.table = .ok t ∧ s' = { s with table := t } := by
  rw [changeTable_run] at run
  cases hc : change s.table with
  | ok t =>
    rw [hc] at run
    cases run
    exact ⟨t, rfl, rfl⟩
  | error e =>
    rw [hc] at run
    cases run

lemma changeTable_ok (h : ∀ t t', change t = .ok t' → t.Grows t')
    (run : changeTable change s = .ok () s') :
    ∃ t, s.table.Grows t ∧ s' = { s with table := t } := by
  obtain ⟨t, changed, same⟩ := changeTable_eq run
  exact ⟨t, h _ _ changed, same⟩

lemma markArray_ok {id : SymbolId} {line : Nat}
    (h : markArray id line s = .ok () s') : ∃ t, s.table.Grows t ∧ s' = { s with table := t } :=
  changeTable_ok (fun _ _ => Table.grows_markArray) h

lemma markScalar_ok {id : SymbolId} {line : Nat}
    (h : markScalar id line s = .ok () s') : ∃ t, s.table.Grows t ∧ s' = { s with table := t } :=
  changeTable_ok (fun _ _ => Table.grows_markScalar) h

lemma moves_changeTable
    (h : ∀ t t', change t = .ok t' → t.Grows t') : Moves (changeTable change) := by
  refine ⟨fun {s} sound => ?_⟩
  rw [changeTable_run]
  cases hc : change s.table with
  | ok t => exact (Session.Effect.refl sound).grow (h _ _ hc)
  | error e => exact .refl sound

instance moves_markArray (id : SymbolId) (line : Nat) : Moves (markArray id line) :=
  moves_changeTable fun _ _ => Table.grows_markArray

lemma isInner_of_grows (sound : s.Sound) (g : s.table.Grows t) :
    (Session.symbol { s with table := t }).isInner = s.symbol.isInner :=
  Symbol.isInner_of_word (g.word _ sound.current.valid)

instance moves_markScalar (id : SymbolId) (line : Nat) : Moves (markScalar id line) :=
  moves_changeTable fun _ _ => Table.grows_markScalar

instance moves_requireLibrary (library : String) : Moves (requireLibrary library) := by
  refine ⟨fun {s} sound => ?_⟩
  have run : after (requireLibrary library s) =
      if s.imports.contains library then s else { s with imports := s.imports ++ [library] } := rfl
  rw [run]
  split
  · exact .refl sound
  · exact (Session.Effect.refl sound).note

instance moves_warn (warning : Format.Warning) : Moves (warn warning) :=
  ⟨fun sound => (Session.Effect.refl sound).note⟩

instance moves_forM {β : Type} {f : β → Compile Unit} [h : ∀ b, Moves (f b)] (bs : List β) :
    Moves (bs.forM f) := by
  induction bs with
  | nil => exact moves_pure ()
  | cons b bs ih => exact Moves.andThen

instance moves_formatted (arguments : List Fragment) : Moves (formatted arguments) := by
  unfold formatted
  infer_instance

instance moves_skipNewlines : Moves skipNewlines :=
  ⟨fun sound => (Session.Effect.refl sound).skipNewlines⟩

instance moves_expectBracket (b : Bracket) (text : String) [Inner (.bracket b)] :
    Moves (expectBracket b text) := by
  unfold expectBracket
  infer_instance

instance moves_expectComma : Moves expectComma := by
  unfold expectComma
  infer_instance

lemma expectBracket_ok (h : expectBracket b text s = .ok () s') :
    s.symbol.kind = .bracket b ∧ s' = { s with cursor := s.cursor.advance } := by
  rw [expectBracket, atBracket_bind] at h
  split at h
  case isTrue at_ =>
    cases h
    exact ⟨of_decide_eq_true at_, rfl⟩
  case isFalse => exact absurd h unexpected_ne_ok

lemma bind_bracket_ok (run : (expectBracket b text >>= f) s = .ok a s') :
    s.symbol.kind = .bracket b ∧ f () { s with cursor := s.cursor.advance } = .ok a s' := by
  obtain ⟨_, s1, passed, run⟩ := bind_ok.mp run
  obtain ⟨kind, rfl⟩ := expectBracket_ok passed
  exact ⟨kind, run⟩

lemma expectComma_ok (h : expectComma s = .ok () s') : s.symbol.kind = .comma ∧
      s' = { s with cursor := s.cursor.advance.skip Token.isNewline } := by
  rw [expectComma, atKind_bind] at h
  split at h
  case isTrue at_ =>
    cases h
    exact ⟨of_decide_eq_true at_, rfl⟩
  case isFalse => exact absurd h unexpected_ne_ok

end Compile

namespace Expression

open Compile AwkToPython.Symbol

instance moves_useAsScalar (f : Fragment) : Moves (useAsScalar f) := by
  unfold useAsScalar
  split <;> infer_instance

lemma useAsScalar_ok (h : useAsScalar f s = .ok () s') :
    ∃ t, s.table.Grows t ∧ s' = { s with table := t } := by
  rcases ht : f.target with _ | (id | _ | _)
  case some.var =>
    simp only [useAsScalar, ht, line_bind] at h
    exact markScalar_ok h
  all_goals
    simp only [useAsScalar, ht] at h
    cases h
    exact ⟨s.table, .refl _, rfl⟩

instance stays_useAsScalar (f : Fragment) : Stays (useAsScalar f) := by
  refine ⟨fun sound run => ?_⟩
  obtain ⟨t, grows, rfl⟩ := useAsScalar_ok run
  exact isInner_of_grows sound grows

lemma isInner_of_isVariable {s : Symbol} (h : s.isVariable) : s.isInner := by
  obtain ⟨use, kind⟩ := isVariable_iff.mp h
  rw [isInner, kind]

/-- The sign before a file's name is an operator. -/
lemma Session.Sound.kind_of_less {s : Session} (sound : s.Sound) (at_ : s.symbol.key = "<") :
    s.symbol.kind = .binary .comparison := by
  have less : ∃ e ∈ marks ++ binaryOperators,
      e.keyed ∧ e.symbol.key = "<" ∧ e.symbol.kind = .binary .comparison := by decide
  obtain ⟨e, he, keyed, key, kind⟩ := less
  exact (sound.current.regular.mark e he keyed (at_.trans key.symm)).trans kind

lemma Session.Sound.isInner_of_key {s : Session} (sound : s.Sound) (at_ : s.symbol.key = "<") :
    s.symbol.isInner := by
  simp [isInner, Session.Sound.kind_of_less sound at_]

end Expression

end AwkToPython
