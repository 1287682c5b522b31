import AwkToPython.Session
import Mathlib.Tactic.Common

/-!
# Running the steps of a compilation

What each primitive step does to a session, said once. A step that only looks is
taken by rewriting; a step that may fail is taken apart by `bind_ok`.
-/
namespace AwkToPython

/-- The symbol of the current token. -/
abbrev Session.symbol (s : Session) : Symbol := s.table.symbol s.cursor.current.symbol

namespace Compile

variable {x : Compile α} {f : α → Compile β} {s s' : Session} {a : α}

variable {α β : Type}

lemma bind_ok {x : Compile α} {f : α → Compile β} {b : β} :
    (x >>= f) s = .ok b s' ↔ ∃ a s1, x s = .ok a s1 ∧ f a s1 = .ok b s' := by
  constructor
  · intro h
    cases hx : x s with
    | ok a s1 => exact ⟨a, s1, rfl, by simpa [bind, EStateM.bind, hx] using h⟩
    | error e s1 => simp [bind, EStateM.bind, hx] at h
  · rintro ⟨a, s1, hx, hf⟩
    simpa [bind, EStateM.bind, hx] using hf

lemma bind_of_ok (run : x s = .ok a s') : (x >>= f) s = f a s' := by
  simp [bind, EStateM.bind, run]

lemma bind_of_error (run : x s = .error e s') : (x >>= f) s = .error e s' := by
  simp [bind, EStateM.bind, run]

lemma map_ok {x : Compile α} {f : α → β} {b : β} :
    (f <$> x) s = .ok b s' ↔ ∃ a, x s = .ok a s' ∧ f a = b := by
  cases hx : x s with
  | ok a s1 => simp [Functor.map, EStateM.map, hx, and_comm]
  | error e s1 => simp [Functor.map, EStateM.map, hx]

@[simp] lemma pure_run (a : α) (s : Session) : (pure a : Compile α) s = .ok a s := rfl

@[simp] lemma throw_run (e : Error) (s : Session) : (throw e : Compile α) s = .error e s := rfl

lemma modify_run (g : Session → Session) (s : Session) :
    (modify g : Compile Unit) s = .ok () (g s) := rfl

lemma run'_ok (run : x s = .ok a s') : x.run' s = some a := by
  delta EStateM.run' EStateM.run
  rw [run]

/-! ### Steps that only look -/

@[simp] lemma get_bind (f : Session → Compile α) (s : Session) : (get >>= f) s = f s s := rfl

@[simp] lemma current_bind (f : Token → Compile α) (s : Session) :
    (current >>= f) s = f s.cursor.current s := rfl

@[simp] lemma symbolOf_bind (t : Token) (f : Symbol → Compile α) (s : Session) :
    (symbolOf t >>= f) s = f (s.table.symbol t.symbol) s := rfl

@[simp] lemma symbol_bind (f : Symbol → Compile α) (s : Session) :
    (symbol >>= f) s = f s.symbol s := rfl

@[simp] lemma kind_bind (f : SymbolKind → Compile α) (s : Session) :
    (kind >>= f) s = f s.symbol.kind s := rfl

@[simp] lemma peek_bind (n : Nat) (f : Token → Compile α) (s : Session) :
    (peek n >>= f) s = f (s.cursor.peek n) s := rfl

@[simp] lemma line_bind (f : Nat → Compile α) (s : Session) :
    (line >>= f) s = f s.cursor.current.line s := rfl

@[simp] lemma remaining_bind (f : Nat → Compile α) (s : Session) :
    (remaining >>= f) s = f s.cursor.remaining s := rfl

@[simp] lemma atKind_bind (k : SymbolKind) (f : Bool → Compile α) (s : Session) :
    (atKind k >>= f) s = f (decide (s.symbol.kind = k)) s := rfl

@[simp] lemma atBracket_bind (b : Bracket) (f : Bool → Compile α) (s : Session) :
    (atBracket b >>= f) s = f (decide (s.symbol.kind = .bracket b)) s := rfl

@[simp] lemma atKey_bind (k : String) (f : Bool → Compile α) (s : Session) :
    (atKey k >>= f) s = f (decide (s.symbol.key = k)) s := rfl

@[simp] lemma atStatementEnd_bind (f : Bool → Compile α) (s : Session) :
    (atStatementEnd >>= f) s = f (s.symbol.isTerminator || s.symbol.isEnd) s := rfl

@[simp] lemma pythonOf_bind (id : SymbolId) (f : String → Compile α) (s : Session) :
    (pythonOf id >>= f) s = f (s.table.symbol id).python s := rfl

@[simp] lemma mark_bind (f : Nat → Compile α) (s : Session) :
    (mark >>= f) s = f s.listing.mark s := rfl

/-! ### Steps that change the session and never fail -/

@[simp] lemma modify_bind (g : Session → Session) (f : Unit → Compile α) (s : Session) :
    (modify g >>= f) s = f () (g s) := rfl

@[simp] lemma advance_bind (f : Unit → Compile α) (s : Session) :
    (advance >>= f) s = f () { s with cursor := s.cursor.advance } := rfl

@[simp] lemma skipNewlines_bind (f : Unit → Compile α) (s : Session) :
    (skipNewlines >>= f) s = f () { s with cursor := s.cursor.skip Token.isNewline } := rfl

@[simp] lemma skipTerminators_bind (f : Unit → Compile α) (s : Session) :
    (skipTerminators >>= f) s = f () { s with
      cursor := s.cursor.skip (fun t => (s.table.symbol t.symbol).isConsumedTerminator) } := rfl

@[simp] lemma nextTemporary_bind (f : Nat → Compile α) (s : Session) : (nextTemporary >>= f) s =
      f (s.temporaries + 1) { s with temporaries := s.temporaries + 1 } := rfl

@[simp] lemma intern_bind (add : Table → SymbolId × Table) (f : SymbolId → Compile α)
    (s : Session) :
    (intern add >>= f) s = f (add s.table).1 { s with table := (add s.table).2 } := rfl

@[simp] lemma takeSince_bind (mark : Nat) (f : List String → Compile α) (s : Session) :
    (takeSince mark >>= f) s = f (s.listing.takeSince mark).1
      { s with listing := (s.listing.takeSince mark).2 } := rfl

@[simp] lemma write_bind (g : Listing → Listing) (f : Unit → Compile α) (s : Session) :
    (write g >>= f) s = f () { s with listing := g s.listing } := rfl

@[simp] lemma unexpected_ne_ok {e : Expectation} {a : α} :
    (unexpected e : Compile α) s ≠ .ok a s' := by
  rw [unexpected, get_bind]
  intro same
  cases same

/-- What succeeds behind a check has passed it. -/
lemma check_ok {c : Prop} [Decidable c] {e : Expectation} {f : α → Compile β} {x : Compile β}
    {b : β} (run : (if c then unexpected e >>= f else x) s = .ok b s') : ¬ c ∧ x s = .ok b s' := by
  split at run
  · obtain ⟨a, s1, failed, -⟩ := bind_ok.mp run
    exact absurd failed unexpected_ne_ok
  case isFalse passed => exact ⟨passed, run⟩

end Compile

end AwkToPython
