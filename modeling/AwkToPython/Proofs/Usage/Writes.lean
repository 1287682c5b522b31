import AwkToPython.Proofs.Usage.Trip

/-!
# Steps that only write

Steps that write lines and take notes never fail, pass no token and leave the
table alone. How deep the next line goes is counted from a depth of reference.
-/
namespace AwkToPython

open Compile Session Listing

namespace Listing

variable {β : Type}

lemma foldl_toPosition {f : Listing → β → Listing} (bs : List β) (l : Listing)
    (h : ∀ l b, (f l b).toPosition = l.toPosition) : (bs.foldl f l).toPosition = l.toPosition := by
  induction bs generalizing l with
  | nil => rfl
  | cons b bs ih => rw [List.foldl_cons, ih, h]

lemma line_toPosition (l : Listing) (text : String) : (l.line text).toPosition = l.toPosition :=
  setLines_toPosition _ _

end Listing

namespace Compile

variable {α β : Type} {m n k : Nat}

/-- A step that only writes, from one depth to another. -/
class Writes (m : Nat) (n : outParam Nat) (x : Compile α) : Prop where
  run (s : Session) (d : Nat) : s.listing.depth = d + m →
    ∃ a s', x s = .ok a s' ∧ s.Alike s' ∧ s'.listing.depth = d + n

instance Writes.bind {f : α → Compile β} [hx : Writes m n x] [hf : ∀ a, Writes n k (f a)] :
    Writes m k (x >>= f) := by
  refine ⟨fun s d depth => ?_⟩
  obtain ⟨a, s1, run, alike, depth1⟩ := hx.run s d depth
  obtain ⟨b, s2, run', alike', depth2⟩ := (hf a).run s1 d depth1
  exact ⟨b, s2, bind_ok.mpr ⟨a, s1, run, run'⟩, alike.trans alike', depth2⟩

instance Writes.same {y : Compile β} [Writes m n x] [Writes n k y] :
    Writes m k (x >>= fun _ => y) :=
  .bind

lemma Writes.next {f : α → Compile β} [Writes m n x] (h : ∀ a, Writes n k (f a)) :
    Writes m k (x >>= f) := Writes.bind

instance Writes.ite {c : Prop} [Decidable c] {x y : Compile α} [Writes m n x] [Writes m n y] :
    Writes m n (if c then x else y) := by
  split <;> infer_instance

lemma Writes.ok (h : Writes 0 0 x)
    (run : x s = .ok a s') : s.Alike s' ∧ s'.listing.depth = s.listing.depth := by
  obtain ⟨b, s1, run', alike, depth⟩ := h.run s s.listing.depth rfl
  cases run'.symm.trans run
  exact ⟨alike, depth⟩

instance writes_pure (a : α) : Writes m m (pure a : Compile α) :=
  ⟨fun s _ depth => ⟨a, s, rfl, .refl s, depth⟩⟩

lemma writes_write {change : Listing → Listing}
    (h : ∀ l, (change l).toPosition = l.toPosition) : Writes m m (write change) :=
  ⟨fun s _ depth => ⟨(), { s with listing := change s.listing }, rfl,
    ⟨rfl, rfl, rfl, rfl, rfl, congrArg Position.bucket (h s.listing), fun _ => id⟩,
    (congrArg Position.depth (h s.listing)).trans depth⟩⟩

instance writes_line (text : String) : Writes m m (write (·.line text)) :=
  writes_write fun l => line_toPosition l _

instance writes_insert (mark : Nat) (text : String) : Writes m m (write (·.insert mark text)) :=
  writes_write fun _ => splice_toPosition _ _ _

instance writes_insertLines (mark : Nat) (lines : List String) (levels : Nat) :
    Writes m m (write (·.insertLines mark lines levels)) :=
  writes_write fun _ => splice_toPosition _ _ _

instance writes_appendLines (lines : List String) (levels : Nat) :
    Writes m m (appendLines lines levels) :=
  writes_write fun _ => setLines_toPosition _ _

instance writes_indent : Writes m (m + 1) indent :=
  ⟨fun s d depth => ⟨(), { s with listing := s.listing.indent }, rfl,
    ⟨rfl, rfl, rfl, rfl, rfl, rfl, fun _ => id⟩, by rw [indent_depth, depth, Nat.add_assoc]⟩⟩

instance writes_dedent : Writes (m + 1) m dedent :=
  ⟨fun s d depth => ⟨(), { s with listing := s.listing.dedent }, rfl,
    ⟨rfl, rfl, rfl, rfl, rfl, rfl, fun _ => id⟩, by rw [Listing.dedent, depth]; rfl⟩⟩

instance writes_emit (text : String) : Writes m m (emit text) := by
  refine ⟨fun s d depth => ?_⟩
  let textOf (t : Token) : String := (s.table.symbol t.symbol).python
  let parts := s.cursor.comments.partition (isOwnLineComment s.table)
  let listing := parts.2.foldl (fun l t => l.append ("  " ++ textOf t))
    ((parts.1.foldl (fun l t => l.line (textOf t)) s.listing).line text)
  have position : listing.toPosition = s.listing.toPosition := by
    rw [foldl_toPosition _ _ fun _ _ => append_toPosition _ _,
      line_toPosition, foldl_toPosition _ _ fun _ _ => line_toPosition _ _]
  exact ⟨(), { s with cursor := { s.cursor with comments := [] }, listing }, rfl,
    ⟨rfl, rfl, rfl, rfl, rfl, congrArg Position.bucket position, by simp⟩,
    (congrArg Position.depth position).trans depth⟩

instance writes_nextTemporary : Writes m m nextTemporary :=
  ⟨fun s _ depth => ⟨s.temporaries + 1, { s with temporaries := s.temporaries + 1 }, rfl,
    ⟨rfl, rfl, rfl, rfl, rfl, rfl, fun _ => id⟩, depth⟩⟩

instance writes_requireLibrary (library : String) : Writes m m (requireLibrary library) := by
  refine ⟨fun s d depth => ⟨(), if s.imports.contains library then s else
    { s with imports := s.imports ++ [library] }, rfl, ?_⟩⟩
  split
  · exact ⟨.refl s, depth⟩
  · exact ⟨⟨rfl, rfl, rfl, rfl, rfl, rfl, fun _ => id⟩, depth⟩

instance writes_warn (warning : Format.Warning) : Writes m m (warn warning) :=
  ⟨fun s _ depth => ⟨(), { s with
    diagnostics := s.diagnostics ++ [{ line := s.cursor.current.line, warning }] }, rfl,
    ⟨rfl, rfl, rfl, rfl, rfl, rfl, fun _ => id⟩, depth⟩⟩

instance writes_forM {f : β → Compile Unit} [h : ∀ b, Writes m m (f b)] (bs : List β) :
    Writes m m (bs.forM f) := by
  induction bs with
  | nil => exact writes_pure ()
  | cons b bs ih => exact Writes.bind

instance writes_formatted (arguments : List Fragment) : Writes m m (formatted arguments) := by
  unfold formatted
  infer_instance

end Compile

namespace Expression

lemma writes_updateField (index : String) (update : String → String) (keepOld : Bool) :
    Writes 0 0 (updateField index update keepOld) := by
  unfold updateField
  infer_instance

lemma writes_guarded (left : Fragment) (conjunction : Bool) (lines : List String)
    (right : Fragment) : Writes 0 0 (guarded left conjunction lines right) := by
  unfold guarded
  infer_instance

lemma writes_choice (test : Fragment) (thenLines : List String) (yes : Fragment)
    (elseLines : List String) (no : Fragment) :
    Writes 0 0 (choice test thenLines yes elseLines no) := by
  unfold choice
  infer_instance

lemma writes_writeSubstitution (n : Nat) (call : String → String) (target : Option Fragment) :
    Writes 0 0 (writeSubstitution n call target) := by
  have record : Writes 0 0 (writeSubstitution.record n call) := by
    unfold writeSubstitution.record
    infer_instance
  unfold writeSubstitution
  split
  · exact record
  · split <;> infer_instance

lemma writes_libraries (library : Option String) : Writes 0 0 (library.forM requireLibrary) := by
  cases library with
  | none => exact writes_pure ()
  | some library => exact writes_requireLibrary library

end Expression

end AwkToPython
