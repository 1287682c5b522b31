import AwkToPython.Proofs.Emission.Character
import AwkToPython.Proofs.Usage.Source

/-!
# Steps that only add lines

A step may take back lines that it has written itself, but what stood in the
listing before it stays. The step can fail at any point, so this is said of the
session that it leaves behind on either way out. Along with it goes what holds of
all texts: if the table and the lines are over a set of characters, they stay so.
-/
namespace AwkToPython

variable {s : Symbol} {at_ : Nat} {ls : List String} {text : String} {f : α → Compile β}
  {x : Compile α}

open Compile List Text

variable {p : Char → Prop}

/-! ### Listings -/

namespace Listing

lemma linesOf_setLines (l : Listing) (lines : Array String) (b : Bucket) :
    (l.setLines lines).linesOf b = if b = l.bucket then lines else l.linesOf b := by
  rcases l with ⟨⟨bucket, depth⟩, _, _, _, _, _, _, _⟩
  rcases bucket with (_ | _ | _ | _ | _) | _ <;> rcases b with (_ | _ | _ | _ | _) | _ <;> rfl

lemma strayed_setLines (l : Listing) (lines : Array String) :
    (l.setLines lines).strayed = l.strayed := by
  rcases l with ⟨⟨bucket, depth⟩, _, _, _, _, _, _, _⟩
  rcases bucket with (_ | _ | _ | _ | _) | _ <;> rfl

@[simp] lemma linesOf_visit (l : Listing) (mark : Nat) (b : Bucket) :
    (l.visit mark).linesOf b = l.linesOf b := by
  rw [visit]
  split
  · rfl
  · rcases b with (_ | _ | _ | _ | _) | _ <;> rfl

/-- Lines are added to the current bucket, and all else is as before. No mark has
gone astray. -/
structure Appends (l l' : Listing) : Prop where
  bucket : l'.bucket = l.bucket
  lines : l.lines.toList <+: l'.lines.toList
  others : ∀ b, b ≠ l.bucket → l'.linesOf b = l.linesOf b
  strayed : l'.strayed = l.strayed

variable {l l' l'' : Listing}

lemma Appends.refl (l : Listing) : l.Appends l := ⟨rfl, prefix_refl _, fun _ _ => rfl, rfl⟩

lemma Appends.trans (h : l.Appends l') (h' : l'.Appends l'') : l.Appends l'' :=
  ⟨h'.bucket.trans h.bucket, h.lines.trans h'.lines,
    fun b other => (h'.others b (h.bucket ▸ other)).trans (h.others b other),
    h'.strayed.trans h.strayed⟩

lemma Appends.mark_le (h : l.Appends l') : l.mark ≤ l'.mark := by
  simpa [mark] using h.lines.length_le

/-- The lines of the current bucket are changed behind those that stood there. -/
lemma Appends.setLines (h : l.Appends l') {lines : Array String}
    (kept : l.lines.toList <+: lines.toList) : l.Appends (l'.setLines lines) := by
  refine ⟨?_, by simpa using kept, fun b other => ?_, ?_⟩
  · rw [setLines_toPosition]
    exact h.bucket
  · rw [linesOf_setLines, h.bucket, if_neg other]
    exact h.others b other
  · rw [strayed_setLines]
    exact h.strayed

lemma Appends.extend (h : l.Appends l') (ls : List String) : l.Appends (l'.extend ls) := by
  refine h.setLines (h.lines.trans ?_)
  rw [Array.toList_append]
  exact prefix_append _ _

lemma Appends.take (h : l.Appends l') (behind : l.mark ≤ at_) :
    l.lines.toList <+: (l'.lines.take at_).toList := by
  have same : (l'.lines.take at_).toList = l'.lines.toList.take at_ := by simp
  rw [same]
  exact prefix_take_iff.mpr ⟨h.lines, by simpa [mark] using behind⟩

/-- Taking out what was written since a mark leaves what stood there before. -/
lemma Appends.takeSince (h : l.Appends l') : l.Appends (l'.takeSince l.mark).2 := by
  have inside : l.mark ≤ l'.lines.size := h.mark_le
  rw [Listing.takeSince, visit_of_le inside]
  exact h.setLines (h.take (Nat.le_refl _))

lemma Appends.splice (h : l.Appends l') (behind : l.mark ≤ at_) (inside : at_ ≤ l'.mark)
    (ls : List String) : l.Appends (l'.splice at_ ls) := by
  have inside' : at_ ≤ l'.lines.size := inside
  rw [Listing.splice, visit_of_le inside']
  refine h.setLines ((h.take behind).trans ?_)
  rw [Array.toList_append, Array.toList_append, append_assoc]
  exact prefix_append _ _

lemma mark_splice (l : Listing) (inside : at_ ≤ l.mark) (ls : List String) :
    (l.splice at_ ls).mark = l.mark + ls.length := by
  have inside' : at_ ≤ l.lines.size := inside
  simp only [mark, Listing.splice, lines_setLines, Array.size_append]
  simp
  omega

lemma Appends.replace (h : l.Appends l') (behind : l.mark ≤ at_) (inside : at_ < l'.mark)
    (old new : String) : l.Appends (l'.replace at_ old new) := by
  have inside' : at_ < l'.lines.size := inside
  rw [Listing.replace, Array.getElem?_eq_getElem inside']
  refine h.setLines ?_
  obtain ⟨rest, whole⟩ := h.lines
  rw [Array.toList_setIfInBounds, ← whole, set_append_right]
  · exact prefix_append _ _
  · simpa [mark] using behind

lemma mark_replace (l : Listing) (at_ : Nat) (old new : String) :
    (l.replace at_ old new).mark = l.mark := by
  rw [Listing.replace]
  split
  · simp [mark]
  · rfl

end Listing

/-! ### Sessions -/

/-- All lines are over a set. -/
def Listing.Over (p : Char → Prop) (l : Listing) : Prop :=
  ∀ b, ∀ line ∈ (l.linesOf b).toList, Text.Over p line

/-- The texts that a function is called with are over a set. -/
structure Function.Over (p : Char → Prop) (f : Function) : Prop where
  library : ∀ name ∈ f.library, Text.Over p name
  method : ∀ name, f.strategy = .method name → Text.Over p name

/-- What a symbol is written with is over a set. -/
structure Symbol.Over (p : Char → Prop) (s : Symbol) : Prop where
  python : Text.Over p s.python
  initial : Text.Over p s.initial
  key : s.isVariable = true → Text.Over p s.key
  function : ∀ f, s.kind = .function f → f.Over p

namespace Symbol.Over

variable {s : Symbol}

lemma ofVar {use : VariableUse} (kind : s.kind = .var use) (python : Text.Over p s.python)
    (initial : Text.Over p s.initial) (key : Text.Over p s.key) : s.Over p :=
  ⟨python, initial, fun _ => key, fun f function => by
    rw [kind] at function
    cases function⟩

lemma ofOther (var : s.isVariable = false) (function : s.isFunction = false)
    (python : Text.Over p s.python) (initial : Text.Over p s.initial) : s.Over p :=
  ⟨python, initial, fun h => absurd h (by rw [var]; exact Bool.false_ne_true), fun f kind => by
    rw [isFunction, kind] at function
    cases function⟩

end Symbol.Over

/-- Every key is as before or over a set. -/
def Table.Rekeys (p : Char → Prop) (t t' : Table) : Prop :=
  ∀ id, (t'.symbol id).key = (t.symbol id).key ∨ Text.Over p (t'.symbol id).key

lemma Table.Rekeys.refl (t : Table) : t.Rekeys p t := fun _ => .inl rfl

lemma Table.Rekeys.trans {t t' t'' : Table} (h : t.Rekeys p t') (h' : t'.Rekeys p t'') :
    t.Rekeys p t'' := by
  intro id
  rcases h' id with same | legible
  · rw [same]
    exact h id
  · exact .inr legible

lemma Symbol.isDefinable_of_isVariable (h : s.isVariable = true) : s.kind.isDefinable = true := by
  obtain ⟨use, kind⟩ := isVariable_iff.mp h
  rw [kind]
  rfl

/-- What the program may define stays so, and no key is added. -/
structure Table.KeepsDefinable (t t' : Table) : Prop where
  definable : ∀ id, (t.symbol id).kind.isDefinable = true → (t'.symbol id).kind.isDefinable = true
  index : t'.index = t.index

lemma Table.KeepsDefinable.refl (t : Table) : t.KeepsDefinable t := ⟨fun _ => id, rfl⟩

lemma Table.KeepsDefinable.trans {t t' t'' : Table} (h : t.KeepsDefinable t')
    (h' : t'.KeepsDefinable t'') : t.KeepsDefinable t'' :=
  ⟨fun id => h'.definable id ∘ h.definable id, h'.index.trans h.index⟩

namespace Session

/-- Calls are noted behind those that were noted before, and only calls of what the
program may define. -/
structure Notes (s s' : Session) : Prop where
  calls : s.calls <+: s'.calls
  noted : ∀ e ∈ s'.calls, e ∈ s.calls ∨ (s'.table.symbol e.1).kind.isDefinable = true
  table : s.table.KeepsDefinable s'.table

namespace Notes

variable {s s' s'' : Session}

lemma of_calls (calls : s'.calls = s.calls) (table : s.table.KeepsDefinable s'.table) :
    s.Notes s' :=
  ⟨calls ▸ prefix_rfl, fun _ mem => .inl (calls ▸ mem), table⟩

lemma refl (s : Session) : s.Notes s := of_calls rfl (.refl _)

lemma trans (h : s.Notes s') (h' : s'.Notes s'') : s.Notes s'' := by
  refine ⟨h.calls.trans h'.calls, fun e mem => ?_, h.table.trans h'.table⟩
  rcases h'.noted e mem with old | new
  · exact (h.noted e old).imp_right (h'.table.definable e.1)
  · exact .inr new

end Notes

/-- All that can come to stand in the program is over a set. -/
structure Over (p : Char → Prop) (s : Session) : Prop where
  symbols : ∀ id, (s.table.symbol id).Over p
  imports : ∀ name ∈ s.imports, Text.Over p name
  headers : ∀ header ∈ s.headers, Text.Over p header.text
  listing : s.listing.Over p

/-- One session comes from another by adding lines. -/
structure Adds (p : Char → Prop) (s s' : Session) : Prop where
  legible : s'.Over p
  listing : s.listing.Appends s'.listing
  setting : s'.setting = s.setting
  keys : s.table.Rekeys p s'.table
  notes : s.Notes s'

variable {s s' s'' : Session}

lemma Adds.refl (h : s.Over p) : s.Adds p s := ⟨h, .refl _, rfl, .refl _, .refl s⟩

lemma Adds.trans (h : s.Adds p s') (h' : s'.Adds p s'') : s.Adds p s'' :=
  ⟨h'.legible, h.listing.trans h'.listing, h'.setting.trans h.setting, h.keys.trans h'.keys,
    h.notes.trans h'.notes⟩

/-- Nothing is changed that comes to stand in the program. -/
lemma Over.adds_same (h : s.Over p) (table : s'.table = s.table) (imports : s'.imports = s.imports)
    (headers : s'.headers = s.headers) (listing : s'.listing = s.listing)
    (setting : s'.setting = s.setting) (calls : s'.calls = s.calls) : s.Adds p s' :=
  ⟨⟨table ▸ h.symbols, imports ▸ h.imports, headers ▸ h.headers, listing ▸ h.listing⟩,
    listing ▸ .refl _, setting, table ▸ .refl _, .of_calls calls (table ▸ .refl _)⟩

lemma Over.adds_table (h : s.Over p) (hs : ∀ id, (table.symbol id).Over p)
    (keys : s.table.Rekeys p table) (definable : s.table.KeepsDefinable table) :
    s.Adds p { s with table } :=
  ⟨⟨hs, h.imports, h.headers, h.listing⟩, .refl _, rfl, keys, .of_calls rfl definable⟩

/-- The lines that were added may be others. -/
lemma Adds.relist (h : s.Adds p s') {listing : Listing} (hl : listing.Over p)
    (appends : s.listing.Appends listing) : s.Adds p { s' with listing } :=
  ⟨{ h.legible with listing := hl }, appends, h.setting, h.keys,
    h.notes.trans (.of_calls rfl (.refl _))⟩

lemma Over.adds_listing (h : s.Over p) {listing : Listing} (hl : listing.Over p)
    (appends : s.listing.Appends listing) : s.Adds p { s with listing } :=
  (Adds.refl h).relist hl appends

end Session

namespace Listing.Over

variable {l : Listing}

lemma setLines (h : l.Over p) {lines : Array String}
    (hl : ∀ line ∈ lines.toList, Text.Over p line) :
    (l.setLines lines).Over p := by
  intro b line mem
  rw [linesOf_setLines] at mem
  split at mem
  · exact hl line mem
  · exact h b line mem

lemma lines (h : l.Over p) : ∀ line ∈ l.lines.toList, Text.Over p line := h l.bucket

lemma extend (h : l.Over p) (hl : ∀ line ∈ ls, Text.Over p line) : (l.extend ls).Over p := by
  refine h.setLines fun line mem => ?_
  rw [Array.toList_append, mem_append] at mem
  rcases mem with mem | mem
  · exact h.lines line mem
  · exact hl line mem

lemma visit (h : l.Over p) (mark : Nat) : (l.visit mark).Over p := by
  intro b
  rw [linesOf_visit]
  exact h b

lemma taken (h : l.Over p) (mark : Nat) :
    (∀ line ∈ (l.takeSince mark).1, Text.Over p line) ∧ (l.takeSince mark).2.Over p := by
  refine ⟨fun line mem => h.lines line ?_, (h.visit mark).setLines fun line mem => h.lines line ?_⟩
  · have mem : line ∈ (l.lines.toList.drop mark).take (l.lines.size - mark) := by
      simpa [takeSince] using mem
    exact mem_of_mem_drop (mem_of_mem_take mem)
  · have mem : line ∈ l.lines.toList.take mark := by simpa using mem
    exact mem_of_mem_take mem

lemma splice (h : l.Over p) (hl : ∀ line ∈ ls, Text.Over p line) (mark : Nat) :
    (l.splice mark ls).Over p := by
  refine (h.visit mark).setLines fun line mem => ?_
  have mem : line ∈ l.lines.toList.take mark ∨ line ∈ ls ∨
      line ∈ (l.lines.toList.drop mark).take (l.lines.size - mark) := by
    simpa using mem
  rcases mem with mem | mem | mem
  · exact h.lines line (mem_of_mem_take mem)
  · exact hl line mem
  · exact h.lines line (mem_of_mem_drop (mem_of_mem_take mem))

lemma same {l' : Listing} (h : l.Over p) (same : l'.linesOf = l.linesOf) : l'.Over p := by
  rw [Listing.Over, same]
  exact h

lemma replace (h : l.Over p) (position : Nat) (old : String) {new : String}
    (hn : Text.Over p new) : (l.replace position old new).Over p := by
  rw [Listing.replace]
  split
  case h_1 line found =>
    refine h.setLines fun other mem => ?_
    rw [Array.toList_setIfInBounds] at mem
    rcases mem_or_eq_of_mem_set mem with mem | rfl
    · exact h.lines other mem
    · exact .replaceFirst hn (h.lines line (Array.mem_toList_iff.mpr (Array.mem_of_getElem? found)))
  case h_2 => exact h.same (funext fun b => by rcases b with (_ | _ | _ | _ | _) | _ <;> rfl)

lemma indented [HoldsGraphic p] (hl : ∀ line ∈ ls, Text.Over p line)
    (levels : Nat) : ∀ line ∈ deeper levels ls, Text.Over p line := by
  intro line mem
  obtain ⟨inner, inside, rfl⟩ := mem_map.mp mem
  exact Text.Over.append.mpr ⟨.indentation levels, hl inner inside⟩

lemma moved (h : l.Over p) (position : Position) : Over p { l with toPosition := position } :=
  h.same (funext fun b => by rcases b with (_ | _ | _ | _ | _) | _ <;> rfl)

end Listing.Over

namespace Session

variable {s : Session}

/-- A line that is written has the comments passed before it with it. -/
lemma Over.linesFor [HoldsGraphic p] (h : s.Over p) (ht : Text.Over p text) :
    ∀ line ∈ s.linesFor text, Text.Over p line := by
  have comment : ∀ {q : Token → Bool}, ∀ c ∈ s.commentTexts q, Text.Over p c := by
    intro q c mem
    obtain ⟨t, -, rfl⟩ := mem_map.mp mem
    exact (h.symbols _).python
  intro line mem
  rcases mem_append.mp mem with mem | mem
  · obtain ⟨c, inside, rfl⟩ := mem_map.mp mem
    exact Text.Over.append.mpr ⟨.indentation _, comment c inside⟩
  · rw [mem_singleton.mp mem]
    simp only [Text.Over.append]
    refine ⟨⟨.indentation _, ht⟩, .joined fun part mem => ?_⟩
    obtain ⟨c, inside, rfl⟩ := mem_map.mp mem
    exact Text.Over.append.mpr ⟨.fixed rfl, comment c inside⟩

lemma Over.adds_written (h : s.Over p) (hl : ∀ line ∈ ls, Text.Over p line) :
    s.Adds p (s.written ls) :=
  ⟨{ h with listing := h.listing.extend hl }, (Listing.Appends.refl _).extend ls, rfl, .refl _,
    .of_calls rfl (.refl _)⟩

/-- The session in which a call is noted if the name is no function yet. -/
def called (s : Session) (token : Token) : Session :=
  if (s.table.symbol token.symbol).isVariable then
    { s with calls := s.calls ++ [(token.symbol, token.line)] }
  else s

lemma Over.adds_called (h : s.Over p) (token : Token) : s.Adds p (s.called token) := by
  rw [called]
  split
  case isTrue var =>
    refine ⟨{ h with }, .refl _, rfl, .refl _, prefix_append _ _, fun e mem => ?_, .refl _⟩
    rcases mem_append.mp mem with old | new
    · exact .inl old
    · rw [mem_singleton.mp new]
      exact .inr (Symbol.isDefinable_of_isVariable var)
  case isFalse => exact .refl h

end Session

namespace Compile

variable {α β : Type} {Q : α → Prop} {R : β → Prop} {x : Compile α}

/-- A step that only adds lines, with what holds of its result. -/
def Emits (p : Char → Prop) (x : Compile α) (Q : α → Prop) : Prop :=
  ∀ s : Session, s.Over p → s.Adds p (after (x s)) ∧ ∀ a s', x s = .ok a s' → Q a

namespace Emits

lemma adds (h : Emits p x Q) {s s' : Session} {a : α} (legible : s.Over p)
    (run : x s = .ok a s') : s.Adds p s' ∧ Q a := by
  have := h s legible
  rw [run] at this
  exact ⟨this.1, this.2 a s' rfl⟩

/-- A step after others, seen from where those began. -/
lemma after_bind {f : α → Compile β} {s0 s : Session} (hx : Emits p x Q) (h : s0.Adds p s)
    (hf : ∀ a s', x s = .ok a s' → Q a → s.Adds p s' → s0.Adds p (after (f a s')) ∧
      ∀ b s'', f a s' = .ok b s'' → R b) :
    s0.Adds p (after ((x >>= f) s)) ∧ ∀ b s'', (x >>= f) s = .ok b s'' → R b := by
  cases run : x s with
  | ok a s' =>
    obtain ⟨adds, result⟩ := hx.adds h.legible run
    rw [bind_of_ok run]
    exact hf a s' run result adds
  | error e s' =>
    have adds := (hx s h.legible).1
    rw [run] at adds
    rw [bind_of_error run]
    exact ⟨h.trans adds, fun _ _ run => nomatch run⟩

lemma bind {f : α → Compile β} (hx : Emits p x Q)
    (hf : ∀ a, Q a → Emits p (f a) R) : Emits p (x >>= f) R := fun _ legible =>
  hx.after_bind (.refl legible) fun a s' _ result adds =>
    ⟨adds.trans (hf a result s' adds.legible).1, (hf a result s' adds.legible).2⟩

lemma map {f : α → β} (hx : Emits p x Q) (hf : ∀ a, Q a → R (f a)) : Emits p (f <$> x) R := by
  rw [← bind_pure_comp]
  exact hx.bind fun a result _ legible =>
    ⟨.refl legible, fun b s' run => by cases run; exact hf a result⟩

protected lemma pure {a : α} (h : Q a) : Emits p (pure a : Compile α) Q := fun _ legible =>
  ⟨.refl legible, fun b s' run => by cases run; exact h⟩

protected lemma throw (e : Error) : Emits p (throw e : Compile α) Q := fun _ legible =>
  ⟨.refl legible, fun _ _ run => nomatch run⟩

lemma unexpected (e : Expectation) : Emits p (unexpected e : Compile α) Q := fun _ legible =>
  ⟨.refl legible, fun _ _ run => absurd run unexpected_ne_ok⟩

lemma unexpected_bind (e : Expectation) {f : α → Compile β} :
    Emits p (Compile.unexpected e >>= f) R :=
  (unexpected (Q := fun _ => False) e).bind fun _ => False.elim

lemma step (f : Session → α) (g : Session → Session)
    (run : ∀ s, x s = .ok (f s) (g s)) (h : ∀ s : Session, s.Over p → Q (f s) ∧ s.Adds p (g s)) :
    Emits p x Q := fun s legible => by
  rw [run]
  exact ⟨(h s legible).2, fun a s' run => by cases run; exact (h s legible).1⟩

lemma look (f : Session → α) (h : ∀ s : Session, s.Over p → Q (f s))
    (run : ∀ s, x s = .ok (f s) s) : Emits p x Q :=
  step f id run fun s legible => ⟨h s legible, .refl legible⟩

end Emits

/-- A step that only adds lines, whatever comes of it. -/
class Quiet (p : Char → Prop) (x : Compile α) : Prop where
  emits : Emits p x fun _ => True

lemma Emits.next {f : α → Compile β} [hx : Quiet p x] (hf : ∀ a, Emits p (f a) R) :
    Emits p (x >>= f) R :=
  hx.emits.bind fun a _ => hf a

instance Looks.quiet [h : Looks x] : Quiet p x := by
  refine ⟨fun s legible => ?_⟩
  obtain ⟨b, look⟩ := h.run s
  rw [look]
  exact ⟨.refl legible, fun _ _ _ => trivial⟩

instance Quiet.pure (a : α) : Quiet p (pure a : Compile α) := ⟨.pure trivial⟩

instance Quiet.unexpected (e : Expectation) : Quiet p (unexpected e : Compile α) := ⟨.unexpected e⟩

instance Quiet.bind {f : α → Compile β} [Quiet p x] [hf : ∀ a, Quiet p (f a)] : Quiet p (x >>= f) :=
  ⟨.next fun a => (hf a).emits⟩

instance Quiet.same {y : Compile β} [Quiet p x] [Quiet p y] : Quiet p (x >>= fun _ => y) := .bind

instance Quiet.ite {c : Prop} [Decidable c] [Quiet p x] [Quiet p y] :
    Quiet p (if c then x else y) := by
  split <;> assumption

/-! ### Single steps -/

lemma emits_get : Emits p get (Session.Over p) := .look id (fun _ legible => legible) fun _ => rfl

lemma emits_symbolOf (t : Token) : Emits p (symbolOf t) (Symbol.Over p) :=
  .look _ (fun _ legible => legible.symbols _) fun _ => rfl

lemma emits_symbol : Emits p symbol (Symbol.Over p) :=
  .look _ (fun _ legible => legible.symbols _) fun _ => rfl

lemma emits_pythonOf (id : SymbolId) : Emits p (pythonOf id) (Over p) :=
  .look _ (fun _ legible => (legible.symbols id).python) fun _ => rfl

/-- A step that changes nothing that comes to stand in the program. -/
lemma quiet_modify {change : Session → Session}
    (h : ∀ s, (change s).table = s.table ∧ (change s).imports = s.imports ∧
      (change s).headers = s.headers ∧ (change s).listing = s.listing ∧
      (change s).setting = s.setting ∧ (change s).calls = s.calls) : Quiet p (modify change) :=
  ⟨.step _ change (fun _ => rfl) fun s legible =>
    ⟨trivial, legible.adds_same (h s).1 (h s).2.1 (h s).2.2.1 (h s).2.2.2.1 (h s).2.2.2.2.1
      (h s).2.2.2.2.2⟩⟩

lemma quiet_moveCursor (move : Cursor → Cursor) : Quiet p (moveCursor move) :=
  quiet_modify fun _ => ⟨rfl, rfl, rfl, rfl, rfl, rfl⟩

instance quiet_advance : Quiet p advance := quiet_moveCursor _

instance quiet_skipNewlines : Quiet p skipNewlines := quiet_moveCursor _

instance quiet_skipTerminators : Quiet p skipTerminators :=
  quiet_modify fun _ => ⟨rfl, rfl, rfl, rfl, rfl, rfl⟩

instance quiet_needMainLoop : Quiet p needMainLoop :=
  quiet_modify fun _ => ⟨rfl, rfl, rfl, rfl, rfl, rfl⟩

instance quiet_nextTemporary : Quiet p nextTemporary :=
  ⟨.step _ _ (fun _ => rfl) fun _ legible => ⟨trivial, legible.adds_same rfl rfl rfl rfl rfl rfl⟩⟩

instance quiet_warn (warning : Format.Warning) : Quiet p (warn warning) :=
  ⟨.next fun _ => @Quiet.emits _ _ _ (quiet_modify fun _ => ⟨rfl, rfl, rfl, rfl, rfl, rfl⟩)⟩

instance quiet_expectBracket (b : Bracket) (text : String) : Quiet p (expectBracket b text) := by
  unfold expectBracket
  infer_instance

instance quiet_expectComma : Quiet p expectComma := by
  unfold expectComma
  infer_instance

instance quiet_expectSemicolon : Quiet p expectSemicolon := by
  unfold expectSemicolon
  infer_instance

lemma emits_requireLibrary (h : Over p library) :
    Emits p (requireLibrary library) fun _ => True := by
  refine .step _ _ (fun _ => rfl) fun s legible => ⟨trivial, ?_⟩
  split
  · exact .refl legible
  · refine ⟨⟨legible.symbols, fun name mem => ?_, legible.headers, legible.listing⟩, .refl _, rfl,
      .refl _, .of_calls rfl (.refl _)⟩
    rcases mem_append.mp mem with mem | mem
    · exact legible.imports name mem
    · exact mem_singleton.mp mem ▸ h

/-! ### The table -/

lemma emits_intern {add : Table → SymbolId × Table}
    (h : ∀ t : Table, (∀ id, (t.symbol id).Over p) → ∀ id, ((add t).2.symbol id).Over p)
    (keys : ∀ t : Table, (∀ id, (t.symbol id).Over p) → t.Rekeys p (add t).2)
    (definable : ∀ t : Table, t.KeepsDefinable (add t).2) : Emits p (intern add) fun _ => True :=
  .step _ _ (fun _ => rfl) fun s legible =>
    ⟨trivial, legible.adds_table (h s.table legible.symbols) (keys s.table legible.symbols)
      (definable s.table)⟩

lemma emits_changeTable {change : Table → Except Error Table}
    (h : ∀ t t' : Table, (∀ id, (t.symbol id).Over p) → change t = .ok t' →
      (∀ id, (t'.symbol id).Over p) ∧ t.Rekeys p t' ∧ t.KeepsDefinable t') :
    Emits p (changeTable change) fun _ => True := by
  intro s legible
  rw [changeTable_run]
  cases found : change s.table with
  | ok t =>
    obtain ⟨symbols, keys, definable⟩ := h s.table t legible.symbols found
    exact ⟨legible.adds_table symbols keys definable, fun _ _ _ => trivial⟩
  | error e => exact ⟨.refl legible, fun _ _ run => nomatch run⟩

end Compile

namespace Table

variable {t t' : Table} {id : SymbolId}

lemma over_set (h : ∀ id, (t.symbol id).Over p) (hs : s.Over p) (other : SymbolId) :
    ((t.set id s).symbol other).Over p := by
  rw [symbol_set]
  split
  · exact hs
  · exact h other

lemma over_push (h : ∀ id, (t.symbol id).Over p) (hs : s.Over p) (other : SymbolId) :
    ((t.push s).2.symbol other).Over p := by
  rw [symbol_push]
  split
  · exact hs
  · exact h other

lemma rekeys_set (hs : s.key = (t.symbol id).key ∨ Over p s.key) : t.Rekeys p (t.set id s) := by
  intro other
  rw [symbol_set]
  split
  case isTrue same => exact same.1 ▸ hs
  case isFalse => exact .inl rfl

lemma rekeys_push (hs : Over p s.key) : t.Rekeys p (t.push s).2 := by
  intro other
  rw [symbol_push]
  split
  · exact .inr hs
  · exact .inl rfl

lemma keepsDefinable_set (definable : s.kind.isDefinable = true) :
    t.KeepsDefinable (t.set id s) := by
  refine ⟨fun other before => ?_, rfl⟩
  rw [symbol_set]
  split
  · exact definable
  · exact before

lemma keepsDefinable_push (s : Symbol) : t.KeepsDefinable (t.push s).2 := by
  refine ⟨fun other before => ?_, rfl⟩
  rw [symbol_push, if_neg]
  · exact before
  · rintro rfl
    rw [symbol_of_size_le (Nat.le_refl _)] at before
    cases before

lemma keepsDefinable_regexForString (t : Table) (id : SymbolId) :
    t.KeepsDefinable (t.regexForString id).2 := by
  rw [regexForString]
  split
  · exact .refl _
  · exact ⟨(keepsDefinable_push _).definable, rfl⟩

lemma over_markArray [HoldsGraphic p] (h : ∀ id, (t.symbol id).Over p) {line : Nat}
    (run : t.markArray id line = .ok t') :
    (∀ other, (t'.symbol other).Over p) ∧ t.Rekeys p t' ∧ t.KeepsDefinable t' := by
  rw [markArray] at run
  split at run
  case h_1 use kind =>
    split at run
    · cases run
    · split at run
      · cases run
        exact ⟨h, .refl _, .refl _⟩
      · cases run
        have key := (h id).key (Symbol.isVariable_iff.mpr ⟨use, kind⟩)
        have initial : Over p emptyArray := .fixed rfl
        exact ⟨over_set h (.ofVar rfl (h id).python initial key), rekeys_set (.inl rfl),
          keepsDefinable_set rfl⟩
  case h_2 =>
    cases run
    exact ⟨h, .refl _, .refl _⟩

lemma over_markScalar (h : ∀ id, (t.symbol id).Over p) {line : Nat}
    (run : t.markScalar id line = .ok t') :
    (∀ other, (t'.symbol other).Over p) ∧ t.Rekeys p t' ∧ t.KeepsDefinable t' := by
  rw [markScalar] at run
  split at run
  case h_1 use kind =>
    split at run
    · cases run
    · cases run
      have key := (h id).key (Symbol.isVariable_iff.mpr ⟨use, kind⟩)
      exact ⟨over_set h (.ofVar rfl (h id).python (h id).initial key), rekeys_set (.inl rfl),
        keepsDefinable_set rfl⟩
  case h_2 =>
    cases run
    exact ⟨h, .refl _, .refl _⟩

lemma over_addRegex [HoldsGraphic p] (h : ∀ id, (t.symbol id).Over p) (key : String)
    {initial : String} (hi : Over p initial) (other : SymbolId) :
    ((t.addRegex key initial).2.symbol other).Over p := by
  have python : Over p s!"self._re_{t.regexCount}" :=
    Over.append.mpr ⟨.fixed rfl, .nat _⟩
  refine over_push h ?_ other
  exact .ofOther rfl rfl python hi

lemma over_regexForString [HoldsGraphic p] (h : ∀ id, (t.symbol id).Over p)
    (id other : SymbolId) : ((t.regexForString id).2.symbol other).Over p := by
  rw [regexForString]
  split
  · exact h other
  · exact over_addRegex h (t.symbol id).python (.compiledString (h id).python) other

lemma rekeys_regexForString (h : ∀ id, (t.symbol id).Over p) (id : SymbolId) :
    t.Rekeys p (t.regexForString id).2 := by
  rw [regexForString]
  split
  · exact .refl _
  · exact rekeys_push (h id).python

lemma rangeKey_over [HoldsGraphic p] (t : Table) : Over p s!"<range {t.rangeCount}>" := by
  simp only [Over.append]
  exact ⟨⟨.fixed rfl, .nat _⟩, .fixed rfl⟩

lemma over_rangeFlag [HoldsGraphic p] (h : ∀ id, (t.symbol id).Over p) (other : SymbolId) :
    (t.rangeFlag.2.symbol other).Over p := by
  have python : Text.Over p s!"self._range_{t.rangeCount}" :=
    Text.Over.append.mpr ⟨.fixed rfl, .nat _⟩
  have initial : Text.Over p "False" := .fixed rfl
  refine over_push h ?_ other
  exact .ofVar rfl python initial (rangeKey_over t)

lemma rekeys_rangeFlag [HoldsGraphic p] (t : Table) : t.Rekeys p t.rangeFlag.2 :=
  rekeys_push (rangeKey_over t)

end Table

namespace Compile

variable {α β : Type} {Q : α → Prop} {R : β → Prop}

instance quiet_markArray [HoldsGraphic p] (id : SymbolId) (line : Nat) :
    Quiet p (markArray id line) :=
  ⟨emits_changeTable fun _ _ h run => Table.over_markArray h run⟩

instance quiet_markScalar (id : SymbolId) (line : Nat) : Quiet p (markScalar id line) :=
  ⟨emits_changeTable fun _ _ h run => Table.over_markScalar h run⟩

/-! ### Lines -/

lemma emits_emit [HoldsGraphic p] (h : Over p text) : Emits p (emit text) fun _ => True :=
  .step _ _ (emit_eq text) fun _ legible => ⟨trivial, legible.adds_written (legible.linesFor h)⟩

lemma Emits.line [HoldsGraphic p] {f : Unit → Compile β} (h : Over p text)
    (hf : Emits p (f ()) R) : Emits p (emit text >>= f) R :=
  (emits_emit h).bind fun _ _ => hf

lemma emits_move {change : Listing → Listing} (depth : Listing → Nat)
    (h : ∀ l, change l = { l with depth := depth l }) : Emits p (write change) fun _ => True := by
  refine .step _ _ (fun _ => rfl) fun s legible => ⟨trivial, ?_⟩
  rw [h]
  exact legible.adds_listing (legible.listing.moved _) ⟨rfl, prefix_refl _, fun b _ => by
    rcases b with (_ | _ | _ | _ | _) | _ <;> rfl, rfl⟩

instance quiet_indent : Quiet p indent := ⟨emits_move (·.depth + 1) fun _ => rfl⟩

instance quiet_dedent : Quiet p dedent := ⟨emits_move (·.depth - 1) fun _ => rfl⟩

lemma emits_appendLines [HoldsGraphic p] {lines : List String}
    (h : ∀ line ∈ lines, Over p line) (levels : Nat) :
    Emits p (appendLines lines levels) fun _ => True :=
  .step _ _ (fun _ => rfl) fun _ legible => ⟨trivial, legible.adds_listing
    (legible.listing.extend (Listing.Over.indented h levels)) ((Listing.Appends.refl _).extend _)⟩

/-- Lines that a part has written are taken out again before the rest. -/
lemma Emits.since {x : Compile α} {f : α → List String → Compile β} (hx : Emits p x Q)
    (hf : ∀ a lines, Q a → (∀ line ∈ lines, Over p line) → Emits p (f a lines) R) :
    Emits p (do
      let before ← mark
      let a ← x
      let lines ← takeSince before
      f a lines) R := by
  intro s legible
  rw [mark_bind]
  refine hx.after_bind (.refl legible) fun a s' _ result adds => ?_
  rw [takeSince_bind]
  obtain ⟨taken, left⟩ := adds.legible.listing.taken s.listing.mark
  have back := adds.relist left adds.listing.takeSince
  obtain ⟨later, value⟩ := hf a _ result taken _ back.legible
  exact ⟨back.trans later, value⟩

lemma Emits.behind {x : Compile α} {f : Nat → α → Compile β} (hx : Emits p x Q)
    (hf : ∀ a (s0 s : Session), Q a → s0.Adds p s → s0.Adds p (after (f s0.listing.mark a s)) ∧
      ∀ b s', f s0.listing.mark a s = .ok b s' → R b) :
    Emits p (do
      let start ← mark
      let a ← x
      f start a) R := by
  intro s legible
  rw [mark_bind]
  exact hx.after_bind (.refl legible) fun a s' _ result adds => hf a s s' result adds

/-- Whatever changes only where lines go is done on both ways out. -/
lemma Emits.restoring_depth {x : Compile α} (hx : Emits p x Q) (depth : Listing → Nat) :
    Emits p (restoring x fun s => { s with listing := { s.listing with depth := depth s.listing } })
      Q := by
  intro s legible
  have h := hx s legible
  have moved : ∀ s' : Session, s.Adds p s' →
      s.Adds p { s' with listing := { s'.listing with depth := depth s'.listing } } := by
    intro s' adds
    refine adds.relist (adds.legible.listing.moved _)
      (adds.listing.trans ⟨rfl, prefix_refl _, fun b _ => ?_, rfl⟩)
    rcases b with (_ | _ | _ | _ | _) | _ <;> rfl
  rw [restoring]
  cases run : x s with
  | ok a s' =>
    rw [run] at h
    refine ⟨moved s' h.1, fun b s'' same => ?_⟩
    cases same
    exact h.2 a s' rfl
  | error e s' =>
    rw [run] at h
    exact ⟨moved s' h.1, fun _ _ same => by cases same⟩

lemma emits_formatted [HoldsGraphic p] {arguments : List Fragment}
    (h : ∀ f ∈ arguments, f.Over p) : Emits p (formatted arguments) (Over p) := by
  have warnings : ∀ ws : List Format.Warning, Emits p (ws.forM warn) fun _ => True := by
    intro ws
    induction ws with
    | nil => exact .pure trivial
    | cons w ws ih => exact .next fun _ => ih
  exact (warnings _).bind fun _ _ => .pure (Format.compile_over (Fragment.Over.texts h))

end Compile

end AwkToPython
