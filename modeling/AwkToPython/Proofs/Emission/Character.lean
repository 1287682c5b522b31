import AwkToPython.Proofs.Expression.Plain
import AwkToPython.Proofs.Format.Field

/-!
# Texts over a set of characters

Compilation puts texts together, cuts them and fills them into templates. None of
this makes a character that was not there before, numbers, punctuation and
escapes apart, and those are no control characters. So a set that lacks only
control characters is closed under all of it.
-/
namespace AwkToPython

variable {s text : String} {cs : List Char} {parts : List String} {precision : String}

open List Text Literal

/-- All characters of a text are in a set. -/
def Text.Over (p : Char → Prop) (s : String) : Prop := ∀ c ∈ s.toList, p c

open Text (Over)

/-- A character that stands for itself in Python source text. -/
def isGraphic (c : Char) : Bool := 0x20 ≤ c.toNat && c.toNat ≠ 0x7f

/-- A set of characters that lacks at most control characters. -/
class HoldsGraphic (p : Char → Prop) : Prop where
  holds : ∀ c, isGraphic c = true → p c

variable {p : Char → Prop}

lemma Literal.mem_guardQuotes (mem : c ∈ guardQuotes odd cs) :
    c = '\\' ∨ c ∈ cs := by
  induction cs generalizing odd with
  | nil => cases mem
  | cons d cs ih =>
    rw [guardQuotes] at mem
    split at mem <;> grind

namespace Text.Over

@[simp] lemma append : Over p (a ++ b) ↔ Over p a ∧ Over p b := by
  simp [Over, or_imp, forall_and]

@[simp] lemma string : Over p (toString s) ↔ Over p s := Iff.rfl

@[simp] lemma ofList : Over p (String.ofList cs) ↔ ∀ c ∈ cs, p c := by
  simp [Over]

@[simp] lemma empty : Over p "" := by
  intro c mem
  simp at mem

/-- A text that the compiler holds ready has no control characters. -/
@[simp] lemma fixed [HoldsGraphic p] (h : s.toList.all isGraphic) : Over p s :=
  fun c mem => HoldsGraphic.holds c (all_eq_true.mp h c mem)

lemma of_digit [HoldsGraphic p] (h : c.isDigit) : p c := by
  refine HoldsGraphic.holds c ?_
  simp only [Char.isDigit, Bool.and_eq_true, decide_eq_true_eq, ge_iff_le, UInt32.le_iff_toNat_le]
    at h
  have low : 48 ≤ c.toNat := h.1
  have high : c.toNat ≤ 57 := h.2
  simp only [isGraphic, Bool.and_eq_true, decide_eq_true_eq]
  omega

@[simp] lemma nat [HoldsGraphic p] (n : Nat) : Over p n.repr := by
  intro c mem
  rw [Nat.toList_repr] at mem
  exact of_digit (Nat.isDigit_of_mem_toDigits (by decide) (by decide) mem)

@[simp] lemma int [HoldsGraphic p] (n : Int) : Over p n.repr := by
  cases n with
  | ofNat n => exact nat n
  | negSucc n =>
    change Over p ("-" ++ toString (n + 1))
    exact append.mpr ⟨fixed (by decide), nat _⟩

lemma join (hs : Over p separator)
    (h : ∀ part ∈ parts, Over p part) : Over p (Text.join separator parts) := by
  rw [Text.join]
  induction parts with
  | nil => simp
  | cons first rest ih =>
    cases rest with
    | nil => simpa using h first
    | cons second rest =>
      rw [String.intercalate_cons_cons]
      simp only [append]
      exact ⟨⟨h first (by simp), hs⟩, ih fun part mem => h part (by simp [mem])⟩

lemma joined (h : ∀ part ∈ parts, Over p part) : Over p (String.join parts) := by
  intro c mem
  rw [String.toList_join, mem_flatMap] at mem
  obtain ⟨part, mem, inside⟩ := mem
  exact h part mem c inside

lemma cut (h : cut? mark s = some (before, behind))
    (hs : Over p s) : Over p before ∧ Over p behind := by
  obtain ⟨⟨a, b⟩, found, same⟩ := Option.map_eq_some_iff.mp h
  simp only [Prod.mk.injEq] at same
  obtain ⟨rfl, rfl⟩ := same
  have whole := Expression.cutChars_spec found
  refine ⟨ofList.mpr fun c mem => hs c ?_, ofList.mpr fun c mem => hs c ?_⟩ <;> rw [whole] <;>
    simp [mem]

lemma replaceFirst (hn : Over p new) (hs : Over p s) : Over p (Text.replaceFirst old new s) := by
  rw [Text.replaceFirst]
  split
  case h_1 before behind found =>
    obtain ⟨left, right⟩ := cut found hs
    simp only [append]
    exact ⟨⟨left, hn⟩, right⟩
  case h_2 => exact hs

lemma after (h : after? lead s = some rest) (hs : Over p s) : Over p rest := by
  obtain ⟨cs, found, rfl⟩ := Option.map_eq_some_iff.mp h
  have whole := isPrefixOf?_eq_some_iff_append_eq.mp found
  refine ofList.mpr fun c mem => hs c ?_
  rw [← whole]
  exact mem_append_right _ mem

lemma indentation [HoldsGraphic p] (depth : Nat) : Over p (Listing.indentation depth) := by
  have blank : p ' ' := HoldsGraphic.holds ' ' (by decide)
  refine ofList.mpr fun c mem => ?_
  obtain ⟨step, mem, inside⟩ := mem_flatten.mp mem
  rw [eq_of_mem_replicate mem] at inside
  have : c = ' ' := by simpa [Listing.step] using inside
  exact this ▸ blank

/-- A Python literal has no control characters, whatever its value is. -/
@[simp] lemma literal [HoldsGraphic p] (value : String) : Over p (python value) := by
  have digits : ∀ n < 16, isGraphic (Nat.digitChar n) := by decide
  have hex : ∀ n < 16, p (Nat.digitChar n) := fun n low => HoldsGraphic.holds _ (digits n low)
  have one : ∀ c : Char, ∀ d ∈ quotedChar c, p d := by
    intro c d mem
    unfold quotedChar at mem
    split at mem
    case h_6 =>
      split at mem
      case isTrue control =>
        simp only [Bool.or_eq_true, decide_eq_true_eq] at control
        simp only [hexPair, mem_cons, not_mem_nil, or_false] at mem
        rcases mem with rfl | rfl | rfl | rfl
        · exact HoldsGraphic.holds _ (by decide)
        · exact HoldsGraphic.holds _ (by decide)
        all_goals exact hex _ (by omega)
      case isFalse plain =>
        simp only [mem_singleton] at mem
        simp only [Bool.or_eq_true, decide_eq_true_eq, not_or] at plain
        refine mem ▸ HoldsGraphic.holds c ?_
        simp only [isGraphic, Bool.and_eq_true, decide_eq_true_eq, ne_eq]
        exact ⟨by omega, plain.2⟩
    all_goals
      simp only [mem_cons, not_mem_nil, or_false] at mem
      rcases mem with rfl | rfl <;> exact HoldsGraphic.holds _ (by decide)
  have quote : p '"' := HoldsGraphic.holds _ (by decide)
  refine ofList.mpr fun c mem => ?_
  simp only [cons_append, mem_cons, mem_append, mem_flatMap, not_mem_nil,
    or_false] at mem
  rcases mem with rfl | ⟨d, -, mem⟩ | rfl
  · exact quote
  · exact one d c mem
  · exact quote

lemma compiledString [HoldsGraphic p] {literal : String} (h : Over p literal) :
    Over p (Literal.compiledString literal) := by
  have whole : Literal.compiledString literal = "re.compile(\"(?:\" + " ++ literal ++ " + \")\")" :=
    rfl
  rw [whole]
  simp only [append]
  refine ⟨⟨?_, h⟩, ?_⟩ <;> exact fixed (by decide)

lemma assignment [HoldsGraphic p] (hn : Over p name) (ht : Over p text) :
    Over p s!"{name}={text}" := by
  simp only [append, string]
  exact ⟨⟨hn, fixed (by decide)⟩, ht⟩

lemma parenthesised [HoldsGraphic p] (h : Over p text) : Over p (Fragment.parenthesised text) := by
  simp only [Fragment.parenthesised, append]
  exact ⟨⟨fixed (by decide), h⟩, fixed (by decide)⟩

end Text.Over

/-- The texts of what an assignment can change are over a set. -/
def Target.Over (p : Char → Prop) : Target → Prop
  | .var _ => True
  | .element base index => Text.Over p base ∧ Text.Over p index
  | .field index => Text.Over p index

namespace Fragment

/-- The text of a fragment is over a set, and so is what it can be assigned to. -/
structure Over (p : Char → Prop) (f : Fragment) : Prop where
  text : Text.Over p f.text
  target : ∀ t, f.target = some t → t.Over p

variable {f : Fragment}

lemma Over.plain (h : Text.Over p f.text) (none : f.target = none) : f.Over p :=
  ⟨h, by simp [none]⟩

@[simp] lemma text_atom (text : String) : (atom text).text = text := rfl

@[simp] lemma text_string (text : String) : (string text).text = text := rfl

@[simp] lemma text_operator (text : String) (level : Nat) : (operator text level).text = text := rfl

lemma Over.wrapped [HoldsGraphic p] (h : f.Over p) (level : Nat) :
    Text.Over p (f.wrapped level) := by
  rw [Fragment.wrapped]
  split
  · split
    · exact .parenthesised h.text
    · exact h.text
  · exact h.text

lemma Over.stringified [HoldsGraphic p] (h : f.Over p) : Text.Over p f.stringified := by
  rw [Fragment.stringified]
  split
  · exact h.text
  · simp only [Text.Over.append]
    exact ⟨⟨.fixed rfl, h.text⟩, .fixed rfl⟩

lemma Over.grouped [HoldsGraphic p] (h : f.Over p) : f.grouped.Over p := by
  refine .plain ?_ rfl
  rw [Fragment.grouped]
  dsimp only
  split
  · exact .parenthesised h.text
  · exact h.text

lemma Over.texts {fs : List Fragment} (h : ∀ f ∈ fs, Over p f) :
    ∀ text ∈ fs.map (·.text), Text.Over p text := by
  intro text mem
  obtain ⟨f, inside, rfl⟩ := mem_map.mp mem
  exact (h f inside).text

end Fragment

/-! ### Formats -/

namespace Format

variable {conversion : Conversion} {specifier : Specifier}

def Piece.Over (p : Char → Prop) : Piece → Prop
  | .plain c | .brace c => p c
  | .percent => True
  | .field specifier => Text.Over p specifier.width ∧ Text.Over p specifier.precision

lemma specifier?_over (h : specifier? cs = some (specifier, behind)) (hs : ∀ c ∈ cs, p c) :
    Piece.Over p (.field specifier) ∧ ∀ c ∈ behind, p c := by
  have parameter : ∀ cs : List Char, ∀ c ∈ (takeParameter cs).2, c ∈ cs := by
    intro cs c mem
    rw [takeParameter] at mem
    split at mem
    case h_1 rest found =>
      have : c ∈ cs.dropWhile Char.isDigit := by
        rw [found]
        exact mem_cons_of_mem _ mem
      exact (dropWhile_suffix _).mem this
    case h_2 => exact mem
  have flag : ∀ cs : List Char, ∀ c ∈ (takeFlag cs).2, c ∈ cs := by
    intro cs c mem
    unfold takeFlag at mem
    split at mem
    · split at mem
      · exact mem_cons_of_mem _ mem
      · exact mem
    · exact mem
  have width : ∀ cs : List Char, (∀ c ∈ (takeWidth cs).1, c ∈ cs) ∧
      ∀ c ∈ (takeWidth cs).2, c ∈ cs := by
    intro cs
    unfold takeWidth
    split
    · split
      · refine ⟨fun c mem => ?_, fun c mem => ?_⟩
        · rcases mem_cons.mp mem with rfl | mem
          · exact mem_cons_self
          · exact mem_cons_of_mem _ (takeWhile_subset _ mem)
        · exact mem_cons_of_mem _ ((dropWhile_suffix _).mem mem)
      · exact ⟨by simp, fun c mem => mem⟩
    · exact ⟨by simp, by simp⟩
  have precision : ∀ cs : List Char, (∀ c ∈ (takePrecision cs).1, c ∈ cs) ∧
      ∀ c ∈ (takePrecision cs).2, c ∈ cs := by
    intro cs
    unfold takePrecision
    split
    · split
      · exact ⟨by simp, fun c mem => mem⟩
      · exact ⟨fun c mem => mem_cons_of_mem _ (takeWhile_subset _ mem),
          fun c mem => mem_cons_of_mem _ ((dropWhile_suffix _).mem mem)⟩
    · exact ⟨by simp, fun c mem => mem⟩
  have first : ∀ c ∈ (takeFlag (takeParameter cs).2).2, p c := fun c mem =>
    hs c (parameter _ c (flag _ c mem))
  rw [specifier?] at h
  dsimp only at h
  split at h
  case h_1 letter rest found =>
    split at h
    case isTrue =>
      simp only [Option.some.injEq, Prod.mk.injEq] at h
      obtain ⟨rfl, rfl⟩ := h
      refine ⟨⟨Over.ofList.mpr fun c mem => first c ((width _).1 c mem),
        Over.ofList.mpr fun c mem => first c ((width _).2 c ((precision _).1 c mem))⟩,
        fun c mem => first c ((width _).2 c ((precision _).2 c ?_))⟩
      rw [found]
      exact mem_cons_of_mem _ mem
    case isFalse => cases h
  case h_2 => cases h

lemma pieces_over (hs : ∀ c ∈ cs, p c) : ∀ piece ∈ pieces cs, piece.Over p := by
  have within : ∀ fuel (cs : List Char), (∀ c ∈ cs, p c) →
      ∀ piece ∈ piecesWithin fuel cs, piece.Over p := by
    intro fuel
    induction fuel with
    | zero => simp [piecesWithin]
    | succ fuel ih =>
      intro cs hs
      cases cs with
      | nil => simp [piecesWithin]
      | cons c rest =>
        have tail : ∀ d ∈ rest, p d := fun d mem => hs d (mem_cons_of_mem _ mem)
        rw [piecesWithin]
        split
        · refine forall_mem_cons.mpr ⟨trivial, ih _ fun d mem => tail d (mem_of_mem_drop mem)⟩
        · split
          · exact forall_mem_cons.mpr ⟨hs c mem_cons_self, ih _ tail⟩
          · split
            case h_1 specifier behind found =>
              split at found
              · obtain ⟨here, later⟩ := specifier?_over found tail
                exact forall_mem_cons.mpr ⟨here, ih _ later⟩
              · cases found
            case h_2 => exact forall_mem_cons.mpr ⟨hs c mem_cons_self, ih _ tail⟩
  exact within _ cs hs

/-- The texts that slots are filled with are over a set. -/
structure Slots.Over (p : Char → Prop) (s : Slots) : Prop where
  arguments : ∀ text ∈ s.arguments, Text.Over p text
  outputs : ∀ text ∈ s.outputs.toList, Text.Over p text

/-- A step that fills slots with texts over a set, with what holds of its result. -/
def Fills (p : Char → Prop) {α : Type} (x : Fill α) (Q : α → Prop) : Prop :=
  ∀ s : Slots, s.Over p → Q (x s).1 ∧ (x s).2.Over p

namespace Fills

variable {α β : Type}

lemma bind {f : α → Fill β} {Q : α → Prop} {R : β → Prop} (hx : Fills p x Q)
    (hf : ∀ a, Q a → Fills p (f a) R) : Fills p (x >>= f) R := fun s hs =>
  hf _ (hx s hs).1 _ (hx s hs).2

lemma pure {Q : α → Prop} (h : Q a) : Fills p (Pure.pure a : Fill α) Q :=
  fun _ hs => ⟨h, hs⟩

lemma warn (warning : Warning) : Fills p (Slots.warn warning) fun _ => True :=
  fun _ hs => ⟨trivial, hs.arguments, hs.outputs⟩

lemma takeNext : Fills p Slots.takeNext fun _ => True :=
  fun _ hs => ⟨trivial, hs.arguments, hs.outputs⟩

lemma get : Fills p (MonadState.get : Fill Slots) (Slots.Over p) := fun _ hs => ⟨hs, hs⟩

lemma argument [HoldsGraphic p] (position : Nat) : Fills p (Slots.argument position) (Over p) := by
  refine get.bind fun s hs => ?_
  split
  case h_1 text found => exact pure (hs.arguments text (mem_of_getElem? found))
  case h_2 => exact (warn _).bind fun _ _ => pure (.fixed rfl)

lemma output (h : Over p text) : Fills p (Slots.output text) fun _ => True := by
  refine fun s hs => ⟨trivial, hs.arguments, fun other mem => ?_⟩
  have mem : other ∈ (s.outputs.push text).toList := mem
  simp only [Array.toList_push, mem_append, mem_singleton] at mem
  rcases mem with mem | rfl
  · exact hs.outputs other mem
  · exact h

lemma slot [HoldsGraphic p] (position : Nat)
    (h : Over p conversion.opening ∧ Over p conversion.closing) :
    Fills p (Slots.slot position conversion) fun _ => True := by
  refine get.bind fun s hs => ?_
  split
  · exact pure trivial
  · refine (argument position).bind fun text ht => ?_
    refine (output ?_).bind fun slot _ => ?_
    · simp only [Conversion.apply, Over.append]
      exact ⟨⟨h.1, ht⟩, h.2⟩
    · exact bind (fun _ hs => ⟨trivial, hs.arguments, hs.outputs⟩) fun _ (_ : True) => pure trivial

lemma braced [HoldsGraphic p] (h : Over p text) : Over p (Slots.braced text) := by
  simp only [Slots.braced, Over.append]
  exact ⟨⟨.fixed rfl, h⟩, .fixed rfl⟩

lemma starField [HoldsGraphic p] : Fills p Slots.starField (Over p) := by
  refine takeNext.bind fun position _ => ?_
  refine (slot position ⟨.fixed rfl, .fixed rfl⟩).bind fun slot _ => ?_
  exact pure (braced (.nat slot))

lemma width [HoldsGraphic p] (h : Over p specifier.width)
    (integer : Bool) : Fills p (Slots.width specifier integer) (Over p) := by
  rw [Slots.width]
  split
  · refine pure ?_
    split
    · exact .empty
    · exact .fixed rfl
  · split
    · exact starField
    · exact pure h

lemma position (specifier : Specifier) : Fills p (Slots.position specifier) fun _ => True := by
  rw [Slots.position]
  split
  · exact takeNext
  · dsimp only
    split
    · exact pure trivial
    · exact (warn _).bind fun _ _ => pure trivial

lemma digits [HoldsGraphic p]
    (hc : isGraphic conversion.percentLetter) (h : Over p precision) :
    Fills p (Slots.digits conversion precision) fun found =>
      Over p found.1 ∧ ∀ count ∈ found.2, Over p count := by
  have letter : Over p (toString conversion.percentLetter) := by
    change Over p (String.singleton _)
    intro c mem
    simp only [String.toList_singleton, mem_singleton] at mem
    exact mem ▸ HoldsGraphic.holds _ hc
  rw [Slots.digits]
  split
  · refine takeNext.bind fun position _ => (argument position).bind fun count hn => pure ⟨?_, ?_⟩
    · simp only [Over.append]
      exact ⟨.fixed rfl, letter⟩
    · simpa using hn
  · refine pure ⟨?_, by simp⟩
    simp only [Over.append]
    exact ⟨⟨.fixed rfl, h⟩, letter⟩

lemma point [HoldsGraphic p] (h : Over p precision) : Fills p (Slots.point precision) (Over p) := by
  rw [Slots.point]
  split
  · refine (starField).bind fun text ht => pure ?_
    exact Over.append.mpr ⟨.fixed rfl, ht⟩
  · exact pure (Over.append.mpr ⟨.fixed rfl, h⟩)

lemma percentSlot [HoldsGraphic p] {format : String} {count : Option String}
    (hf : Over p format) (hc : ∀ text ∈ count, Over p text) (position : Nat) :
    Fills p (Slots.percentSlot format count position) fun _ => True := by
  refine (argument position).bind fun value hv => ?_
  split
  case h_1 text =>
    refine output ?_
    simp only [Over.append]
    exact ⟨⟨⟨⟨⟨⟨.fixed rfl, hf⟩, .fixed rfl⟩, hc text rfl⟩, .fixed rfl⟩, hv⟩, .fixed rfl⟩
  case h_2 =>
    refine output ?_
    simp only [Over.append]
    exact ⟨⟨⟨⟨.fixed rfl, hf⟩, .fixed rfl⟩, hv⟩, .fixed rfl⟩

/-- The texts of a conversion are fixed. -/
structure Plain (c : Conversion) : Prop where
  opening : c.opening.toList.all isGraphic = true
  closing : c.closing.toList.all isGraphic = true
  suffix : c.suffix.toList.all isGraphic = true
  precision : (c.precision.getD "").toList.all isGraphic = true
  letter : isGraphic c.percentLetter = true

lemma plain_of_find? (h : Conversion.find? letter = some c) : Plain c := by
  have all : ∀ c ∈ Conversion.all, c.opening.toList.all isGraphic ∧
      c.closing.toList.all isGraphic ∧ c.suffix.toList.all isGraphic ∧
      (c.precision.getD "").toList.all isGraphic ∧ isGraphic c.percentLetter := by
    decide
  obtain ⟨opening, closing, suffix, precision, letter⟩ := all c (mem_of_find?_eq_some h)
  exact ⟨opening, closing, suffix, precision, letter⟩

lemma noteFlag (flag : Option Char) : Fills p (Slots.noteFlag flag) fun _ => True := by
  cases flag with
  | none => exact pure trivial
  | some flag =>
    rw [Slots.noteFlag]
    split
    · exact warn _
    · exact pure trivial

lemma precisionText [HoldsGraphic p] (hs : Over p specifier.precision) (hc : Plain conversion) :
    Over p (Slots.precisionText specifier conversion) := by
  rw [Slots.precisionText]
  split
  · exact .fixed hc.precision
  · exact hs

lemma valueSlot [HoldsGraphic p] (hc : Plain conversion)
    (position : Nat) {digits : Option (String × Option String)}
    (hd : ∀ found ∈ digits, Over p found.1 ∧ ∀ count ∈ found.2, Over p count) :
    Fills p (Slots.valueSlot conversion position digits) fun value => Over p value.2 := by
  rcases digits with _ | ⟨format, count⟩
  · exact (slot position ⟨.fixed hc.opening, .fixed hc.closing⟩).bind fun _ _ =>
      pure (.fixed hc.suffix)
  · obtain ⟨hf, hn⟩ := hd _ rfl
    exact (percentSlot hf hn position).bind fun _ _ => pure .empty

lemma replacementField [HoldsGraphic p] (specifier : Specifier) {width point : String}
    {value : Nat × String} (hw : Over p width) (ht : Over p point) (hv : Over p value.2) :
    Over p (Slots.replacementField specifier width point value) := by
  rw [Slots.replacementField]
  split
  · exact braced (.nat _)
  · refine braced ?_
    simp only [Over.append]
    refine ⟨⟨⟨⟨⟨.nat _, .fixed rfl⟩, ?_⟩, hw⟩, ht⟩, hv⟩
    split <;> exact .fixed rfl

lemma field [HoldsGraphic p] (hs : Piece.Over p (.field specifier)) (hc : Plain conversion) :
    Fills p (Slots.field specifier conversion) (Over p) := by
  have precise := precisionText hs.2 hc
  have width : Fills p (Slots.widthPart specifier conversion) (Over p) := by
    rw [Slots.widthPart]
    split
    · exact Fills.width hs.1 _
    · exact pure .empty
  have digits : Fills p (Slots.digitsPart specifier conversion) fun digits =>
      ∀ found ∈ digits, Over p found.1 ∧ ∀ count ∈ found.2, Over p count := by
    rw [Slots.digitsPart]
    split
    · rw [← bind_pure_comp]
      exact (Fills.digits hc.letter precise).bind fun found hf => pure (by simpa using hf)
    · exact pure (by simp)
  have point : Fills p (Slots.pointPart specifier conversion) (Over p) := by
    rw [Slots.pointPart]
    split
    · exact Fills.point precise
    · exact pure .empty
  rw [Slots.field_eq]
  exact (noteFlag _).bind fun _ _ => width.bind fun w hw => digits.bind fun d hd =>
    point.bind fun t ht => (position specifier).bind fun n _ => (valueSlot hc n hd).bind
      fun value hv => pure (replacementField specifier hw ht hv)

lemma piece [HoldsGraphic p] {piece : Piece} (h : piece.Over p) :
    Fills p (Slots.piece piece) (Over p) := by
  cases piece with
  | plain c | brace c => exact pure (Over.ofList.mpr (by simpa [Piece.Over] using h))
  | percent => exact pure (.fixed rfl)
  | field specifier =>
    rw [Slots.piece]
    split
    case h_1 conversion found => exact field h (plain_of_find? found)
    case h_2 => exact pure .empty

lemma mapM [HoldsGraphic p] {pieces : List Piece} (h : ∀ piece ∈ pieces, piece.Over p) :
    Fills p (pieces.mapM Slots.piece) fun texts => ∀ text ∈ texts, Over p text := by
  induction pieces with
  | nil => exact pure (by simp)
  | cons first rest ih =>
    rw [mapM_cons]
    refine (piece (h first mem_cons_self)).bind fun text ht => ?_
    refine (ih fun other mem => h other (mem_cons_of_mem _ mem)).bind fun texts hts => ?_
    exact pure (forall_mem_cons.mpr ⟨ht, hts⟩)

end Fills

/-- The code of a formatted call is over what its arguments are over. -/
lemma compile_over [HoldsGraphic p] {texts : List String}
    (h : ∀ text ∈ texts, Over p text) : Over p (compile texts).code := by
  cases texts with
  | nil => exact .fixed rfl
  | cons format arguments =>
    rw [compile]
    split
    case isTrue =>
      have filled := Fills.mapM (pieces_over (h format mem_cons_self)) { arguments }
        ⟨fun text mem => h text (mem_cons_of_mem _ mem), by simp⟩
      rcases run : (pieces format.toList).mapM Slots.piece { arguments } with ⟨texts, slots⟩
      rw [run] at filled
      have template := Over.joined filled.1
      rw [compileLiteral_code run, callText]
      split
      · split
        · exact Over.append.mpr ⟨template, .fixed rfl⟩
        · exact template
      · simp only [Over.append]
        exact ⟨⟨⟨template, .fixed rfl⟩, .join (.fixed rfl) filled.2.outputs⟩, .fixed rfl⟩
    case isFalse =>
      simp only [Over.append]
      exact ⟨⟨.fixed rfl, .join (.fixed rfl) h⟩, .fixed rfl⟩

end Format

end AwkToPython
