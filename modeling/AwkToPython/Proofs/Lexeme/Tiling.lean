import AwkToPython.Proofs.Lexeme.Solid
import AwkToPython.Proofs.Emission.Reading

/-!
# Lexemes tile their lines

A line that is complete, with no backslash at its end and no literal left open, is
cut into the texts of its lexemes and the blanks between them. Nothing is dropped
and nothing is read twice, also where one span gives two words and where a comment
takes the rest of the line.
-/
namespace AwkToPython

variable {c : Char} {cs : List Char} {body rest : List Char}

open List Text AwkToPython.Span

/-- A text in a line, its place, and whether it follows a blank or the start. -/
structure Mark where
  text : List Char
  place : Place
  spaced : Bool
deriving DecidableEq, Repr

namespace Text

/-- Whether what comes next stands at the start or behind a blank. -/
def opens (before : List Char) : Bool := before.getLast?.all isBlank

lemma opens_append (last : text.getLast? = some c) : opens (before ++ text) = isBlank c := by
  rw [opens, getLast?_append, last]
  rfl

lemma trimEnd_append (cs : List Char) :
    ∃ blanks, cs = trimEnd cs ++ blanks ∧ ∀ c ∈ blanks, isBlank c := by
  refine ⟨(cs.reverse.takeWhile isBlank).reverse, ?_, fun c mem => ?_⟩
  · rw [trimEnd, ← reverse_append, takeWhile_append_dropWhile, reverse_reverse]
  · exact all_eq_true.mp all_takeWhile c (mem_reverse.mp mem)

lemma trimEnd_last (last : (trimEnd cs).getLast? = some c) : isBlank c = false := by
  rw [trimEnd, getLast?_reverse] at last
  have head := head?_dropWhile_not isBlank cs.reverse
  rw [last] at head
  simpa using head

lemma trimStart_of_head (visible : isBlank c = false) : trimStart (c :: cs) = c :: cs := by
  rw [trimStart, dropWhile_cons, if_neg (by simp [visible])]

end Text

/-- From where it is read up to, a line is made of blanks and of texts, each at its
column and with a mark of its own. -/
inductive Tiles (number : Nat) : List Char → List Char → List Mark → Prop
  | done {before} : Tiles number before [] []
  | blank {before c rest marks} (blank : isBlank c = true)
    (more : Tiles number (before ++ [c]) rest marks) : Tiles number before (c :: rest) marks
  | text {before text rest marks} (visible : ∃ c ∈ text.head?, isBlank c = false)
    (more : Tiles number (before ++ text) rest marks) :
    Tiles number before (text ++ rest)
      (⟨text, ⟨number, byteLength before + 1⟩, Text.opens before⟩ :: marks)

namespace Tiles

variable {number : Nat} {before rest : List Char} {marks : List Mark}

lemma blanks {blanks : List Char} (blank : ∀ c ∈ blanks, isBlank c)
    (more : Tiles number (before ++ blanks) rest marks) :
    Tiles number before (blanks ++ rest) marks := by
  induction blanks generalizing before with
  | nil => simpa using more
  | cons c blanks ih =>
    refine .blank (blank c mem_cons_self) (ih (fun d mem => blank d (mem_cons_of_mem _ mem)) ?_)
    rw [append_assoc]
    exact more

lemma place (h : Tiles number before rest marks) : ∀ m ∈ marks, m.place.line = number ∧
    byteLength before < m.place.column ∧ m.place.column ≤ byteLength (before ++ rest) := by
  induction h with
  | done => nofun
  | @blank before c rest marks blank more ih =>
    intro m mem
    obtain ⟨line, above, below⟩ := ih m mem
    rw [append_assoc] at below
    rw [byteLength_append] at above
    exact ⟨line, by omega, below⟩
  | @text before text rest marks visible more ih =>
    obtain ⟨c, head, -⟩ := visible
    obtain ⟨others, rfl⟩ := head?_eq_some_iff.mp head
    have size := c.utf8Size_pos
    intro m mem
    rcases mem_cons.mp mem with rfl | mem
    · refine ⟨rfl, Nat.lt_succ_self _, ?_⟩
      simp only [byteLength_append, byteLength]
      omega
    · obtain ⟨line, above, below⟩ := ih m mem
      rw [append_assoc] at below
      rw [byteLength_append] at above
      exact ⟨line, by omega, below⟩

lemma within (h : Tiles number before rest marks) : ∀ m ∈ marks, m.text <:+: before ++ rest := by
  induction h with
  | done => nofun
  | blank blank more ih => simpa using ih
  | @text before text rest marks visible more ih =>
    intro m mem
    rcases mem_cons.mp mem with rfl | mem
    · exact ⟨before, rest, by rw [append_assoc]⟩
    · simpa using ih m mem

lemma increasing (h : Tiles number before rest marks) :
    marks.Pairwise fun m m' => m.place.column < m'.place.column := by
  induction h with
  | done => exact .nil
  | blank blank more ih => exact ih
  | @text before text rest marks visible more ih =>
    obtain ⟨c, head, -⟩ := visible
    obtain ⟨others, rfl⟩ := head?_eq_some_iff.mp head
    have size := c.utf8Size_pos
    refine pairwise_cons.mpr ⟨fun m mem => ?_, ih⟩
    have above := (more.place m mem).2.1
    simp only [byteLength_append, byteLength] at above ⊢
    omega

end Tiles

namespace Lexeme

def mark : Lexeme → Mark
  | .word text place spaced => ⟨text.toList, place, spaced⟩
  | .comment text place spaced _ => ⟨text.toList, place, spaced⟩
  | .lineEnd place => ⟨['\n'], place, true⟩
  | .fault _ place => ⟨[], place, true⟩

/-- A comment, or a word; one that starts with a slash divides or is a regex. -/
def IsText : Lexeme → Prop
  | .word text _ _ => text.toList.head? = some '/' →
    text = "/" ∨ text = "/=" ∨ text = "/" ++ Reading.regexBody text.toList ++ "/"
  | .comment _ _ _ _ => True
  | _ => False

def isFault : Lexeme → Bool
  | .fault _ _ => true
  | _ => false

/-- A literal that the line leaves open. -/
def isOpenFault : Lexeme → Bool
  | .fault (.openString _) _ | .fault (.openRegex _) _ => true
  | _ => false

section Words

variable {number : Nat} {before lead literal rest : List Char} {marks : List Mark} {spaced : Bool}

/-- The operator before a regex, the blanks behind it, and its last character. -/
lemma lead_cases (leads : ∃ c ∈ lead.head?, isBlank c = false) :
    ∃ blanks d, lead = trim lead ++ blanks ∧ (∀ c ∈ blanks, isBlank c) ∧
      (trim lead).head? = lead.head? ∧ (trim lead).getLast? = some d ∧ isBlank d = false := by
  obtain ⟨c, head, visible⟩ := leads
  obtain ⟨behind, rfl⟩ := head?_eq_some_iff.mp head
  rw [trim, trimStart_of_head visible]
  obtain ⟨blanks, whole, blank⟩ := trimEnd_append (c :: behind)
  cases operator : trimEnd (c :: behind) with
  | nil =>
    rw [operator, nil_append] at whole
    rw [blank c (whole ▸ mem_cons_self)] at visible
    cases visible
  | cons first others =>
    rw [operator] at whole
    obtain ⟨d, last⟩ : ∃ d, (first :: others).getLast? = some d := by simp [getLast?_cons]
    refine ⟨blanks, d, whole, blank, ?_, last, trimEnd_last (operator ▸ last)⟩
    rw [whole]
    rfl

lemma tiles_words (follows : spaced = Text.opens before)
    (leads : lead = [] ∨ ∃ c ∈ lead.head?, isBlank c = false)
    (visible : ∃ c ∈ literal.head?, isBlank c = false)
    (more : Tiles number (before ++ (lead ++ literal)) rest marks) :
    Tiles number before (lead ++ literal ++ rest)
      ((words number (byteLength before) spaced lead literal).map mark ++ marks) := by
  subst follows
  rcases leads with rfl | leads
  · have one : (words number (byteLength before) (Text.opens before) [] literal).map mark =
        [⟨literal, ⟨number, byteLength before + 1⟩, Text.opens before⟩] := by
      simp [words, trim, trimStart, trimEnd, mark, byteLength]
    rw [one]
    exact .text visible more
  · obtain ⟨blanks, d, whole, blank, head, last, solid⟩ := lead_cases leads
    have some_ : trim lead ≠ [] := fun none => by rw [none] at last; cases last
    have two : (words number (byteLength before) (Text.opens before) lead literal).map mark =
        [⟨trim lead, ⟨number, byteLength before + 1⟩, Text.opens before⟩,
          ⟨literal, ⟨number, byteLength (before ++ lead) + 1⟩,
            decide ((trim lead).length < lead.length)⟩] := by
      simp only [words, List.isEmpty_iff, some_, if_false, map_cons, map_nil, mark,
        String.toList_ofList, byteLength_append]
      rw [Nat.add_right_comm]
    -- the regex follows a blank just if something was trimmed away
    have spaced : decide ((trim lead).length < lead.length) = Text.opens (before ++ lead) := by
      have length := congrArg length whole
      rw [length_append] at length
      rcases eq_nil_or_concat' blanks with rfl | ⟨front, b, rfl⟩
      · rw [append_nil] at whole
        rw [decide_eq_false (by simp at length; omega), whole, Text.opens_append last, solid]
      · rw [decide_eq_true (by simp at length; omega), whole,
          Text.opens_append (c := b) (by simp), blank b (by simp)]
    rw [two, spaced]
    generalize trim lead = operator at *
    subst whole
    have visible' : ∃ c ∈ operator.head?, isBlank c = false := head ▸ leads
    simp only [append_assoc, cons_append, nil_append] at more ⊢
    refine .text visible' (.blanks blank ?_)
    rw [append_assoc]
    exact .text visible (by simpa using more)

end Words

/-! ### Spans -/

lemma last_of_closed (delimiter : d = '"' ∨ d = '\'' ∨ d = '/')
    (closed : isOpen (d :: body) = false) : body.getLast? = some d := by
  rw [isOpen, if_pos (by simpa [or_assoc] using delimiter)] at closed
  by_contra other
  rw [if_neg other] at closed
  cases closed

/-- The first slash of a led regex is that of the literal. -/
lemma splitLead_regex (free : '/' ∉ lead) (whole : c :: cs = lead ++ '/' :: body) (n : Nat) :
    splitLead .regex (c :: cs.take (lead.length + n)) = (lead, '/' :: body.take n) := by
  have text : c :: cs.take (lead.length + n) = lead ++ '/' :: body.take n := by
    rw [← take_succ_cons, whole, Nat.add_assoc, take_length_add_append, take_succ_cons]
  have other : ∀ c ∈ lead, decide (c ≠ '/') = true := by
    intro c mem
    rw [decide_eq_true_eq]
    rintro rfl
    exact free mem
  rw [splitLead, if_pos rfl, text, takeWhile_append_of_pos other, dropWhile_append_of_pos other]
  simp

lemma regexBody_of_closed (last : body.getLast? = some '/') :
    String.ofList ('/' :: body) = "/" ++ Reading.regexBody ('/' :: body) ++ "/" := by
  obtain ⟨front, rfl⟩ := getLast?_eq_some_iff.mp last
  apply String.toList_inj.mp
  simp [Reading.regexBody]

/-- What a span is made of: its lead starts and its literal starts and ends with a
visible character, and its words are texts. -/
structure IsCut (parts : List Char × List Char) : Prop where
  lead : parts.1 = [] ∨ ∃ d ∈ parts.1.head?, isBlank d = false
  first : ∃ d ∈ parts.2.head?, isBlank d = false
  last : ∃ d ∈ parts.2.getLast?, isBlank d = false
  texts : ∀ number pos spaced, ∀ l ∈ words number pos spaced parts.1 parts.2, l.IsText

lemma IsCut.single (visible : isBlank c = false)
    (last : ∃ d ∈ (c :: rest).getLast?, isBlank d = false)
    (slash : c = '/' → c :: rest ∈ [['/'], ['/', '=']]) : IsCut ([], c :: rest) := by
  refine ⟨.inl rfl, ⟨c, rfl, visible⟩, last, fun number pos spaced l mem => ?_⟩
  obtain ⟨text, place, spaced', rfl, rfl | rfl⟩ := mem_words mem
  · intro head
    rw [String.toList_ofList] at head
    cases head
    have which := slash rfl
    simp only [mem_cons, not_mem_nil, or_false] at which
    rcases which with same | same <;> rw [same]
    · exact .inl rfl
    · exact .inr (.inl rfl)
  · intro head
    cases head

lemma isCut_splitLead {span : Span}
    (found : front? first c cs = some span) (visible : isBlank c = false)
    (word : span.shape ≠ .comment)
    (closed : ¬ (span.shape ≠ .plain && isOpen (splitLead span.shape (c :: cs.take span.more)).2)) :
    IsCut (splitLead span.shape (c :: cs.take span.more)) := by
  obtain ⟨shape, more⟩ := span
  rcases front?_cases found with ⟨rfl, -⟩ | ⟨rfl, quote, -⟩ |
    ⟨rfl, lead, body, free, whole, rfl⟩ | ⟨rfl, plain, rfl⟩
  · exact absurd rfl word
  · have last := last_of_closed (by tauto) (by simpa [splitLead] using closed)
    refine .single visible ⟨c, by rw [getLast?_cons, last]; rfl, visible⟩ ?_
    rintro rfl
    rcases quote with same | same <;> cases same
  · change ¬ (true && isOpen (splitLead .regex _).2) at closed
    change IsCut (splitLead .regex _)
    rw [splitLead_regex free whole] at closed ⊢
    have last := last_of_closed (.inr (.inr rfl)) (by simpa using closed)
    refine ⟨?_, ⟨'/', rfl, by decide⟩, ⟨'/', by rw [getLast?_cons, last]; rfl, by decide⟩,
      fun number pos spaced l mem => ?_⟩
    · cases lead with
      | nil => exact .inl rfl
      | cons d lead =>
        cases whole
        exact .inr ⟨c, rfl, visible⟩
    · obtain ⟨text, place, spaced', rfl, rfl | rfl⟩ := mem_words mem
      · intro _
        rw [String.toList_ofList]
        exact .inr (.inr (regexBody_of_closed last))
      · -- no slash is before the literal
        intro head
        rw [String.toList_ofList] at head
        exact absurd (mem_of_mem_trim (mem_of_mem_head? head)) free
  · change IsCut ([], c :: cs.take (plainLength (c :: cs) - 1))
    have text : c :: cs.take (plainLength (c :: cs) - 1) =
      (c :: cs).take (plainLength (c :: cs)) := cons_take_of_pos plain
    refine .single visible ?_ ?_
    · obtain ⟨d, last⟩ : ∃ d, (c :: cs.take (plainLength (c :: cs) - 1)).getLast? = some d := by
        simp [getLast?_cons]
      refine ⟨d, last, (fits_plain (c :: cs)).solid d ?_⟩
      rw [← text]
      exact mem_of_getLast? last
    · rintro rfl
      rw [text]
      exact plain_slash cs

/-! ### Lines -/

/-- Lines one after the other, each with its texts and then its end. -/
inductive TileLines : Nat → List (List Char) → List Lexeme → Prop
  | nil {number} : TileLines number [] []
  | cons {number line later ws ls} (tiles : Tiles number [] (trim line) (ws.map mark))
    (texts : ∀ l ∈ ws, l.IsText) (more : TileLines (number + 1) later ls) :
    TileLines number (line :: later)
      (ws ++ .lineEnd ⟨number, byteLength (trim line) + 1⟩ :: ls)

/-- A line that ends neither with a backslash nor, scanned alone, inside a literal. -/
structure IsComplete (number : Nat) (line : List Char) : Prop where
  backslash : (trim line).getLast? ≠ some '\\'
  closed : ∀ l ∈ scanLine number 0 true true (trim line) [], l.isOpenFault = false

instance (number : Nat) (line : List Char) : Decidable (IsComplete number line) :=
  decidable_of_iff ((trim line).getLast? ≠ some '\\' ∧
    ∀ l ∈ scanLine number 0 true true (trim line) [], l.isOpenFault = false)
    ⟨fun h => ⟨h.1, h.2⟩, fun h => ⟨h.1, h.2⟩⟩

section Steps

variable {number pos : Nat} {first spaced : Bool} {c : Char} {cs : List Char}
  {later : List (List Char)} {span : Span}

lemma scanLine_blank (blank : isBlank c) : scanLine number pos first spaced (c :: cs) later =
      scanLine number (pos + c.utf8Size) first true cs later := by
  rw [scanLine.eq_def]
  simp only [if_pos blank]

lemma scanLine_open (blank : ¬ isBlank c) (joined : ¬ (c = '\\' && cs.isEmpty))
    (found : front? first c cs = some span) (word : ¬ span.shape = .comment)
    (open_ : (span.shape ≠ .plain && isOpen (splitLead span.shape (c :: cs.take span.more)).2)) :
    scanLine number pos first spaced (c :: cs) [] =
      [.fault (openFault (splitLead span.shape (c :: cs.take span.more)).2) ⟨number, pos + 1⟩] := by
  rw [scanLine, if_neg blank, if_neg joined]
  simp only [found, if_neg word, if_pos open_]

lemma scanLine_word (blank : ¬ isBlank c) (joined : ¬ (c = '\\' && cs.isEmpty))
    (found : front? first c cs = some span) (word : ¬ span.shape = .comment)
    (closed : ¬ (span.shape ≠ .plain && isOpen (splitLead span.shape (c :: cs.take span.more)).2)) :
    scanLine number pos first spaced (c :: cs) later =
      words number pos spaced (splitLead span.shape (c :: cs.take span.more)).1
        (splitLead span.shape (c :: cs.take span.more)).2 ++
      scanLine number (pos + byteLength (c :: cs.take span.more)) false false
        (cs.drop span.more) later := by
  rw [scanLine.eq_def]
  simp only [if_neg blank, if_neg joined, found, if_neg word, if_neg closed]

end Steps

lemma isOpenFault_openFault (literal : List Char) (place : Place) :
    (Lexeme.fault (openFault literal) place).isOpenFault := by
  rw [openFault]
  split <;> rfl

/-- What stands at the end of a line stands at the end of its rest. -/
lemma last_ne_of_suffix (suffix : rest <:+ cs)
    (other : cs.getLast? ≠ some c) : rest.getLast? ≠ some c := by
  obtain ⟨front, rfl⟩ := suffix
  intro last
  exact other (by rw [getLast?_append, last]; rfl)

lemma tiles_scanLine (number pos : Nat) (first spaced : Bool) (rest : List Char)
    (later : List (List Char)) (before : List Char) (at_ : pos = byteLength before)
    (follows : rest ≠ [] → spaced = Text.opens before) (backslash : rest.getLast? ≠ some '\\')
    (closed : ∀ l ∈ scanLine number pos first spaced rest [], l.isOpenFault = false)
    (complete : ∀ i line, later[i]? = some line → IsComplete (number + 1 + i) line)
    (faultless : ∀ l ∈ scanLine number pos first spaced rest later, l.isFault = false) :
    ∃ ws ls, scanLine number pos first spaced rest later =
        ws ++ .lineEnd ⟨number, byteLength (before ++ rest) + 1⟩ :: ls ∧
      Tiles number before rest (ws.map mark) ∧ (∀ l ∈ ws, l.IsText) ∧
      TileLines (number + 1) later ls := by
  fun_induction scanLine number pos first spaced rest later generalizing before with
  | case1 number pos first spaced =>
    exact ⟨[], [], by rw [at_, append_nil]; rfl, .done, forall_mem_nil _, .nil⟩
  | case2 number pos first spaced line later ih =>
    have next := complete 0 line rfl
    obtain ⟨ws, ls, run, tiles, texts, more⟩ := ih [] rfl (fun _ => rfl) next.backslash next.closed
      (fun i line here => by
        have := complete (i + 1) line here
        rwa [show number + 1 + (i + 1) = number + 1 + 1 + i by omega] at this)
      (fun l mem => faultless l (mem_cons_of_mem _ mem))
    refine ⟨[], _, by rw [at_, append_nil]; rfl, .done, forall_mem_nil _, ?_⟩
    rw [run]
    exact .cons tiles texts more
  | case3 number pos first spaced c cs later blank ih =>
    rw [scanLine_blank blank] at closed
    obtain ⟨ws, ls, run, tiles, texts, more⟩ := ih (before ++ [c]) (by simp [at_, byteLength])
      (fun _ => by rw [Text.opens_append (c := c) rfl, blank])
      (last_ne_of_suffix (suffix_cons c cs) backslash) closed complete faultless
    exact ⟨ws, ls, by rw [run, append_assoc]; rfl, .blank blank tiles, texts, more⟩
  | case4 number pos first spaced c cs blank joined ih
  | case5 number pos first spaced c cs blank joined line later ih =>
    simp only [Bool.and_eq_true, decide_eq_true_eq, List.isEmpty_iff] at joined
    exact absurd (by rw [joined.1, joined.2]; rfl) backslash
  | case6 number pos first spaced c cs later place blank joined unknown text
  | case8 number pos first spaced c cs place blank joined span found text word parts open_ =>
    exact absurd (faultless _ mem_cons_self) (by simp [isFault])
  | case7 number pos first spaced c cs later place blank joined span found text comment ih =>
    have visible : isBlank c = false := by simpa using blank
    have whole : text = c :: cs := by
      rcases front?_cases found with ⟨-, -, all⟩ | ⟨shape, -⟩ | ⟨shape, -⟩ | ⟨shape, -⟩
      · change c :: cs.take span.more = c :: cs
        rw [all, take_length]
      all_goals
        rw [comment] at shape
        cases shape
    obtain ⟨ws, ls, run, tiles, texts, more⟩ := ih (before ++ c :: cs)
      (by rw [byteLength_append, at_]) (fun some_ => absurd rfl some_) (by simp)
      (by rw [scanLine]; simp [isOpenFault]) complete
      (fun l mem => faultless l (mem_cons_of_mem _ mem))
    refine ⟨.comment (String.ofList text) place spaced first :: ws, ls, ?_, ?_, ?_, more⟩
    · rw [run, append_nil]
      rfl
    · have tiled := Tiles.text ⟨c, rfl, visible⟩ tiles
      rw [append_nil, ← at_, ← follows (cons_ne_nil c cs), ← whole] at tiled
      rw [← whole]
      simpa only [map_cons, mark, String.toList_ofList] using tiled
    · exact forall_mem_cons.mpr ⟨trivial, texts⟩
  | case9 number pos first spaced c cs blank joined span found text word parts open_ line
      later ih =>
    rw [scanLine_open blank joined found word open_] at closed
    have fault := closed _ mem_cons_self
    rw [isOpenFault_openFault] at fault
    cases fault
  | case10 number pos first spaced c cs later blank joined span found text word parts shut ih =>
    have visible : isBlank c = false := by simpa using blank
    rw [scanLine_word blank joined found word shut] at closed
    have cut := isCut_splitLead found visible word shut
    have whole : parts.1 ++ parts.2 = text := splitLead_append span.shape text
    have behind : text ++ cs.drop span.more = c :: cs := by
      simp [text, take_append_drop]
    obtain ⟨d, last, solid⟩ := cut.last
    obtain ⟨ws, ls, run, tiles, texts, more⟩ := ih (before ++ text)
      (by rw [byteLength_append, at_])
      (fun _ => by
        have end_ : text.getLast? = some d := by
          rw [← whole, getLast?_append, show parts.2.getLast? = some d from last]
          rfl
        rw [Text.opens_append end_, solid])
      (last_ne_of_suffix ((drop_suffix _ _).trans (suffix_cons c cs)) backslash)
      (fun l mem => closed l (mem_append_right _ mem)) complete
      (fun l mem => faultless l (mem_append_right _ mem))
    refine ⟨words number pos spaced parts.1 parts.2 ++ ws, ls, ?_, ?_, ?_, more⟩
    · rw [run, append_assoc, append_assoc, behind]
    · rw [map_append, at_, ← behind, ← whole]
      refine tiles_words (follows (cons_ne_nil c cs)) cut.lead cut.first ?_
      rw [whole]
      exact tiles
    · intro l mem
      rcases mem_append.mp mem with mem | mem
      · exact cut.texts number pos spaced l mem
      · exact texts l mem

lemma tileLines_scan
    (complete : ∀ entry ∈ (lines source.toList).zipIdx 1, IsComplete entry.2 entry.1)
    (faultless : ∀ l ∈ scan source, l.isFault = false) :
    TileLines 1 (lines source.toList) (scan source) := by
  rw [scan] at faultless ⊢
  split at faultless
  case h_1 none =>
    rw [none]
    exact .nil
  case h_2 line later lines =>
    rw [lines] at complete ⊢
    rw [zipIdx_cons] at complete
    have first := complete _ mem_cons_self
    obtain ⟨ws, ls, run, tiles, texts, more⟩ := tiles_scanLine 1 0 true true (trim line) later []
      rfl (fun _ => rfl) first.backslash first.closed
      (fun i line here => complete _ (mem_cons_of_mem _
        (mk_add_mem_zipIdx_iff_getElem?.mpr here))) faultless
    rw [run]
    exact .cons tiles texts more

namespace TileLines

variable {number : Nat} {lines : List (List Char)} {ls : List Lexeme}

lemma line (h : TileLines number lines ls) : ∀ l ∈ ls,
    number ≤ l.mark.place.line ∧ l.mark.place.line < number + lines.length := by
  induction h with
  | nil => nofun
  | @cons number line later ws ls tiles texts more ih =>
    intro l mem
    rw [length_cons]
    rcases mem_append.mp mem with mem | mem
    · have := (tiles.place l.mark (mem_map_of_mem mem)).1
      omega
    · rcases mem_cons.mp mem with rfl | mem
      · simp only [mark]
        omega
      · have := ih l mem
        omega

lemma text (h : TileLines number lines ls) : ∀ l ∈ ls, (∃ place, l = .lineEnd place) ∨
    l.IsText ∧ ∃ line ∈ lines, l.mark.text <:+: trim line := by
  induction h with
  | nil => nofun
  | @cons number line later ws ls tiles texts more ih =>
    intro l mem
    rcases mem_append.mp mem with mem | mem
    · exact .inr ⟨texts l mem, line, mem_cons_self,
        tiles.within l.mark (mem_map_of_mem mem)⟩
    · rcases mem_cons.mp mem with rfl | mem
      · exact .inl ⟨_, rfl⟩
      · exact (ih l mem).imp_right fun ⟨isText, other, there, within⟩ =>
          ⟨isText, other, mem_cons_of_mem _ there, within⟩

/-- The lexemes with the number of a line are its texts and its end. -/
lemma filter (h : TileLines number lines ls) (i : Nat) {line : List Char}
    (here : lines[i]? = some line) : ∃ ws, ls.filter (fun l => l.mark.place.line = number + i) =
      ws ++ [.lineEnd ⟨number + i, byteLength (trim line) + 1⟩] ∧
    Tiles (number + i) [] (trim line) (ws.map mark) ∧ ∀ l ∈ ws, l.IsText := by
  induction h generalizing i with
  | nil => simp at here
  | @cons number first later ws ls tiles texts more ih =>
    have own : ∀ l ∈ ws, l.mark.place.line = number := fun l mem =>
      (tiles.place l.mark (mem_map_of_mem mem)).1
    have others : ∀ l ∈ ls, number < l.mark.place.line := fun l mem => (more.line l mem).1
    cases i with
    | zero =>
      cases here
      refine ⟨ws, ?_, tiles, texts⟩
      rw [filter_append, filter_eq_self.mpr (by simpa using own), filter_cons,
        if_pos (by simp [mark]), filter_eq_nil_iff.mpr (fun l mem => by
          have := others l mem
          simp only [decide_eq_true_eq]
          omega)]
      rfl
    | succ i =>
      obtain ⟨ws', same, tiles', texts'⟩ := ih i (by simpa using here)
      rw [show number + 1 + i = number + (i + 1) by omega] at same tiles'
      refine ⟨ws', ?_, tiles', texts'⟩
      rw [filter_append, filter_cons, if_neg (by simp [mark]), same,
        filter_eq_nil_iff.mpr (fun l mem => by
          have := own l mem
          simp only [decide_eq_true_eq]
          omega)]
      rfl

lemma increasing (h : TileLines number lines ls) : (ls.map mark).Pairwise fun m m' =>
    m.place.line < m'.place.line ∨
      m.place.line = m'.place.line ∧ m.place.column < m'.place.column := by
  induction h with
  | nil => exact .nil
  | @cons number first later ws ls tiles texts more ih =>
    have own : ∀ l ∈ ws, l.mark.place.line = number := fun l mem =>
      (tiles.place l.mark (mem_map_of_mem mem)).1
    have others : ∀ m ∈ ls.map mark, number < m.place.line := by
      intro m mem
      obtain ⟨l, from_, rfl⟩ := mem_map.mp mem
      exact (more.line l from_).1
    rw [map_append, map_cons]
    refine pairwise_append.mpr ⟨?_, pairwise_cons.mpr ⟨fun m mem => ?_, ih⟩, ?_⟩
    · refine tiles.increasing.imp_of_mem fun mem mem' column => .inr ⟨?_, column⟩
      rw [(tiles.place _ mem).1, (tiles.place _ mem').1]
    · exact .inl (others m mem)
    · intro m mem m' mem'
      obtain ⟨line, -, below⟩ := tiles.place m mem
      rcases mem_cons.mp mem' with rfl | mem'
      · exact .inr ⟨line, Nat.lt_succ_of_le below⟩
      · exact .inl (line ▸ others m' mem')

end TileLines

end Lexeme

end AwkToPython
