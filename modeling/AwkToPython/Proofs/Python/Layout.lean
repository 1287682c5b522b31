import AwkToPython.Proofs.Python.Block
import AwkToPython.Proofs.Python.Opener
import Mathlib.Data.List.Chain

/-!
# The layout of a program

Python reads the blocks of a program from the indentation of its lines. Blank
lines and comments count for nothing; of the others, one that opens a block is
followed by one that is a level deeper, and any other by one that belongs to a
block which is still open.
-/
namespace AwkToPython.Python

variable {ls : List String} {l : String}

open List Listing

/-- The number of spaces that a line begins with. -/
def width (line : String) : Nat := (line.toList.takeWhile (· = ' ')).length

/-- What follows these spaces. -/
def content (line : String) : List Char := line.toList.dropWhile (· = ' ')

/-- The line is neither blank nor a comment. -/
def isCode (line : String) : Bool :=
  match content line with
  | [] => false
  | c :: _ => c ≠ '#'

def isWordChar (c : Char) : Bool := c.isAlphanum || c = '_'

/-- The first word of the line opens a block. -/
def opensBlock (line : String) : Bool :=
  openers.any fun word => word.toList = (content line).takeWhile isWordChar

/-- The line `b` may follow the line `a`. -/
def Follows (a b : String) : Prop :=
  if opensBlock a then width b = width a + 4 else width b ≤ width a

/-- Of the lines before it, a line is at the level of one whose block is still open:
no line after that one is less deep. -/
def Encloses (before : List String) (line : String) : Prop :=
  ∃ outer first inner, before = outer ++ first :: inner ∧ width first = width line ∧
    ∀ l ∈ inner, width line ≤ width l

/-- Lines of code that Python can read as blocks. -/
structure Structured (ls : List String) : Prop where
  levels : ∀ l ∈ ls, 4 ∣ width l
  follows : ls.IsChain Follows
  enclosed : ∀ before l after, ls = before ++ l :: after → ∀ last ∈ before.getLast?,
    opensBlock last = false → Encloses before l
  closed : ∀ last ∈ ls.getLast?, opensBlock last = false

/-! ### Single lines -/

/-- A text that is neither blank nor a comment, nor starts with a space. -/
def startsCode : List Char → Bool
  | [] => false
  | c :: _ => c ≠ ' ' && c ≠ '#'

/-- A text that starts with a word that opens a block. -/
def Heads (text : String) : Prop :=
  ∃ word ∈ openers, ∃ c rest, isWordChar c = false ∧ text.toList = word.toList ++ c :: rest

variable {text : String} {d : Nat}

lemma startsCode_append (b : List Char) (h : startsCode a) : startsCode (a ++ b) := by
  cases a with
  | nil => cases h
  | cons c rest => exact h

lemma IsPlain.startsCode (h : IsPlain text) : startsCode text.toList := by
  rw [IsPlain] at h
  rcases chars : text.toList with _ | ⟨c, _ | ⟨d, rest⟩⟩ <;> rw [chars] at h
  · cases h
  all_goals
    simp only [plainStart, Bool.and_eq_true] at h
    simpa [Python.startsCode] using h.1

lemma Heads.startsCode (h : Heads text) : startsCode text.toList := by
  obtain ⟨word, mem, c, rest, -, chars⟩ := h
  have words : ∀ word ∈ openers, Python.startsCode word.toList := by decide
  rw [chars]
  exact startsCode_append _ (words word mem)

lemma Heads.append (h : Heads text) (more : String) : Heads (text ++ more) := by
  obtain ⟨word, mem, c, rest, other, chars⟩ := h
  exact ⟨word, mem, c, rest ++ more.toList, other, by simp [chars]⟩

lemma toList_indentation (d : Nat) : (indentation d).toList = replicate (4 * d) ' ' := by
  have step : step.toList = replicate 4 ' ' := by decide
  rw [indentation, step, String.toList_ofList, flatten_replicate_replicate,
    Nat.mul_comm]

/-- How deep a line is and what stands there. -/
lemma indented_parts (h : startsCode text.toList) : width (indentation d ++ text) = 4 * d ∧
      content (indentation d ++ text) = text.toList := by
  rw [width, content, String.toList_append, toList_indentation]
  cases chars : text.toList with
  | nil => rw [chars] at h; cases h
  | cons c rest =>
    rw [chars] at h
    have space : c ≠ ' ' := by simp_all [startsCode]
    rw [takeWhile_append_of_pos (by simp), dropWhile_append_of_pos (by simp)]
    simp [space]

lemma isCode_indented (h : startsCode text.toList) : isCode (indentation d ++ text) := by
  rw [isCode, (indented_parts h).2]
  cases chars : text.toList with
  | nil => rw [chars] at h; cases h
  | cons c rest => simp_all [startsCode]

lemma opensBlock_head (h : Heads text) : opensBlock (indentation d ++ text) := by
  have same := (indented_parts (d := d) h.startsCode).2
  obtain ⟨word, mem, c, rest, other, chars⟩ := h
  have words : ∀ word ∈ openers, word.toList.all isWordChar := by decide
  refine any_eq_true.mpr ⟨word, mem, ?_⟩
  rw [same, chars, takeWhile_append_of_pos (all_eq_true.mp (words word mem))]
  simp [other]

lemma opensBlock_plain (h : IsPlain text) : opensBlock (indentation d ++ text) = false := by
  have same := (indented_parts (d := d) h.startsCode).2
  have long : ∀ word ∈ openers, word.toList.length ≥ 2 := by decide
  refine any_eq_false.mpr fun word mem eq => ?_
  -- the first two characters of the word would be those of the text
  have lead : word.toList <+: text.toList := by
    rw [of_decide_eq_true eq, same]
    exact takeWhile_prefix _
  have two := Nat.le_trans (long word mem) lead.length_le
  rw [IsPlain] at h
  rcases chars : text.toList with _ | ⟨c, _ | ⟨d, rest⟩⟩ <;> rw [chars] at h lead two
  · exact absurd two (by simp)
  · exact absurd two (by simp)
  · simp only [plainStart, Bool.and_eq_true, all_eq_true, decide_eq_true_eq] at h
    refine h.2 word mem ?_
    have short := prefix_iff_eq_take.mp lead
    rw [short, take_take, Nat.min_eq_left (long word mem)]
    rfl

/-- A line with this text, and comments behind it or not. -/
structure LineAt (d : Nat) (opens : Bool) (line : String) : Prop where
  code : isCode line = true
  width : width line = 4 * d
  opens : opensBlock line = opens

lemma lineAt_plain (h : IsPlain text) : LineAt d false (indentation d ++ text) :=
  ⟨isCode_indented h.startsCode, (indented_parts h.startsCode).1, opensBlock_plain h⟩

lemma lineAt_head (h : Heads text) : LineAt d true (indentation d ++ text) :=
  ⟨isCode_indented h.startsCode, (indented_parts h.startsCode).1, opensBlock_head h⟩

/-! ### Blocks of lines -/

/-- Lines of code at a level, with the deeper ones under those that open a block. -/
inductive Nested : Nat → List String → Prop where
  | done {d : Nat} : Nested d []
  | line {d : Nat} {l : String} {ls : List String} (first : LineAt d false l)
      (rest : Nested d ls) : Nested d (l :: ls)
  | block {d : Nat} {l : String} {inner ls : List String} (first : LineAt d true l)
      (filled : inner ≠ []) (body : Nested (d + 1) inner) (rest : Nested d ls) :
      Nested d (l :: inner ++ ls)

namespace Nested

variable {ls ls' : List String}

lemma append (h : Nested d ls) (h' : Nested d ls') : Nested d (ls ++ ls') := by
  induction h with
  | done => exact h'
  | line first rest ih => exact .line first (ih h')
  | block first filled body rest _ ih =>
    rw [append_assoc]
    exact .block first filled body (ih h')

lemma single (h : LineAt d false l) : Nested d [l] := .line h .done

lemma deep (h : Nested d ls) : ∀ l ∈ ls, 4 ∣ width l ∧ 4 * d ≤ width l := by
  induction h with
  | done => simp
  | line first rest ih =>
    intro l mem
    rcases mem_cons.mp mem with rfl | mem
    · rw [first.width]
      exact ⟨⟨_, rfl⟩, Nat.le_refl _⟩
    · exact ih l mem
  | block first filled body rest ih ih' =>
    intro l mem
    simp only [cons_append, mem_cons, mem_append] at mem
    rcases mem with rfl | mem | mem
    · rw [first.width]
      exact ⟨⟨_, rfl⟩, Nat.le_refl _⟩
    · exact ⟨(ih l mem).1, Nat.le_trans (by omega) (ih l mem).2⟩
    · exact ih' l mem

lemma head (h : Nested d ls) : ∀ l ∈ ls.head?, width l = 4 * d := by
  cases h with
  | done => simp
  | line first rest | block first filled body rest =>
    intro l mem
    cases Option.mem_some_iff.mp mem
    exact first.width

lemma last (h : Nested d ls) : ∀ l ∈ ls.getLast?, opensBlock l = false := by
  induction h with
  | done => simp
  | @line d l ls first rest ih =>
    intro l' mem
    rw [getLast?_cons] at mem
    cases tail : ls.getLast? with
    | none =>
      rw [tail] at mem
      cases mem
      exact first.opens
    | some l'' =>
      rw [tail] at mem
      cases mem
      exact ih _ tail
  | @block d l inner ls first filled body rest ih ih' =>
    intro l' mem
    rw [getLast?_append, getLast?_cons] at mem
    cases tail : ls.getLast? with
    | some l'' =>
      rw [tail] at mem
      cases mem
      exact ih' _ tail
    | none =>
      obtain ⟨l'', inside⟩ := Option.ne_none_iff_exists'.mp
        (fun none => filled (getLast?_eq_none_iff.mp none))
      rw [tail, inside] at mem
      cases mem
      exact ih _ inside

lemma follows (h : Nested d ls) : ls.IsChain Follows := by
  induction h with
  | done => exact .nil
  | @line d l ls first rest ih =>
    refine isChain_cons.mpr ⟨fun b mem => ?_, ih⟩
    rw [Follows, first.opens, first.width, if_neg Bool.false_ne_true, rest.head b mem]
  | @block d l inner ls first filled body rest ih ih' =>
    refine isChain_append.mpr ⟨isChain_cons.mpr ⟨fun b mem => ?_, ih⟩, ih', ?_⟩
    · rw [Follows, first.opens, first.width, if_pos rfl, body.head b mem]
      omega
    · intro a last b mem
      have inside : a ∈ inner.getLast? := by
        obtain ⟨l', found⟩ := Option.ne_none_iff_exists'.mp
          (fun none => filled (getLast?_eq_none_iff.mp none))
        rw [getLast?_cons, found] at last
        rw [found]
        exact last
      rw [Follows, body.last a inside, if_neg Bool.false_ne_true, rest.head b mem]
      exact Nat.le_trans (by omega) (body.deep a (mem_of_getLast? inside)).2

end Nested

/-- Going back from the last line, every level up to its own is met at a block that
is still open. -/
lemma encloses_of_chain {before : List String} (chain : before.IsChain Follows)
    (levels : ∀ l ∈ before, 4 ∣ width l) (first : ∀ l ∈ before.head?, width l = 0) {line : String}
    (level : 4 ∣ width line) (below : ∀ last ∈ before.getLast?, width line ≤ width last)
    (some : before ≠ []) : Encloses before line := by
  induction before using reverseRecOn with
  | nil => exact absurd rfl some
  | append_singleton before last ih =>
    have bound : width line ≤ width last := below last (by simp)
    by_cases same : width last = width line
    · exact ⟨before, last, [], rfl, same, by simp⟩
    · -- the line before the last one is at least as deep
      obtain ⟨chain, -, step⟩ := isChain_append.mp chain
      have deep : 4 ∣ width last := levels last (by simp)
      have some' : before ≠ [] := by
        rintro rfl
        have := first last (by simp)
        omega
      have first' : ∀ l ∈ before.head?, width l = 0 := by
        intro l mem
        refine first l ?_
        rw [head?_append, Option.mem_def.mp mem]
        rfl
      obtain ⟨outer, start, inner, rfl, level', deeper⟩ :=
        ih chain (fun l mem => levels l (mem_append_left _ mem)) first' (fun l mem => by
          have follows := step l mem last (by simp)
          rw [Follows] at follows
          split at follows <;> omega) some'
      refine ⟨outer, start, inner ++ [last], by simp, level', fun l mem => ?_⟩
      rcases mem_append.mp mem with mem | mem
      · exact deeper l mem
      · cases mem_singleton.mp mem
        exact bound

lemma Nested.structured (h : Nested 0 ls) : Structured ls := by
  have chain := h.follows
  have first := h.head
  refine ⟨fun l mem => (h.deep l mem).1, chain, ?_, h.last⟩
  rintro before l after rfl last mem closed
  obtain ⟨chain, -, step⟩ := isChain_append.mp chain
  have some : before ≠ [] := by
    rintro rfl
    cases mem
  refine encloses_of_chain chain (fun l' mem => (h.deep l' (mem_append_left _ mem)).1) ?_
    (h.deep l (by simp)).1 (fun l' mem' => ?_) some
  · intro l' mem'
    refine (first l' ?_).trans (Nat.mul_zero 4)
    rw [head?_append, Option.mem_def.mp mem']
    rfl
  · cases Option.mem_unique mem mem'
    have follows := step last mem l (by simp)
    rwa [Follows, closed, if_neg Bool.false_ne_true] at follows

/-! ### Lines put deeper -/

lemma indentation_parts (levels : Nat) (l : String) :
    width (indentation levels ++ l) = 4 * levels + width l ∧
      content (indentation levels ++ l) = content l := by
  rw [width, content, String.toList_append, toList_indentation,
    takeWhile_append_of_pos (by simp), dropWhile_append_of_pos (by simp),
    length_append, length_replicate]
  exact ⟨rfl, rfl⟩

lemma isCode_deeper (levels : Nat) (l : String) : isCode (indentation levels ++ l) = isCode l := by
  rw [isCode, (indentation_parts levels l).2, isCode]

lemma LineAt.deeper {opens : Bool} (h : LineAt d opens l) (levels : Nat) :
    LineAt (levels + d) opens (indentation levels ++ l) := by
  refine ⟨(isCode_deeper levels l).trans h.code, ?_, ?_⟩
  · rw [(indentation_parts levels l).1, h.width]
    omega
  · rw [opensBlock, (indentation_parts levels l).2]
    exact h.opens

lemma Nested.deeper (h : Nested d ls) (levels : Nat) :
    Nested (levels + d) (Listing.deeper levels ls) := by
  rw [Listing.deeper]
  induction h with
  | done => exact .done
  | line first rest ih => exact .line (first.deeper levels) ih
  | block first filled body rest ih ih' =>
    rw [List.map_append, List.map_cons]
    exact .block (first.deeper levels) (by simpa using filled) ih ih'

/-! ### Lines with comments -/

lemma isCode_indentation (d : Nat) : isCode (indentation d) = false := by
  have blank : content (indentation d) = [] := by
    rw [content, toList_indentation]
    simp
  rw [isCode, blank]

lemma isCode_comment (h : IsComment c) (d : Nat) : isCode (indentation d ++ c) = false := by
  rw [isCode, content, String.toList_append, toList_indentation,
    dropWhile_append_of_pos (by simp)]
  rw [IsComment] at h
  cases chars : c.toList with
  | nil => rfl
  | cons first rest =>
    rw [chars] at h
    cases h
    simp

/-- The line of a statement is the only one of its lines that is code. -/
lemma Shows.filter (h : Shows d text ls) (starts : startsCode text.toList) :
    ∃ more, ls.filter isCode = [indentation d ++ (text ++ more)] := by
  obtain ⟨own, behind, comments, -, rfl⟩ := h
  refine ⟨String.join (behind.map ("  " ++ ·)), ?_⟩
  have none : (own.map (indentation d ++ ·)).filter isCode = [] := by
    refine filter_eq_nil_iff.mpr fun l mem => ?_
    obtain ⟨c, inside, rfl⟩ := mem_map.mp mem
    simp [isCode_comment (comments c inside)]
  rw [filter_append, none, nil_append, String.append_assoc, filter_cons,
    if_pos (isCode_indented ?_), filter_nil]
  rw [String.toList_append]
  exact startsCode_append _ starts

/-- The lines of code among these are nested, and there are some if there are any
lines. -/
structure Laid (d : Nat) (ls : List String) : Prop where
  nested : Nested d (ls.filter isCode)
  filled : ls ≠ [] → ls.filter isCode ≠ []

namespace Laid

variable {ls ls' : List String}

lemma nil : Laid d [] := ⟨.done, fun some => absurd rfl some⟩

lemma append (h : Laid d ls) (h' : Laid d ls') : Laid d (ls ++ ls') := by
  refine ⟨?_, fun some => ?_⟩
  · rw [filter_append]
    exact h.nested.append h'.nested
  · rw [filter_append, Ne, append_eq_nil_iff, not_and_or]
    rcases not_and_or.mp (append_eq_nil_iff.not.mp some) with some | some
    · exact .inl (h.filled some)
    · exact .inr (h'.filled some)

lemma line (shows : Shows d text ls) (plain : IsPlain text) : Laid d ls := by
  obtain ⟨more, same⟩ := shows.filter plain.startsCode
  refine ⟨?_, fun _ => by simp [same]⟩
  rw [same]
  exact .single (lineAt_plain (plain.append more))

lemma lines {texts : List String} (plain : ∀ text ∈ texts, IsPlain text) :
    Laid d (texts.map (indentation d ++ ·)) := by
  induction texts with
  | nil => exact nil
  | cons text texts ih =>
    have first : Laid d [indentation d ++ text] :=
      line (Shows.bare d 0 (by simp [indentation])) (plain text mem_cons_self)
    exact first.append (ih fun text mem => plain text (mem_cons_of_mem _ mem))

/-- A line that is no code, behind others. -/
lemma blank (h : Laid d ls) (some : ls ≠ []) (other : isCode l = false) : Laid d (ls ++ [l]) := by
  have same : (ls ++ [l]).filter isCode = ls.filter isCode := by simp [other]
  exact ⟨same ▸ h.nested, fun _ => same ▸ h.filled some⟩

/-- A line that opens a block, with its comments and the block. -/
lemma block (shows : Shows d text ls) (opens : Heads text) (body : Laid (d + 1) ls')
    (some : ls' ≠ []) : Laid d (ls ++ ls') := by
  obtain ⟨more, same⟩ := shows.filter opens.startsCode
  have whole := Nested.block (lineAt_head (opens.append more)) (body.filled some) body.nested .done
  rw [append_nil] at whole
  refine ⟨?_, fun _ => ?_⟩ <;> rw [filter_append, same]
  · exact whole
  · simp

end Laid

/-! ### Blocks -/

/-- The text of a statement on one line starts with none of the words that open a
block. -/
def Simple.Plain : Simple String → Prop
  | .plain text => IsPlain text
  | .store name _ => IsPlain name
  | .unpack first _ _ => IsPlain first
  | .setFlag name _ => IsPlain name
  | _ => True

/-- No block is empty, and no simple statement looks like the start of one. -/
def Block.Tidy : Block String → Prop
  | .done => True
  | .line s rest => s.Plain ∧ rest.Tidy
  | .when _ yes rest => (yes.isDone = false ∧ yes.Tidy) ∧ rest.Tidy
  | .choose _ yes no rest =>
    (yes.isDone = false ∧ yes.Tidy) ∧ (no.isDone = false ∧ no.Tidy) ∧ rest.Tidy
  | .loop _ body rest => (body.isDone = false ∧ body.Tidy) ∧ rest.Tidy
  | .each _ body rest => (body.isDone = false ∧ body.Tidy) ∧ rest.Tidy
  | .drive _ generator body rest => (generator.isDone = false ∧ generator.Tidy) ∧
    (body.isDone = false ∧ body.Tidy) ∧ rest.Tidy

lemma Block.Tidy.append {a b : Block String} (ha : a.Tidy) (hb : b.Tidy) : (a ++ b).Tidy := by
  induction a with
  | done => exact hb
  | line s rest ih | «when» t yes rest _ ih | loop t body rest _ ih | each h body rest _ ih =>
    exact ⟨ha.1, ih ha.2⟩
  | choose t yes no rest _ _ ih | drive n g body rest _ _ ih => exact ⟨ha.1, ha.2.1, ih ha.2.2⟩

lemma Simple.Spelled.isPlain {s : Simple String} (h : s.Spelled Eq text) (plain : s.Plain) :
    IsPlain text := by
  cases h with
  | plain text => exact plain
  | store name value => exact (IsPlain.append plain _).append _
  | unpack first second call => exact (((IsPlain.append plain _).append _).append _).append _
  | setFlag name value => exact IsPlain.append plain _
  | pass | breakLoop | continueLoop | yieldTrue => decide

lemma heads_if : Heads "if " := ⟨"if", by decide, ' ', [], by decide, by decide⟩

lemma heads_else : Heads "else:" := ⟨"else", by decide, ':', [], by decide, by decide⟩

lemma heads_while : Heads "while " := ⟨"while", by decide, ' ', [], by decide, by decide⟩

lemma heads_for : Heads "for " := ⟨"for", by decide, ' ', [], by decide, by decide⟩

lemma heads_def : Heads "def " := ⟨"def", by decide, ' ', [], by decide, by decide⟩

lemma heads_generator (n : Nat) :
    Heads s!"def _generator__{n}():" ∧ Heads s!"for _dummy__{n} in _generator__{n}():" := by
  have first : Heads "def _generator__" := heads_def.append "_generator__"
  have second : Heads "for _dummy__" := heads_for.append "_dummy__"
  exact ⟨(first.append _).append _, (((second.append _).append _).append _).append _⟩

lemma Written.laid {b : Block String} (h : Written Eq d b ls) (tidy : b.Tidy) : Laid d ls := by
  -- the lines of a block that is not empty
  have some : ∀ {d : Nat} {b : Block String} {ls : List String}, Written Eq d b ls →
      b.isDone = false → ls ≠ [] := fun h filled => by
    rw [← h.isEmpty_eq] at filled
    simpa using filled
  induction h with
  | done => exact .nil
  | line spelled shows tail ih =>
    exact (Laid.line shows (spelled.isPlain tidy.1)).append (ih tidy.2)
  | «when» spelled shows inner tail ih ih' =>
    exact (Laid.block shows ((heads_if.append _).append _) (ih tidy.1.2)
      (some inner tidy.1.1)).append (ih' tidy.2)
  | choose spelled shows inner other innerNo tail ih ih' ih'' =>
    have yes := Laid.block shows ((heads_if.append _).append _) (ih tidy.1.2) (some inner tidy.1.1)
    have no := Laid.block other heads_else (ih' tidy.2.1.2) (some innerNo tidy.2.1.1)
    have whole := (yes.append no).append (ih'' tidy.2.2)
    simpa using whole
  | loop spelled shows inner tail ih ih' =>
    exact (Laid.block shows ((heads_while.append _).append _) (ih tidy.1.2)
      (some inner tidy.1.1)).append (ih' tidy.2)
  | each shows inner tail ih ih' =>
    exact (Laid.block shows ((heads_for.append _).append _) (ih tidy.1.2)
      (some inner tidy.1.1)).append (ih' tidy.2)
  | drive shows first head inner tail ih ih' ih'' =>
    have generator := Laid.block shows (heads_generator _).1 (ih tidy.1.2) (some first tidy.1.1)
    have loop := Laid.block head (heads_generator _).2 (ih' tidy.2.1.2) (some inner tidy.2.1.1)
    have whole := (generator.append loop).append (ih'' tidy.2.2)
    simpa using whole

end AwkToPython.Python
