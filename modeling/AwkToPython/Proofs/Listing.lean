import AwkToPython.Listing
import Mathlib.Data.List.Basic

/-!
# Writing to a listing

Every way of writing adds lines at the end of the current bucket, or puts lines
between those that are there. Both are said in terms of `extend` and `splice`,
so that what a computation writes can be read off as one list of lines.
-/
namespace AwkToPython.Listing

/-- Add lines, as they are, to the current bucket. -/
def extend (l : Listing) (ls : List String) : Listing := l.setLines (l.lines ++ ls.toArray)

/-- What is set in the current bucket, whichever it is. -/
lemma setLines_spec (l : Listing) (a b : Array String) :
    (l.setLines a).lines = a ∧ l.setLines l.lines = l ∧ (l.setLines a).setLines b = l.setLines b ∧
      (l.setLines a).toPosition = l.toPosition ∧
      ∀ depth, { l with depth }.setLines a = { l.setLines a with depth } := by
  rcases l with ⟨⟨bucket, depth⟩, _, _, _, _, _, _, _⟩
  cases bucket with
  | part p => cases p <;> exact ⟨rfl, rfl, rfl, rfl, fun _ => rfl⟩
  | functions => exact ⟨rfl, rfl, rfl, rfl, fun _ => rfl⟩

@[simp] lemma lines_setLines (l : Listing) (a : Array String) : (l.setLines a).lines = a :=
  (l.setLines_spec a a).1

@[simp] lemma setLines_lines (l : Listing) : l.setLines l.lines = l := (l.setLines_spec #[] #[]).2.1

@[simp] lemma setLines_setLines (l : Listing) (a b : Array String) :
    (l.setLines a).setLines b = l.setLines b := (l.setLines_spec a b).2.2.1

@[simp] lemma setLines_toPosition (l : Listing) (a : Array String) :
    (l.setLines a).toPosition = l.toPosition := (l.setLines_spec a a).2.2.2.1

@[simp] lemma extend_toPosition (l : Listing) (ls : List String) :
    (l.extend ls).toPosition = l.toPosition := setLines_toPosition _ _

@[simp] lemma lines_extend (l : Listing) (ls : List String) :
    (l.extend ls).lines = l.lines ++ ls.toArray := lines_setLines _ _

@[simp] lemma extend_nil (l : Listing) : l.extend [] = l := by simp [extend]

@[simp] lemma extend_extend (l : Listing) (ls ls' : List String) :
    (l.extend ls).extend ls' = l.extend (ls ++ ls') := by
  simp [extend, Array.append_assoc]

lemma line_eq_extend (l : Listing) (text : String) :
    l.line text = l.extend [indentation l.depth ++ text] := by
  simp [line, extend]

lemma appendLines_eq_extend (l : Listing) (ls : List String) (levels : Nat) :
    l.appendLines ls levels = l.extend (deeper levels ls) := rfl

lemma append_extend (l : Listing) (ls : List String) (last text : String) :
    (l.extend (ls ++ [last])).append text = l.extend (ls ++ [last ++ text]) := by
  have split : (l.extend (ls ++ [last])).lines = (l.lines ++ ls.toArray).push last := by
    rw [lines_extend, ← List.append_toArray]
    simp
  simp only [append, split, Array.back?_push, Array.pop_push]
  simp [extend]

lemma append_toPosition (l : Listing) (text : String) :
    (l.append text).toPosition = l.toPosition := by
  rw [append]
  split
  · exact setLines_toPosition _ _
  · rfl

lemma visit_of_le {l : Listing} {mark : Nat} (h : mark ≤ l.lines.size) : l.visit mark = l :=
  if_pos h

@[simp] lemma visit_toPosition (l : Listing) (mark : Nat) :
    (l.visit mark).toPosition = l.toPosition := by
  rw [visit]
  split <;> rfl

lemma splice_toPosition (l : Listing) (mark : Nat) (ls : List String) :
    (l.splice mark ls).toPosition = l.toPosition :=
  (setLines_toPosition _ _).trans (visit_toPosition l mark)

lemma takeSince_toPosition (l : Listing) (mark : Nat) :
    (l.takeSince mark).2.toPosition = l.toPosition :=
  (setLines_toPosition _ _).trans (visit_toPosition l mark)

/-- What was written since a mark can be taken out again, and nothing else. -/
lemma takeSince_extend (l : Listing) (ls : List String) :
    (l.extend ls).takeSince l.mark = (ls, l) := by
  have inside : l.mark ≤ (l.extend ls).lines.size := by simp [mark]
  rw [takeSince, visit_of_le inside]
  simp [extend, mark]

/-- A statement since a mark is one of the lines written since. -/
lemma ne_nil_of_statementsSince {l : Listing} {ls : List String}
    (h : (l.extend ls).statementsSince l.mark ≠ 0) : ls ≠ [] := by
  rintro rfl
  exact h (by simp [statementsSince, mark])

/-- Lines put at a mark stand between those before it and those behind it. -/
lemma splice_extend (l : Listing) (a b xs : List String) :
    (l.extend (a ++ b)).splice (l.mark + a.length) xs = l.extend (a ++ xs ++ b) := by
  have parts : (l.lines ++ (a ++ b).toArray).take (l.mark + a.length) = l.lines ++ a.toArray ∧
      (l.lines ++ (a ++ b).toArray).drop (l.mark + a.length) = b.toArray := by
    constructor
    · apply Array.ext'
      simp [mark, List.take_of_length_le]
    · apply Array.ext'
      simp [mark]
  have inside : l.mark + a.length ≤ (l.extend (a ++ b)).lines.size := by
    simp [mark]
  rw [splice, visit_of_le inside, lines_extend, parts.1, parts.2, extend, setLines_setLines, extend]
  congr 1
  simp [Array.append_assoc, ← List.append_toArray]

lemma insert_extend (l : Listing) (a b : List String) (text : String) :
    (l.extend (a ++ b)).insert (l.mark + a.length) text =
      l.extend (a ++ [indentation l.depth ++ text] ++ b) := by
  rw [insert, splice_extend, extend_toPosition]

lemma insertLines_extend (l : Listing) (a b lines : List String) (levels : Nat) :
    (l.extend (a ++ b)).insertLines (l.mark + a.length) lines levels =
      l.extend (a ++ deeper levels lines ++ b) := by
  rw [insertLines, splice_extend]

lemma replace_extend (l : Listing) (a b : List String) (x old new : String) :
    (l.extend (a ++ [x] ++ b)).replace (l.mark + a.length) old new =
      l.extend (a ++ [Text.replaceFirst old new x] ++ b) := by
  have here : (l.extend (a ++ [x] ++ b)).lines[l.mark + a.length]? = some x := by
    simp [mark]
  have lines : (l.lines ++ (a ++ [x] ++ b).toArray).setIfInBounds (l.mark + a.length)
      (Text.replaceFirst old new x) =
        l.lines ++ (a ++ [Text.replaceFirst old new x] ++ b).toArray := by
    apply Array.ext'
    simp [mark]
  rw [replace, here]
  simp only [lines_extend, lines]
  rw [extend, extend, setLines_setLines]

/-- The same lines, with the next ones some levels deeper. -/
def inward (l : Listing) (levels : Nat) : Listing := { l with depth := l.depth + levels }

@[simp] lemma inward_zero (l : Listing) : l.inward 0 = l := rfl

@[simp] lemma inward_indent (l : Listing) (levels : Nat) :
    (l.inward levels).indent = l.inward (levels + 1) := rfl

@[simp] lemma inward_dedent (l : Listing) (levels : Nat) :
    (l.inward (levels + 1)).dedent = l.inward levels := rfl

@[simp] lemma inward_depth (l : Listing) (levels : Nat) :
    (l.inward levels).depth = l.depth + levels := rfl

lemma inward_setLines (l : Listing) (levels : Nat) (a : Array String) :
    (l.inward levels).setLines a = (l.setLines a).inward levels := by
  have same := congrArg Position.depth (setLines_toPosition l a)
  rw [inward, (l.setLines_spec a a).2.2.2.2, inward, same]

@[simp] lemma inward_extend (l : Listing) (levels : Nat) (ls : List String) :
    (l.inward levels).extend ls = (l.extend ls).inward levels := inward_setLines _ _ _

lemma indent_extend (l : Listing) (ls : List String) :
    l.indent.extend ls = (l.extend ls).indent := inward_extend l 1 ls

@[simp] lemma dedent_indent (l : Listing) : l.indent.dedent = l := rfl

@[simp] lemma indent_depth (l : Listing) : l.indent.depth = l.depth + 1 := rfl

@[simp] lemma indent_lines (l : Listing) : l.indent.lines = l.lines := rfl

@[simp] lemma indent_mark (l : Listing) : l.indent.mark = l.mark := rfl

lemma mark_extend (l : Listing) (ls : List String) : (l.extend ls).mark = l.mark + ls.length := by
  simp [mark]

lemma indentation_add (m n : Nat) : indentation (m + n) = indentation m ++ indentation n := by
  simp [indentation, ← List.replicate_append_replicate]

/-! ### Moving lines deeper

A line gets its indentation when it is written. Lines that were written since a mark
can be taken out and put back some levels deeper: all buckets are then as if the same
had been written at that depth from the start. -/

inductive Edit where
  | line (text : String)
  | append (text : String)
  | indent
  | dedent
deriving DecidableEq, Repr

def edit (l : Listing) : Edit → Listing
  | .line text => l.line text
  | .append text => l.append text
  | .indent => l.indent
  | .dedent => l.dedent

def edited (l : Listing) (edits : List Edit) : Listing := edits.foldl edit l

/-- Edits that begin some levels in and never go back behind level zero. -/
def staysWithin : Nat → List Edit → Bool
  | _, [] => true
  | level, .indent :: rest => staysWithin (level + 1) rest
  | 0, .dedent :: _ => false
  | level + 1, .dedent :: rest => staysWithin level rest
  | level, _ :: rest => staysWithin level rest

variable {level levels : Nat} {edits : List Edit}

lemma mark_append (l : Listing) (text : String) : (l.append text).mark = l.mark := by
  rw [append]
  split
  case h_1 last found =>
    have some_ : 0 < l.lines.size := by
      obtain ⟨inside, -⟩ := Array.getElem?_eq_some_iff.mp (Array.back?_eq_getElem? ▸ found)
      omega
    simp only [mark, lines_setLines, Array.size_push, Array.size_pop]
    omega
  case h_2 => rfl

lemma inward_append (l : Listing) (levels : Nat) (text : String) :
    (l.inward levels).append text = (l.append text).inward levels := by
  have same : (l.inward levels).lines = l.lines := rfl
  rw [append, append, same]
  split
  · exact inward_setLines _ _ _
  · rfl

lemma deeper_concat (ls : List String) (last : String) :
    deeper levels (ls ++ [last]) = deeper levels ls ++ [indentation levels ++ last] := by
  simp [deeper]

lemma line_deeper (l : Listing) (ls : List String) (level levels : Nat) (text : String) :
    ((l.extend ls).inward level).line text =
        (l.extend (ls ++ [indentation (l.depth + level) ++ text])).inward level ∧
      ((l.extend (deeper levels ls)).inward (level + levels)).line text =
        (l.extend (deeper levels (ls ++ [indentation (l.depth + level) ++ text]))).inward
          (level + levels) := by
  have depth : ∀ ls, (l.extend ls).depth = l.depth := fun ls =>
    congrArg Position.depth (extend_toPosition l ls)
  have sum : l.depth + (level + levels) = levels + (l.depth + level) := by omega
  constructor
  · rw [line_eq_extend, inward_depth, depth, inward_extend, extend_extend]
  · rw [line_eq_extend, inward_depth, depth, inward_extend, extend_extend, sum, indentation_add,
      deeper_concat, String.append_assoc]

/-- What edits write is the same at any depth, up to the indentation. Only text behind the
last line may go to a line that was there before. -/
lemma edited_deeper (l : Listing) (ls : List String) (levels : Nat)
    (within : staysWithin level edits) :
    ∃ (l' : Listing) (ls' : List String) (level' : Nat),
      l'.mark = l.mark ∧ l'.toPosition = l.toPosition ∧
      level' + edits.count .dedent = level + edits.count .indent ∧
      ((l.extend ls).inward level).edited edits = (l'.extend ls').inward level' ∧
      ((l.extend (deeper levels ls)).inward (level + levels)).edited edits =
        (l'.extend (deeper levels ls')).inward (level' + levels) := by
  induction edits generalizing l ls level with
  | nil => exact ⟨l, ls, level, rfl, rfl, rfl, rfl, rfl⟩
  | cons first rest ih =>
    simp only [edited, List.foldl_cons] at ih ⊢
    cases first with
    | line text =>
      have written := line_deeper l ls level levels text
      simp only [edit, written.1, written.2]
      simpa using ih l _ within
    | append text =>
      simp only [edit, inward_append]
      rcases ls.eq_nil_or_concat' with rfl | ⟨front, last, rfl⟩
      · obtain ⟨l', ls', level', mark, position, rest⟩ := ih (l.append text) [] within
        refine ⟨l', ls', level', mark.trans (mark_append l text),
          position.trans (append_toPosition l text), ?_⟩
        simpa [deeper] using rest
      · simpa [append_extend, deeper_concat, String.append_assoc] using
          ih l (front ++ [last ++ text]) within
    | indent =>
      have next : level + levels + 1 = level + 1 + levels := by omega
      simp only [edit, inward_indent, next]
      obtain ⟨l', ls', level', mark, position, levels', rest⟩ := ih l ls within
      exact ⟨l', ls', level', mark, position, by simp; omega, rest⟩
    | dedent =>
      cases level with
      | zero => cases within
      | succ level =>
        have next : level + 1 + levels = level + levels + 1 := by omega
        simp only [edit, next, inward_dedent]
        obtain ⟨l', ls', level', mark, position, levels', rest⟩ := ih l ls within
        exact ⟨l', ls', level', mark, position, by simp; omega, rest⟩

/-- Whatever is written after a mark without going back behind the depth of the start: to take
it out and to put it back deeper, at the end or at the mark, is to write it deeper. The bucket
and the depth that the edits lead to stay. -/
theorem relocating_is_writing_deeper (l : Listing) (depth levels : Nat) (edits : List Edit)
    (within : staysWithin 0 edits) :
    let start : Listing := { l with depth }
    let written := start.edited edits
    let taken := written.takeSince start.mark
    let moved := taken.2.appendLines taken.1 levels
    let direct := edited { l with depth := depth + levels } edits
    taken.2.insertLines start.mark taken.1 levels = moved ∧
      (∀ bucket, moved.linesOf bucket = direct.linesOf bucket) ∧
      moved.bucket = l.bucket ∧ direct.bucket = l.bucket ∧
      moved.depth = written.depth ∧ direct.depth = moved.depth + levels ∧
      moved.depth + edits.count .dedent = depth + edits.count .indent ∧
      direct = moved.inward levels := by
  intro start written taken moved direct
  obtain ⟨l', ls, level, mark, position, levels', run, run'⟩ :=
    edited_deeper start [] levels within
  have written_eq : written = (l'.inward level).extend ls := by
    rw [inward_extend, ← run]
    simp [written]
  have direct_eq : direct = ((l'.inward level).extend (deeper levels ls)).inward levels := by
    have begin_ : (start.extend (deeper levels [])).inward (0 + levels) =
        { l with depth := depth + levels } := by
      simp [deeper, inward, start]
    rw [begin_] at run'
    rw [inward_extend]
    exact run'.trans (by simp [inward, Nat.add_assoc])
  have taken_eq : taken = (ls, l'.inward level) := by
    have here : start.mark = (l'.inward level).mark := mark.symm
    change written.takeSince start.mark = _
    rw [written_eq, here, takeSince_extend]
  have moved_eq : moved = (l'.inward level).extend (deeper levels ls) := by
    change taken.2.appendLines taken.1 levels = _
    rw [taken_eq, appendLines_eq_extend]
  have place : moved.toPosition = { l'.toPosition with depth := l'.depth + level } := by
    rw [moved_eq, extend_toPosition]
    rfl
  have bucket : moved.bucket = l.bucket := by
    have same : l'.bucket = start.bucket := congrArg Position.bucket position
    exact (congrArg Position.bucket place).trans same
  have direct_moved : direct = moved.inward levels := by rw [direct_eq, moved_eq]
  refine ⟨?_, fun bucket => ?_, ?_, ?_, ?_, ?_, ?_, direct_moved⟩
  · have here : start.mark = (l'.inward level).mark := mark.symm
    rw [moved_eq, taken_eq, here]
    simpa using insertLines_extend (l'.inward level) [] [] ls levels
  · rw [direct_moved]
    cases bucket with
    | part p => cases p <;> rfl
    | functions => rfl
  · exact bucket
  · rw [direct_moved]
    exact bucket
  · rw [written_eq, moved_eq, extend_toPosition, extend_toPosition]
  · rw [direct_moved]
    rfl
  · have deep : moved.depth = l'.depth + level := congrArg Position.depth place
    have same : l'.depth = depth := congrArg Position.depth position
    omega

/-- A comment behind a line that was there, a block, and a comment inside the block. -/
theorem relocating_is_writing_deeper_block :
    let l : Listing := { record := #["a()"] }
    let edits : List Edit := [.append "  # a", .line "if x:", .indent, .line "b()",
      .append "  # b", .dedent]
    staysWithin 0 edits ∧
      (edited { l with depth := 1 + 2 } edits).record =
        #["a()  # a", "            if x:", "                b()  # b"] ∧
      let taken := (edited { l with depth := 1 } edits).takeSince 1
      (taken.2.appendLines taken.1 2).record = (edited { l with depth := 1 + 2 } edits).record := by
  intro l edits
  have within : staysWithin 0 edits := by decide
  exact ⟨within, by decide, (relocating_is_writing_deeper l 1 2 edits within).2.1 (.part .record)⟩

end AwkToPython.Listing
