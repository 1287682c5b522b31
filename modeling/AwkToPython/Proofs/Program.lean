import AwkToPython.Program
import AwkToPython.Proofs.Item.Layout
import AwkToPython.Proofs.Usage.Loading

/-!
# The layout of a whole program

The buckets of a session are put under the methods of a class. Since each is laid
out, so is the program, whatever calls it was made by.
-/
namespace AwkToPython

variable {ls : List String}

open List Listing Python Compile

open Python (IsPlain Laid Nested Heads LineAt isCode)

namespace Program

variable {d : Nat} {text : String} {table : Table}

/-! ### Lines of the frame -/

lemma atDepth_eq (h : startsCode text.toList = true) (depth : Nat) :
    atDepth depth text = indentation depth ++ text := by
  rw [atDepth, if_neg]
  rintro rfl
  cases h

lemma lineAt_atDepth (plain : IsPlain text) : LineAt d false (atDepth d text) := by
  rw [atDepth_eq plain.startsCode]
  exact lineAt_plain plain

lemma headAt_atDepth (heads : Heads text) : LineAt d true (atDepth d text) := by
  rw [atDepth_eq heads.startsCode]
  exact lineAt_head heads

/-- Lines of code stay lines of code at another depth. -/
lemma filter_atDepth (levels : Nat) (ls : List String) :
    (ls.map (atDepth levels)).filter isCode = deeper levels (ls.filter isCode) := by
  have same : ∀ l, isCode (atDepth levels l) = isCode l := by
    intro l
    rw [atDepth]
    split
    case isTrue empty => rw [empty]
    case isFalse => exact isCode_deeper levels l
  induction ls with
  | nil => rfl
  | cons l ls ih =>
    rw [map_cons, filter_cons, filter_cons, same]
    split
    case isTrue code =>
      have some : l ≠ "" := by
        rintro rfl
        cases code
      rw [ih, deeper, deeper, map_cons, atDepth, if_neg some]
    case isFalse => exact ih

/-- Lines of a bucket under a line of the frame. -/
lemma nested_atDepth (h : Laid 0 ls) (levels : Nat) :
    Nested levels ((ls.map (atDepth levels)).filter isCode) := by
  rw [filter_atDepth]
  exact h.nested.deeper levels

lemma nested_lines {texts : List String} (plain : ∀ text ∈ texts, IsPlain text) (levels : Nat) :
    Nested levels ((texts.map (atDepth levels)).filter isCode) := by
  refine nested_atDepth ?_ levels
  have laid : Laid 0 (texts.map (indentation 0 ++ ·)) := .lines plain
  simpa [indentation] using laid

lemma filter_ne_nil {opens : Bool} (first : LineAt d opens l) : (l :: ls).filter isCode ≠ [] := by
  rw [filter_cons, if_pos first.code]
  simp

/-- A line of the frame with what stands under it. -/
lemma nested_under (heads : Heads text) (some : ls.filter isCode ≠ [])
    (inner : Nested (d + 1) (ls.filter isCode)) :
    Nested d ((atDepth d text :: ls).filter isCode) := by
  have head : LineAt d true (atDepth d text) := headAt_atDepth heads
  rw [filter_cons, if_pos head.code]
  simpa using Nested.block head some inner .done

/-! ### Parts of a program -/

lemma filter_titleLines (headers : List Header) : (titleLines headers).filter isCode = [] := by
  have comment : ∀ l : String, IsComment l → isCode l = false := fun l h => by
    have shown := isCode_comment h 0
    simpa [indentation] using shown
  refine filter_eq_nil_iff.mpr fun l mem => ?_
  rw [comment l, Bool.false_eq_true]
  · exact not_false
  rcases mem_append.mp mem with mem | mem
  · simp only [mem_cons, not_mem_nil, or_false] at mem
    rcases mem with rfl | rfl <;> simp [IsComment, toString]
  · obtain ⟨header, -, rfl⟩ := mem_map.mp mem
    cases header <;> simp [Header.text, IsComment]

lemma nested_importLines (imports : List String) :
    Nested 0 ((importLines imports).filter isCode) := by
  have laid : Laid 0 ((importLines imports).map (indentation 0 ++ ·)) := by
    refine .lines fun text mem => ?_
    simp only [importLines, mem_append, mem_cons, mem_map, not_mem_nil,
      or_false] at mem
    rcases mem with ((rfl | rfl) | ⟨name, -, rfl⟩) | rfl | rfl
    · decide
    · decide
    · exact IsPlain.append (by decide) name
    · decide
    · exact IsPlain.append (IsPlain.append (IsPlain.append (by decide : IsPlain "from ") _) _) _
  simpa [indentation] using laid.nested

/-- The initial value of a symbol is given on a line of its own. -/
lemma isPlain_initialiser (proper : table.Proper) {line : String}
    (mem : s ∈ table.entries.toList) (found : initialiser? s = some line) : IsPlain line := by
  obtain ⟨id, bound, rfl⟩ := mem_iff_getElem.mp mem
  have entry : table.symbol id = table.entries.toList[id] := by
    simp [Table.symbol, Array.getD_eq_getD_getElem?] at bound ⊢
    simp [bound]
  rw [← entry] at found
  have begins : (table.symbol id).kind.beginsText = true := by
    cases kind : (table.symbol id).kind <;> simp_all [initialiser?, SymbolKind.beginsText]
  simp only [initialiser?, Option.ite_none_right_eq_some, Option.some.injEq] at found
  rw [← found.2]
  exact IsPlain.append (IsPlain.append ((proper.regular id).plain begins) _) _

lemma nested_constructorLines (hasMainLoop : Bool) (proper : table.Proper) :
    Nested 1 ((constructorLines hasMainLoop table).filter isCode) := by
  let texts := ["super().__init__()"] ++
    (if hasMainLoop then ["self._has_mainloop = True"] else []) ++
    table.entries.toList.filterMap initialiser?
  have lines : constructorLines hasMainLoop table =
      atDepth 1 "def __init__(self):" :: texts.map (atDepth 2) := by
    cases hasMainLoop <;> simp [constructorLines, texts]
  have plain : ∀ text ∈ texts, IsPlain text := by
    intro text mem
    simp only [texts, mem_append, mem_singleton, mem_filterMap] at mem
    rcases mem with (rfl | mem) | ⟨s, mem, found⟩
    · decide
    · split at mem
      · cases mem_singleton.mp mem
        decide
      · cases mem
    · exact isPlain_initialiser proper mem found
  rw [lines]
  exact nested_under (heads_def.append "__init__(self):")
    (filter_ne_nil (lineAt_atDepth (by decide : IsPlain "super().__init__()")))
    (nested_lines plain 2)

/-- The lines of a bucket that is not empty, at the depth of a method. -/
lemma nested_bodyLines (part : Section) {body : List String} (laid : Laid 0 body)
    (some : body ≠ []) : Nested 2 ((bodyLines part body).filter isCode) ∧
      (bodyLines part body).filter isCode ≠ [] := by
  have filled : ∀ levels, (body.map (atDepth levels)).filter isCode ≠ [] := fun levels => by
    rw [filter_atDepth, deeper, Ne, map_eq_nil_iff]
    exact laid.filled some
  rw [bodyLines]
  split
  · have heads : Heads "try:" := ⟨"try", by decide, ':', [], by decide, by decide⟩
    have tried : Nested 2 ((atDepth 2 "try:" :: body.map (atDepth 3)).filter isCode) :=
      nested_under heads (filled 3) (nested_atDepth laid 3)
    have caught : Nested 2 ([atDepth 2 "except AwkNext:", atDepth 3 "pass"].filter isCode) :=
      nested_under ⟨"except", by decide, ' ', "AwkNext:".toList, by decide, by decide⟩
        (filter_ne_nil (lineAt_atDepth (by decide : IsPlain "pass")))
        (nested_lines (by decide : ∀ text ∈ ["pass"], IsPlain text) 3)
    have whole := tried.append caught
    rw [← filter_append] at whole
    exact ⟨by simpa using whole, filter_ne_nil (headAt_atDepth heads)⟩
  · exact ⟨nested_atDepth laid 2, filled 2⟩

lemma nested_sectionLines (arranged : Item.Arranged listing)
    (part : Section) : Nested 1 ((sectionLines listing part).filter isCode) := by
  rw [sectionLines]
  split
  · exact .done
  case isFalse some =>
    obtain ⟨body, filled⟩ := nested_bodyLines part (arranged (.part part))
      (by simpa using some)
    exact nested_under ((heads_def.append _).append _) filled body

lemma nested_closingLines : Nested 0 (closingLines.filter isCode) := by
  have laid : Laid 0 ((["runtime = AwkPyTranslated()",
      "sys.exit(runtime._run(sys.argv))"]).map (indentation 0 ++ ·)) :=
    .lines (by decide)
  have same : closingLines.filter isCode = ["runtime = AwkPyTranslated()",
      "sys.exit(runtime._run(sys.argv))"].filter isCode := rfl
  rw [same]
  simpa [indentation] using laid.nested

lemma nested_program (arranged : Item.Arranged s.listing)
    (proper : s.table.Proper) : Nested 0 ((lines s).filter isCode) := by
  let members := s.listing.functions.toList.map (atDepth 1) ++
    constructorLines s.hasMainLoop s.table ++ Section.all.flatMap (sectionLines s.listing)
  have inner : Nested 1 (members.filter isCode) := by
    rw [filter_append, filter_append]
    refine ((nested_atDepth (arranged .functions) 1).append
      (nested_constructorLines s.hasMainLoop proper)).append ?_
    generalize Section.all = parts
    induction parts with
    | nil => exact .done
    | cons part parts ih =>
      rw [flatMap_cons, filter_append]
      exact (nested_sectionLines arranged part).append ih
  have some : members.filter isCode ≠ [] := by
    simp only [members, filter_append, Ne, append_eq_nil_iff, not_and_or]
    exact .inl (.inr (filter_ne_nil (headAt_atDepth (heads_def.append "__init__(self):"))))
  have heads : Heads s!"class {className}(AwkpyRuntimeWrapper):" :=
    ⟨"class", by decide, ' ', "AwkPyTranslated(AwkpyRuntimeWrapper):".toList, by decide, by decide⟩
  have body : Nested 0 ((s!"class {className}(AwkpyRuntimeWrapper):" :: members).filter isCode) :=
    nested_under heads some inner
  have whole := ((nested_importLines s.imports).append body).append nested_closingLines
  have parts : (lines s).filter isCode = (importLines s.imports).filter isCode ++
      (s!"class {className}(AwkpyRuntimeWrapper):" :: members).filter isCode ++
      closingLines.filter isCode := by
    have blank : isCode "" = false := rfl
    have code : isCode s!"class {className}(AwkpyRuntimeWrapper):" = true :=
      (headAt_atDepth (d := 0) heads).code
    simp [lines, filter_append, filter_titleLines, blank, code, members]
  rwa [parts]

end Program

/-! ### Calls -/

namespace Compile

variable {s s' : Session}

/-- Reading adds words, and it writes no line and notes no call, also where it fails. -/
structure Loads (s s' : Session) : Prop where
  table : s.table.Good → s.table.Grows s'.table
  listing : s'.listing = s.listing
  calls : s'.calls = s.calls

lemma Loads.refl (s : Session) : Loads s s := ⟨fun _ => .refl _, rfl, rfl⟩

lemma loads_reading (text : String) (s : Session) : Loads s (after (reading text s)) := by
  have grows (good : s.table.Good) := (Vocabulary.tokens_sound good s.options.library text).2.1
  rw [reading_run]
  cases read : (s.toVocabulary.tokens s.options.library text).1 with
  | error e => exact ⟨grows, rfl, rfl⟩
  | ok tokens => cases debug : s.options.debug <;> exact ⟨grows, rfl, rfl⟩

lemma loads_fileReading (path : String) (header : Header) (s : Session) :
    Loads s (after (fileReading path header s)) := by
  rw [fileReading_run]
  cases read : s.options.library.tree.read path with
  | error fault => exact .refl s
  | ok text =>
    obtain ⟨table, listing, calls⟩ := loads_reading text { s with headers := s.headers ++ [header] }
    exact ⟨table, listing, calls⟩

lemma loads_load (source : Source) (s : Session) : Loads s (after (load source s)) := by
  have filed : ∀ files path header, Loads s (after ((do
      fileReading path header
      return true : Compile Bool) { s with files })) := by
    intro files path header
    rw [after_found]
    obtain ⟨table, listing, calls⟩ := loads_fileReading path header { s with files }
    exact ⟨table, listing, calls⟩
  cases source with
  | program text =>
    let headed : Session := { s with headers := s.headers ++ [.ofProgram text] }
    have step : load (.program text) s = (do reading text; return true : Compile Bool) headed := rfl
    obtain ⟨table, listing, calls⟩ := loads_reading text headed
    rw [step, after_found]
    exact ⟨table, listing, calls⟩
  | file name =>
    rw [load_file]
    split
    · exact .refl s
    · exact filed _ _ _
  | included name =>
    rw [load_included]
    split
    · exact .refl s
    · exact .refl s
    · exact filed _ _ _

lemma preset_listing (run : preset assignment s = .ok () s') : s'.listing = s.listing := by
  rcases preset_shape assignment s with
    ⟨e, ran⟩ | ⟨name, value, space, bare, id, -, -, -, -, ⟨-, e, ran⟩ | ⟨symbol, -, ran⟩⟩ <;>
    cases ran.symm.trans run
  rfl

end Compile

namespace Call

open Item (Arranged)

variable {s s' : Session}

lemma arranged_initial : Arranged {} := by
  intro bucket
  have none : (({} : Listing).linesOf bucket).toList = [] := by
    cases bucket with
    | part p => cases p <;> rfl
    | functions => rfl
  rw [none]
  exact .nil

lemma arranged_run {call : Call} (good : s.table.Good) (arranged : Arranged s.listing)
    (run : call.run s = .ok () s') : Arranged s'.listing := by
  cases call with
  | preset assignment => exact preset_listing run ▸ arranged
  | source input =>
    rw [Call.run] at run
    rcases addSource_cases input good with
      ⟨s1, load, -, sound, step⟩ | ⟨-, step⟩ | ⟨e, s1, -, step, -⟩
    · have read := (loads_load input s).listing
      rw [load] at read
      rw [step] at run
      exact Item.items_arranged sound (read ▸ arranged) run
    · cases step.symm.trans run
      exact arranged
    · cases step.symm.trans run

/-- After calls that all succeed the lines of all buckets are laid out. -/
lemma arranged_last {calls : List Call} (good : s.table.Good) (arranged : Arranged s.listing)
    (compiled : ∀ step ∈ trace s calls, succeeds (step.2.run step.1) = true) :
    Arranged (last s calls).listing := by
  induction calls generalizing s with
  | nil => exact arranged
  | cons call calls ih =>
    have run := ok_after (compiled (s, call) mem_cons_self)
    exact ih ((returns_run call good).table.good good) (arranged_run good arranged run)
      fun step mem => compiled step (mem_cons_of_mem _ mem)

/-- Whatever presets and sources a program is made from, if all of them are compiled
then its lines are structured as Python wants them. -/
theorem program_is_structured {options : Options} {calls : List Call} {text : String}
    (compiled : ∀ step ∈ trace { options } calls, Compile.succeeds (step.2.run step.1) = true)
    (finished : (last { options } calls).finish = .ok text) :
    text = Text.join "\n" (Program.lines (last { options } calls)) ++ "\n" ∧
      Python.Structured ((Program.lines (last { options } calls)).filter Python.isCode) := by
  have arranged : Arranged (last { options } calls).listing :=
    arranged_last Table.initial_good arranged_initial compiled
  have proper := (good_last options calls).proper
  refine ⟨?_, (Program.nested_program arranged proper).structured⟩
  rw [Session.finish] at finished
  split at finished
  · cases finished
  · cases finished
    rfl

/-- A preset and a source with a function, a range, a comment and a loop. -/
def assorted : List Call :=
  [.preset "n=3", .source (.program
    "function f(a) \x7b # count\n\x7d\n1, n \x7b do a[1]; while (sub(n, 1)) \x7d")]

theorem program_is_structured_assorted :
    (∀ step ∈ trace {} assorted, Compile.succeeds (step.2.run step.1) = true) ∧
    ∃ text, (last {} assorted).finish = .ok text ∧
      text = Text.join "\n" (Program.lines (last {} assorted)) ++ "\n" ∧
      Python.Structured ((Program.lines (last {} assorted)).filter Python.isCode) := by
  have checked : (∀ step ∈ trace {} assorted, Compile.succeeds (step.2.run step.1) = true) ∧
      (last {} assorted).missingFunction? = none := by decide +kernel
  have finished : (last {} assorted).finish = .ok (Program.text (last {} assorted)) := by
    rw [Session.finish, checked.2]
  exact ⟨checked.1, _, finished, program_is_structured checked.1 finished⟩

end Call

end AwkToPython
