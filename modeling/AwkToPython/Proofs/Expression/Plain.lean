import AwkToPython.Proofs.Expression.Phrase

/-!
# The texts of expressions open no block

The text of every fragment begins like a statement of its own, so that a line made
of it neither opens a block nor is a comment.
-/
namespace AwkToPython

variable {s s' : Session} {index : String} {f : Fragment}

open Compile AwkToPython.Symbol Text Format
open Python (IsPlain plainStart)

/-- The text of a fragment begins plainly, and so does what it can be assigned to. -/
structure Fragment.Plain (t : Table) (f : Fragment) : Prop where
  text : IsPlain f.text
  var : ∀ id, f.target = some (.var id) → id < t.size ∧ IsPlain (t.symbol id).python
  base : ∀ base index, f.target = some (.element base index) → IsPlain base

namespace Fragment

variable {t t' : Table} {f : Fragment}

lemma Plain.grows (h : f.Plain t) (g : t.Grows t') : f.Plain t' := by
  refine ⟨h.text, fun id changes => ?_, h.base⟩
  obtain ⟨bound, plain⟩ := h.var id changes
  exact ⟨Nat.lt_of_lt_of_le bound g.size, by rwa [python_of_word (g.word id bound)]⟩

lemma plain_of_text (text : IsPlain f.text) (fixed : f.target = none) : f.Plain t :=
  ⟨text, by simp [fixed], by simp [fixed]⟩

lemma plain_one (text : IsPlain f.text) (fixed : f.target = none) :
    ∀ g ∈ [f], g.Plain t := fun _ mem => List.mem_singleton.mp mem ▸ plain_of_text text fixed

lemma plain_of_field (text : IsPlain f.text)
    (field : f.target = some (.field index)) : f.Plain t :=
  ⟨text, by simp [field], by simp [field]⟩

lemma isPlain_parenthesised (text : String) : IsPlain (parenthesised text) :=
  (IsPlain.append (by decide) text).append ")"

lemma isPlain_wrapped (h : IsPlain f.text) (level : Nat) : IsPlain (f.wrapped level) := by
  rw [wrapped]
  split
  · split
    · exact isPlain_parenthesised _
    · exact h
  · exact h

lemma isPlain_stringified (h : IsPlain f.text) : IsPlain f.stringified := by
  rw [stringified]
  split
  · exact h
  · exact (IsPlain.append (by decide) _).append ")"

lemma Plain.grouped (h : f.Plain t) : f.grouped.Plain t := by
  refine plain_of_text ?_ rfl
  rw [Fragment.grouped]
  dsimp only
  split
  · exact isPlain_parenthesised _
  · exact h.text

end Fragment

namespace Expression

open Fragment (plain_of_text plain_one plain_of_field isPlain_wrapped isPlain_stringified
  isPlain_parenthesised)

/-- What stands before a cut, with the mark, begins like the whole text. -/
lemma cutChars_spec {mark before behind : List Char}
    (h : cutChars mark cs = some (before, behind)) : cs = before ++ mark ++ behind := by
  induction cs generalizing before with
  | nil =>
    rw [cutChars] at h
    split at h
    case isTrue empty =>
      cases h
      simp [List.isEmpty_iff.mp empty]
    case isFalse => cases h
  | cons c cs ih =>
    rw [cutChars] at h
    split at h
    case h_1 rest found =>
      cases h
      simpa using (List.isPrefixOf?_eq_some_iff_append_eq.mp found).symm
    case h_2 =>
      obtain ⟨parts, found, same⟩ := Option.map_eq_some_iff.mp h
      cases same
      rw [ih found]
      simp

lemma isPlain_owner {python : String} (h : IsPlain python) :
    IsPlain ((ownerAndName python).1 ++ "._") := by
  rw [ownerAndName, cut?]
  cases found : cutChars ".".toList python.toList with
  | none => exact (by decide : IsPlain ("self" ++ "._"))
  | some parts =>
    obtain ⟨before, behind⟩ := parts
    rw [IsPlain, cutChars_spec found] at h
    rw [IsPlain, Option.map_some, Option.getD_some, String.toList_append, String.toList_ofList]
    -- two characters decide, and the mark is one of them if the owner is short
    rcases before with _ | ⟨c, _ | ⟨d, rest⟩⟩
    · exact (by decide : plainStart "._".toList = true)
    · exact h
    · exact h

/-! ### Constructs that write lines -/

section Runs

variable {s s' : Session} {f left right test yes no : Fragment}

lemma guarded_ok {conjunction : Bool} {lines : List String}
    (h : guarded left conjunction lines right s = .ok f s') :
    f = { Fragment.atom s!"cond_{s.temporaries + 1}" with
      assigns := left.assigns || right.assigns, hoisted := true } := by
  rw [guarded, nextTemporary_bind] at h
  iterate 6 obtain ⟨_, _, _, h⟩ := bind_ok.mp h
  cases h
  rfl

lemma choice_ok (h : choice test thenLines yes elseLines no s = .ok f s') :
    f = { Fragment.atom s!"choice_{s.temporaries + 1}" with
      assigns := test.assigns || yes.assigns || no.assigns
      isString := yes.isString && no.isString
      hoisted := true } := by
  rw [choice, nextTemporary_bind] at h
  iterate 10 obtain ⟨_, _, _, h⟩ := bind_ok.mp h
  cases h
  rfl

lemma updateField_ok {update : String → String}
    (h : updateField index update keepOld s = .ok f s') :
    f = { Fragment.atom s!"field_{s.temporaries + 1}" with hoisted := true } := by
  rw [updateField, nextTemporary_bind] at h
  dsimp only at h
  split at h
  case isTrue =>
    rw [pure_bind] at h
    iterate 2 obtain ⟨_, _, _, h⟩ := bind_ok.mp h
    cases h
    rfl
  case isFalse =>
    obtain ⟨_, _, _, h⟩ := bind_ok.mp h
    rw [pure_bind] at h
    iterate 2 obtain ⟨_, _, _, h⟩ := bind_ok.mp h
    cases h
    rfl

end Runs

/-- A compiled format begins with a quote, or it is left to the runtime. -/
lemma isPlain_format (texts : List String) : IsPlain (compile texts).code := by
  rcases texts with _ | ⟨format, arguments⟩
  · decide
  · rw [compile]
    split
    case isTrue quoted =>
      obtain ⟨cs, same⟩ : ∃ cs, format.toList = '"' :: cs := by
        simp only [isQuoted, Bool.and_eq_true, decide_eq_true_eq] at quoted
        exact List.head?_eq_some_iff.mp quoted.1.2
      have first : pieces ('"' :: cs) =
          .plain '"' :: Format.piecesWithin cs.length cs := rfl
      have texts : ∃ more slots, ((pieces ('"' :: cs)).mapM Format.Slots.piece).run
          { arguments } = ("\"" :: more, slots) := by
        rw [first, List.mapM_cons]
        exact ⟨_, _, rfl⟩
      obtain ⟨more, slots, run⟩ := texts
      have template : IsPlain (String.join ("\"" :: more)) := by
        rw [String.join_cons]
        exact IsPlain.append (by decide) _
      simp only [compileLiteral, same, run]
      split
      · split
        · exact template.append _
        · exact template
      · exact ((template.append _).append _).append _
    case isFalse => exact (IsPlain.append (by decide) _).append _

lemma isPlain_setField (index value : String) : IsPlain (setField index value) := by
  rw [setField]
  split
  · exact (IsPlain.append (by decide) _).append _
  · exact (((IsPlain.append (by decide) _).append _).append _).append _

lemma isPlain_substr (plain : ∀ g ∈ args, IsPlain g.text) (run : substr args s = .ok f s') :
    IsPlain f.text ∧ f.target = none := by
  have slice : ∀ subject first count, IsPlain subject → IsPlain (slice subject first count) := by
    intro subject first count h
    cases count with
    | none => exact ((h.append _).append _).append _
    | some count => exact ((((h.append _).append _).append _).append _).append _
  have call : ∀ text, IsPlain ("self._substr(" ++ text) := IsPlain.append (by decide)
  unfold substr at run
  split at run
  case h_1 subject start =>
    have text := isPlain_stringified (plain subject (by simp))
    cases first : signed64? start.text <;> simp only [first] at run <;> cases run
    · exact ⟨(call _).append _, rfl⟩
    · exact ⟨slice _ _ _ text, rfl⟩
  case h_2 subject start count =>
    have text := isPlain_stringified (plain subject (by simp))
    cases first : signed64? start.text <;> cases many : signed64? count.text <;>
      simp only [first, many] at run <;> cases run
    · exact ⟨(call _).append _, rfl⟩
    · exact ⟨(call _).append _, rfl⟩
    · exact ⟨(call _).append _, rfl⟩
    · exact ⟨slice _ _ _ text, rfl⟩
  case h_3 => exact absurd run unexpected_ne_ok

lemma isPlain_regexForString {t : Table} (proper : t.Proper) (id : SymbolId) :
    IsPlain ((t.regexForString id).2.symbol (t.regexForString id).1).python := by
  rw [Table.regexForString]
  split
  case h_1 regex found =>
    obtain ⟨before, behind, same, -⟩ := List.lookup_eq_some_iff.mp found
    exact (proper.regexes (id, regex) (by simp [same])).2
  case h_2 =>
    change IsPlain ((t.push _).2.symbol t.size).python
    rw [Table.symbol_push, if_pos rfl]
    exact isPlain_regex _

lemma requireLibrary_symbol {function : Function}
    (h : function.library.forM requireLibrary s = .ok () s') :
    s'.table = s.table ∧ s'.cursor = s.cursor := by
  cases found : function.library with
  | none =>
    rw [found] at h
    cases h
    exact ⟨rfl, rfl⟩
  | some library =>
    rw [found] at h
    have run : s' = after (requireLibrary library s) := (congrArg after h).symm
    rw [run]
    change (if s.imports.contains library then s else _ : Session).table = _ ∧
      (if s.imports.contains library then s else _ : Session).cursor = _
    split <;> exact ⟨rfl, rfl⟩

lemma step_plain {increment before : Bool}
    (plain : g.Plain s.table) (run : step g increment before s = .ok f s') : f.Plain s'.table := by
  rcases ht : g.target with _ | (id | ⟨base, index⟩ | index)
  all_goals simp only [step, ht] at run
  case none => exact absurd run unexpected_ne_ok
  case some.var =>
    rw [line_bind] at run
    obtain ⟨_, s1, mark, run⟩ := bind_ok.mp run
    obtain ⟨t, grows, rfl⟩ := markScalar_ok mark
    obtain ⟨bound, plain⟩ := plain.var id ht
    rw [← python_of_word (grows.word id bound)] at plain
    cases run
    refine plain_of_text ?_ rfl
    exact ((((isPlain_owner plain).append _).append _).append _).append _
  case some.element =>
    cases run
    refine plain_of_text ?_ rfl
    exact ((((((isPlain_owner (plain.base _ _ ht)).append _).append _).append _).append _).append
      _).append _
  case some.field =>
    rw [updateField_ok run]
    exact plain_of_text (IsPlain.append (by decide) _) rfl

lemma beginsText_of_isVariable {s : Symbol} (h : s.isVariable = true) :
    s.kind.beginsText = true := by
  obtain ⟨use, kind⟩ := isVariable_iff.mp h
  rw [kind]
  rfl

/-- What has to be given for a phrase to begin plainly. -/
def Phrase.Given (s : Session) : Phrase → Prop
  | .goal (.rest left _ _) | .extension left _ _ => left.Plain s.table
  | .call function _ => s.symbol.kind = .function function
  | .pieces _ | .separator _ => False
  | _ => True

/-- The text of every expression begins plainly. -/
lemma Reads.isPlain {phrase : Phrase}
    (h : Reads phrase s fs s') (given : phrase.Given s) : ∀ f ∈ fs, f.Plain s'.table := by
  have one : ∀ {f : Fragment} {t : Table}, f.Plain t → ∀ g ∈ [f], g.Plain t := by
    intro f t plain g mem
    rwa [List.mem_singleton.mp mem]
  have read : ∀ {s : Session}, s.Sound → s.symbol.kind.beginsText = true →
    IsPlain s.symbol.python :=
    fun sound => sound.current.regular.plain
  have wrapped : ∀ {left : Fragment} {t : Table} (level : Nat), left.Plain t →
      IsPlain (left.wrapped level) := fun level plain => isPlain_wrapped plain.text level
  induction h with
  | operation e first behind ih ih' => exact ih' (ih trivial _ List.mem_cons_self)
  | stop e => exact one given
  | extend e first behind goes ih ih' => exact ih' (ih given _ List.mem_cons_self)
  | subtraction e | arithmetic e | membership e =>
    exact plain_one (((wrapped _ given).append _).append _) rfl
  | concatenation e =>
    exact plain_one ((((IsPlain.append (by decide) _).append _).append _).append _) rfl
  | logical e here kind operand use use' done ih =>
    rcases done with ⟨-, -, rfl⟩ | ⟨-, run⟩
    · exact plain_one (((wrapped _ given).append _).append _) rfl
    · rw [guarded_ok run]
      exact plain_one (IsPlain.append (by decide) _) rfl
  | @matching op limit context right left s s1 s' e here kind operand use ih =>
    refine plain_one ?_ rfl
    change IsPlain (if _ then _ else _)
    split
    · exact (IsPlain.append (by decide) _).append _
    · exact (((ih trivial _ List.mem_cons_self).text.append _).append _).append _
  | pipe e here kind word use source ih | plain e operand ih | getlineAlone e kind behind ih
  | argument e isArgument inner ih | arguments e opened items closed ih
  | substituted e comma inner ih | getlineTarget e kind operand ih => exact ih trivial
  | conditional e here kind first colon second use use' use'' done ih ih' =>
    rcases done with ⟨-, -, rfl⟩ | ⟨-, run⟩
    · exact plain_one
        ((((((IsPlain.append (by decide) _).append _).append _).append _).append _).append _) rfl
    · rw [choice_ok run]
      exact plain_one (IsPlain.append (by decide) _) rfl
  | assignVariable e =>
    exact plain_one ((given.text.append _).append _) rfl
  | assignElement e here kind changes value use ih =>
    exact plain_one
      ((((given.base _ _ changes).append _).append _).append _ |>.append _ |>.append _) rfl
  | @assignField op limit context right left index s s1 s' e =>
    exact plain_one (isPlain_setField index right.text) rfl
  | assignBy e here kind changes value use run ih =>
    rw [updateField_ok run]
    exact plain_one (IsPlain.append (by decide) _) rfl
  | @sign python context g s s1 s' e kind =>
    have plain : IsPlain python := by
      rcases kind with ⟨unary, binary, kind, rfl⟩ | ⟨kind, rfl⟩
      · have paired := e.start.current.regular.paired
        simp only [isPaired, kind, Bool.and_eq_true, decide_eq_true_eq] at paired
        rw [python_of_word (e.start.marked.word unary paired.1.2)]
        exact paired.2.1
      · refine read e.start ?_
        rcases kind with kind | kind <;> rw [kind] <;> rfl
    exact plain_one (plain.append _) rfl
  | @negation context g s s1 s' e kind =>
    have plain := read e.start (by rw [kind]; rfl)
    refine one ?_
    split
    · exact plain_of_text (isPlain_parenthesised _) rfl
    · exact plain_of_text ((plain.append _).append _) rfl
  | stepBefore e kind operand run ih => exact one (step_plain (ih trivial _ List.mem_cons_self) run)
  | @stepAfter context g increment f s s1 s' e operand kind run ih =>
    have plain : g.Plain s1.past.table := ih trivial _ List.mem_cons_self
    exact one (step_plain plain run)
  | number e kind | string e kind | regex e kind =>
    exact plain_one (read e.start (by rw [kind]; rfl)) rfl
  | regexLiteral e kind | callLater e kind =>
    exact plain_one ((read e.start (by rw [kind]; rfl)).append _) rfl
  | field e kind => exact one (plain_of_field (read e.start (by rw [kind]; rfl)) rfl)
  | computedField e => exact one (plain_of_field ((IsPlain.append (by decide) _).append _) rfl)
  | group e kind inner closed ih => exact one (ih trivial _ List.mem_cons_self).grouped
  | tuple e => exact plain_one (isPlain_parenthesised _) rfl
  | @name use context s e kind =>
    have plain := read e.start (by rw [kind]; rfl)
    refine one ⟨plain, fun id same => ?_, fun base index same => ?_⟩
    · cases same
      exact ⟨e.start.current.valid, plain⟩
    · cases same
  | @element use args context s s1 s2 e kind =>
    have plain := read e.start (by rw [kind]; rfl)
    refine one ⟨?_, fun id same => ?_, fun base index same => ?_⟩
    · change IsPlain (if _ then _ else _)
      split <;> exact (((plain.append _).append _).append _)
    · cases same
    · cases same
      exact plain
  | @function context f s s1 s' function e kind library behind ih =>
    obtain ⟨table, cursor⟩ := requireLibrary_symbol library
    refine ih ?_
    change (s1.table.symbol s1.cursor.current.symbol).kind = _
    rwa [table, cursor]
  | whole e inner use ih =>
    obtain ⟨t, grows, rfl⟩ := useAsScalar_ok use
    exact one ((ih trivial _ List.mem_cons_self).grows grows)
  | @one afterItem context f afterComma s s1 e item ih =>
    cases afterItem <;> exact ih trivial
  | @more afterItem context afterComma args f s s1 s2 e before comma item ih ih' =>
    have later : s1.table.Grows s2.table := by
      have := item.effect.table
      cases afterComma <;> exact this
    intro g mem
    have table : (passLines afterItem s2).table = s2.table := by cases afterItem <;> rfl
    rw [table]
    rcases List.mem_append.mp mem with mem | mem
    · exact (ih trivial g mem).grows later
    · exact ih' trivial g mem
  | noArguments e | substitutedRecord e | noTarget e => exact List.forall_mem_nil _
  | user e | call e => exact plain_one ((read e.start (by rw [given]; rfl)).append _) rfl
  | lengthAlone e | lengthEmpty e | fromInput e => exact plain_one (by decide) rfl
  | lengthOf e | matchCall e | dynamicRegex e | fromCommand e | fromFile e =>
    exact plain_one ((IsPlain.append (by decide) _).append _) rfl
  | @split subject pieces f text context s s1 s2 s3 s' function e strategy opened first comma var
      mark last closed done said ih ih' =>
    obtain ⟨t, grows, rfl⟩ := markArray_ok mark
    have sound : s1.past.pastLines.Sound := first.effect.sound.advance.skip _
    have plain := read sound (beginsText_of_isVariable var)
    rw [← python_of_word (grows.word _ sound.current.valid)] at plain
    rcases done with ⟨rfl, -⟩ | ⟨-, rfl⟩
    · exact plain_one (((plain.append _).append _).append _) rfl
    · exact plain_one ((IsPlain.append (by decide) _).append _) rfl
  | substitute e => exact plain_one (IsPlain.append (by decide) _) rfl
  | noSeparator e | separator e | piecesLiteral e | piecesBy e => exact given.elim
  | method e strategy arguments ih =>
    have plain := isPlain_stringified (ih trivial _ List.mem_cons_self).text
    exact plain_one (((plain.append _).append _).append _) rfl
  | index e =>
    exact plain_one ((((IsPlain.append (by decide) _).append _).append _).append _) rfl
  | substr e strategy arguments run ih =>
    obtain ⟨text, fixed⟩ := isPlain_substr (fun g mem => (ih trivial g mem).text) run
    exact plain_one text fixed
  | sprintf e strategy arguments run ih =>
    obtain ⟨_, _, _, run⟩ := bind_ok.mp run
    cases run
    exact plain_one (isPlain_format _) rfl
  | literalRegex e operand use literal string made plain ih =>
    obtain ⟨t, grows, rfl⟩ := useAsScalar_ok use
    subst made
    exact plain_one
      (isPlain_regexForString (grows.proper operand.effect.sound.proper) _) rfl
  | getline e target source done ih ih' =>
    exact plain_one ((ih' trivial _ List.mem_cons_self).text.append _) rfl

end Expression

lemma Name.qualified?_eq {written scope name : String}
    (h : qualified? written = some (scope, name)) : written = scope ++ separator ++ name := by
  rw [qualified?, Option.filter_eq_some_iff] at h
  obtain ⟨parts, found, same⟩ := Option.map_eq_some_iff.mp h.1
  have whole := Expression.cutChars_spec found
  cases same
  apply String.toList_inj.mp
  simpa using whole

end AwkToPython
