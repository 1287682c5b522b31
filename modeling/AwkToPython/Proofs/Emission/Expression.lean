import AwkToPython.Proofs.Emission.Basic

/-!
# Expressions only add lines

Each construct is given compilers for its parts. If those only add lines, so does
the construct, and the texts of its fragment are made of theirs.
-/
namespace AwkToPython

open Compile Fragment

variable {p : Char → Prop} [HoldsGraphic p]
variable {index subject : String} {fs : List Fragment} {s : Symbol} {command : Option String}
  {test : Fragment}

/-- The operand that a goal starts from is over a set. -/
def Goal.Over (p : Char → Prop) : Goal → Prop
  | .rest left _ _ => left.Over p
  | .operation .. | .signed _ | .operand _ => True

namespace Expression

/-- Compilers of parts that only add lines. -/
def PartsEmit (p : Char → Prop) (parts : Parts) : Prop :=
  ∀ goal : Goal, goal.Over p → Emits p (parts goal) (Over p)

variable {parts : Parts} {f left right : Fragment} {context : Context}

omit [HoldsGraphic p] in
instance quiet_useAsScalar (f : Fragment) : Quiet p (useAsScalar f) := by
  rw [useAsScalar]
  split <;> infer_instance

omit [HoldsGraphic p] in
lemma emits_whole (h : PartsEmit p parts) : Emits p (whole parts context) (Over p) := by
  refine (h (.operation context anyLevel) trivial).bind fun f hf => ?_
  split
  · exact .next fun _ => .pure hf
  · exact .pure hf

section Items

variable {α : Type} {Q : α → Prop} {afterComma : Compile Unit} [Quiet p afterComma]
  {item : Compile α}

omit [HoldsGraphic p] in
lemma emits_moreItems (hi : Emits p item Q) (fuel : Nat) (hf : ∀ a ∈ found, Q a) :
    Emits p (moreItems afterComma item fuel found) fun all => ∀ a ∈ all, Q a := by
  induction fuel generalizing found with
  | zero => exact .throw _
  | succ fuel ih =>
    rw [moreItems]
    refine .next fun comma => ?_
    split
    · refine .next fun _ => .next fun _ => hi.bind fun a ha => ih ?_
      intro b mem
      rcases List.mem_append.mp mem with mem | mem
      · exact hf b mem
      · exact List.mem_singleton.mp mem ▸ ha
    · exact .pure hf

omit [HoldsGraphic p] in
lemma emits_items (hi : Emits p item Q) :
    Emits p (items afterComma item) fun all => ∀ a ∈ all, Q a := by
  refine hi.bind fun first ha => .next fun n => emits_moreItems hi _ ?_
  intro b mem
  exact List.mem_singleton.mp mem ▸ ha

end Items

section Constructs

variable {python : String} {op : Symbol}

variable (h : PartsEmit p parts)
include h

omit [HoldsGraphic p] in
lemma emits_arguments : Emits p (arguments parts context) fun fs => ∀ f ∈ fs, f.Over p := by
  refine .next fun _ => .next fun _ => ?_
  refine .next fun closed => ?_
  split
  · exact .next fun _ => .pure (by simp)
  · have argument : Emits p (do
        let argument ← whole parts context
        skipNewlines
        return argument) (Over p) :=
      (emits_whole h).bind fun f hf => .next fun _ => .pure hf
    refine (emits_items argument).bind fun fs hfs => ?_
    refine .next fun closed => ?_
    split
    · exact .next fun _ => .pure hfs
    · exact .unexpected _

omit h in
lemma tuple_over (h : ∀ key ∈ keys, Text.Over p key) : Text.Over p (tuple keys) := by
  have comma : Text.Over p ", " := .fixed rfl
  have joined := Text.Over.parenthesised (Text.Over.join comma h)
  rcases keys with _ | ⟨key, _ | _⟩
  · exact joined
  · exact h key (by simp)
  · exact joined

lemma emits_subscript [Quiet p afterComma] :
    Emits p (subscript parts afterComma) (Text.Over p) := by
  refine (emits_items (emits_whole h)).bind fun keys hk => ?_
  exact .next fun _ => .pure (tuple_over (Over.texts hk))

omit h in
lemma ownerAndName_over (h : Text.Over p python) :
    Text.Over p (ownerAndName python).1 ∧ Text.Over p (ownerAndName python).2 := by
  rw [ownerAndName]
  cases found : Text.cut? "." python with
  | none =>
    have owner : Text.Over p "self" := .fixed rfl
    exact ⟨owner, h⟩
  | some parts =>
    obtain ⟨owner, name⟩ := parts
    exact Text.Over.cut found h

/-! ### Assignments and increments -/

omit h in
lemma setField_over (hi : Text.Over p index)
    (hv : Text.Over p value) : Text.Over p (setField index value) := by
  rw [setField]
  split <;> simp (disch := decide) [hi, hv]

omit h in
lemma emits_updateField {update : String → String}
    (hi : Text.Over p index) (hu : ∀ value, Text.Over p value → Text.Over p (update value))
    (keepOld : Bool) : Emits p (updateField index update keepOld) (Over p) := by
  refine .next fun n => ?_
  have rest : ∀ index, Text.Over p index → Emits p (do
      let temporary := s!"field_{n}"
      let current := s!"self._FLDS[{index}]"
      let value := if keepOld then current else update current
      let stored := if keepOld then update temporary else temporary
      emit s!"{temporary} = {value}"
      emit (setField index stored)
      return { atom temporary with hoisted := true }) (Over p) := by
    intro index hi
    have temporary : Text.Over p s!"field_{n}" := by
      simp (disch := decide)
    have current : Text.Over p s!"self._FLDS[{index}]" := by
      simp (disch := decide) [hi]
    have value : Text.Over p (if keepOld then s!"self._FLDS[{index}]"
        else update s!"self._FLDS[{index}]") := by
      split
      · exact current
      · exact hu _ current
    have stored : Text.Over p (if keepOld then update s!"field_{n}" else s!"field_{n}") := by
      split
      · exact hu _ temporary
      · exact temporary
    refine .line ?_ <| (emits_emit (setField_over hi stored)).bind
      fun _ _ => .pure (.plain temporary rfl)
    simp (disch := decide) [value]
  have named : Text.Over p s!"field_index_{n}" := by
    simp (disch := decide)
  by_cases simple : isSimple index = true
  · simp only [simple, if_true, pure_bind]
    exact rest index hi
  · simp only [simple, if_false, Bool.false_eq_true, pure_bind]
    refine .line ?_ <| rest _ named
    simp (disch := decide) [hi]

lemma emits_assignment (hl : left.Over p) {op : String} (ho : Text.Over p op) :
    Emits p (assignment parts left op context) (Over p) := by
  rw [assignment]
  split
  · exact .unexpected _
  case h_2 target assigned =>
    refine .next fun _ => .next fun _ => ?_
    refine (h (.operation context anyLevel) trivial).bind fun right hr => ?_
    refine .next fun _ => ?_
    cases target with
    | var id =>
      refine .next fun line => .next fun _ => .pure ?_
      refine .plain ?_ rfl
      exact Text.Over.append.mpr ⟨Text.Over.append.mpr ⟨hl.text, ho⟩, hr.text⟩
    | element base index =>
      obtain ⟨hb, hi⟩ := hl.target _ assigned
      refine .pure (.plain ?_ rfl)
      simp (disch := decide) [hb, hi, ho, hr.text]
    | field index =>
      have hi : Text.Over p index := hl.target _ assigned
      dsimp only
      split
      · exact .pure (.plain (setField_over hi hr.text) rfl)
      · have operator : Text.Over p
          (String.ofList (op.toList.reverse.dropWhile (· = '=')).reverse) := by
          refine Text.Over.ofList.mpr fun c mem => ho c ?_
          have mem := (List.dropWhile_suffix _).mem (List.mem_reverse.mp mem)
          exact List.mem_reverse.mp mem
        refine (emits_updateField hi ?_ false).bind fun f hf => .pure ⟨hf.text, hf.target⟩
        intro value hv
        exact Text.Over.append.mpr ⟨Text.Over.append.mpr ⟨hv, operator⟩, hr.wrapped 0⟩

omit h in
lemma incrementName_over (increment before : Bool) :
    Text.Over p (incrementName increment before) := by
  cases increment <;> cases before <;> exact .fixed rfl

omit h in
lemma emits_step (hf : f.Over p) (increment before : Bool) :
    Emits p (step f increment before) (Over p) := by
  have name : Text.Over p _ := incrementName_over increment before
  rw [step]
  dsimp only
  split
  · exact .unexpected _
  case h_2 id _ =>
    refine .next fun line => .next fun _ => ?_
    refine (emits_pythonOf id).bind fun python ho => .pure (.plain ?_ rfl)
    obtain ⟨owner, attr⟩ := ownerAndName_over ho
    simp (disch := decide) [owner, attr, name]
  case h_3 base index target =>
    obtain ⟨hb, hi⟩ := hf.target _ target
    have owner := (ownerAndName_over hb).1
    refine .pure (.plain ?_ rfl)
    simp (disch := decide) [owner, hb, hi, name]
  case h_4 index target =>
    refine emits_updateField (hf.target _ target) (fun value hv => ?_) _
    refine Text.Over.append.mpr ⟨hv, ?_⟩
    split <;> exact .fixed rfl

/-! ### Calls -/

omit h in
instance quiet_regexForString (id : SymbolId) : Quiet p (intern (·.regexForString id)) :=
  ⟨emits_intern (fun _ ht => Table.over_regexForString ht _)
    (fun _ ht => Table.rekeys_regexForString ht _) fun t => t.keepsDefinable_regexForString _⟩

lemma emits_regexOperand
    (limit : Nat) : Emits p (regexOperand parts context limit) (Text.Over p) := by
  refine .next fun token => .next fun regex => ?_
  split
  · exact .next fun _ => emits_pythonOf _
  · refine (h (.operation _ limit) trivial).bind fun f hf => .next fun _ => ?_
    have dynamic : Text.Over p s!"self._dynamic_regex({f.text})" := by
      simp (disch := decide) [hf.text]
    split
    · refine .next fun s => ?_
      split
      · exact .next fun id => emits_pythonOf id
      · exact .pure dynamic
    · exact .pure dynamic

lemma emits_length : Emits p (length parts) (Over p) := by
  have record : (atom "len(str(self._FLDS[0]))").Over p :=
    .plain (.fixed rfl) rfl
  refine .next fun _ => .next fun paren => ?_
  split
  · exact .pure record
  · refine (emits_arguments h).bind fun fs hfs => ?_
    split
    · exact .pure record
    case h_2 f =>
      have hf := hfs f (by simp)
      have made : ∀ isArray : Bool, (atom
          s!"len({if isArray then f.text else f.stringified})").Over p := by
        intro isArray
        have subject : Text.Over p (if isArray then f.text else f.stringified) := by
          split
          · exact hf.text
          · exact hf.stringified
        refine .plain ?_ rfl
        simp (disch := decide) [subject]
      split
      · exact .next fun s => .pure (made _)
      · exact .pure (made false)
    · exact .unexpected _

omit h in
lemma slice_over (h : Text.Over p subject) (start : Int)
    (count : Option Int) : Text.Over p (slice subject start count) := by
  cases count <;> rw [slice] <;>
    simp (disch := decide) [h]

omit h in
lemma emits_substr (h : ∀ f ∈ fs, f.Over p) : Emits p (substr fs) (Over p) := by
  have other : Emits p
      (unexpected (.arguments "two or three arguments" "substr") : Compile Fragment) (Over p) :=
    .unexpected _
  rcases fs with _ | ⟨subject, _ | ⟨start, _ | ⟨count, _ | _⟩⟩⟩
  · exact other
  · exact other
  · have hs := (h subject (by simp)).stringified
    have ht := (h start (by simp)).text
    rw [substr]
    split
    · exact .pure (.plain (slice_over hs _ _) rfl)
    · refine .pure (.plain ?_ rfl)
      simp (disch := decide) [hs, ht]
  · have hs := (h subject (by simp)).stringified
    have ht := (h start (by simp)).text
    have hc := (h count (by simp)).text
    rw [substr]
    split
    · exact .pure (.plain (slice_over hs _ _) rfl)
    · refine .pure (.plain ?_ rfl)
      simp (disch := decide) [hs, ht, hc]
  · exact other

lemma emits_matchCall : Emits p (matchCall parts) (Over p) := by
  refine .next fun _ => .next fun _ => ?_
  refine (emits_whole h).bind fun subject hs => .next fun _ => ?_
  refine (emits_regexOperand h _).bind fun regex hr => ?_
  refine .next fun _ => .pure (.plain ?_ rfl)
  simp (disch := decide) [hs.stringified, hr]

lemma emits_splitBy (hs : Text.Over p subject) : Emits p (splitBy parts subject) (Text.Over p) := by
  refine .next fun token => emits_symbol.bind fun s here => ?_
  refine .next fun next => .next fun following => ?_
  split
  · refine .next fun _ => .pure ?_
    simp (disch := decide) [here.python, hs]
  · split
    · refine .next fun _ => ?_
      split
      · refine .pure ?_
        simp (disch := decide) [hs]
      · split
        · refine .pure ?_
          simp (disch := decide) [hs]
        · refine .next fun id => (emits_pythonOf id).bind fun regex hr => .pure ?_
          simp (disch := decide) [hs, hr]
    · refine (emits_whole h).bind fun separator hf => .pure ?_
      have ht := hf.text
      simp (disch := decide) [hs, ht]

lemma emits_split : Emits p (split parts context) (Over p) := by
  refine .next fun _ => .next fun _ => ?_
  refine (emits_whole h).bind fun subject hf => .next fun _ => ?_
  have hs := hf.stringified
  refine .next fun token => .next fun s => ?_
  split
  · exact .unexpected_bind _
  refine .next fun _ => (emits_pythonOf _).bind fun array ha => ?_
  refine .next fun _ => .next fun comma => ?_
  have rest : ∀ pieces, Text.Over p pieces → Emits p (do
      expectBracket .closeParen ")"
      let assignment := s!"{array} = self._to_array({pieces})"
      if context.statement && (← atStatementEnd) then return .atom assignment
      emit assignment
      return { atom s!"len({array})" with hoisted := true }) (Over p) := by
    intro pieces hpieces
    have made : Text.Over p s!"{array} = self._to_array({pieces})" := by
      simp (disch := decide) [ha, hpieces]
    have count : Text.Over p s!"len({array})" := by
      simp (disch := decide) [ha]
    refine .next fun _ => .next fun atEnd => ?_
    split
    · exact .pure (.plain made rfl)
    · exact .line made <| .pure (.plain count rfl)
  split
  · refine .next fun _ => .next fun _ => ?_
    exact (emits_splitBy h hs).bind fun pieces hpieces => rest pieces hpieces
  · refine rest _ ?_
    simp (disch := decide) [hs]

omit h in
lemma emits_replacement (hf : f.Over p) : Emits p (replacement f) (Text.Over p) := by
  have dynamic : Text.Over p s!"self._dynamic_replacement({f.text})" := by
    simp (disch := decide) [hf.text]
  rw [replacement]
  split
  · refine .next fun s => ?_
    dsimp only
    split
    · exact .pure (.literal _)
    · exact .pure dynamic
  · exact .pure dynamic

omit h in
lemma emits_writeSubstitution (n : Nat) {call : String → String}
    (hc : ∀ subject, Text.Over p subject → Text.Over p (call subject)) {target : Option Fragment}
    (ht : ∀ f ∈ target, f.Over p) : Emits p (writeSubstitution n call target) fun _ => True := by
  have taken : Text.Over p s!"target_{n}, num_changed_{n} = " := by
    simp (disch := decide)
  have record : Emits p (writeSubstitution.record n call) fun _ => True := by
    have subject : Text.Over p "str(self._FLDS[0])" := .fixed rfl
    refine (emits_emit (Text.Over.append.mpr ⟨taken, hc _ subject⟩)).bind fun _ _ => ?_
    refine emits_emit ?_
    simp (disch := decide)
  cases target with
  | none => exact record
  | some f =>
    have hf := ht f rfl
    have ho := hf.text
    have hs := hf.stringified
    rw [writeSubstitution]
    split
    case h_1 index target =>
      have hi : Text.Over p index := hf.target _ target
      split
      · exact record
      · refine (emits_emit (Text.Over.append.mpr ⟨taken, hc _ ?_⟩)).bind fun _ _ =>
          emits_emit ?_ <;>
        simp (disch := decide) [hi]
    case h_2 =>
      refine emits_emit (Text.Over.append.mpr ⟨?_, hc _ hs⟩)
      simp (disch := decide) [ho]
    case h_3 base index target =>
      obtain ⟨hb, hi⟩ := hf.target _ target
      refine emits_emit (Text.Over.append.mpr ⟨?_, hc _ ?_⟩) <;>
        simp (disch := decide) [hb, hi]
    case h_4 =>
      refine emits_emit (Text.Over.append.mpr ⟨?_, hc _ hs⟩)
      simp (disch := decide)

lemma emits_substitute (everywhere : Bool) : Emits p (substitute parts everywhere) (Over p) := by
  refine .next fun _ => .next fun _ => ?_
  refine (emits_regexOperand h _).bind fun regex hr => .next fun _ => ?_
  refine (emits_whole h).bind fun f hf => (emits_replacement hf).bind fun new hn => ?_
  refine .next fun comma => ?_
  have rest : ∀ target : Option Fragment, (∀ f ∈ target, f.Over p) → Emits p (do
      expectBracket .closeParen ")"
      let n ← nextTemporary
      let count := if everywhere then 0 else 1
      writeSubstitution n (fun subject => s!"{regex}.subn({new}, {subject}, {count})") target
      return { atom s!"num_changed_{n}" with hoisted := true }) (Over p) := by
    intro target ht
    refine .next fun _ => .next fun n => ?_
    refine (emits_writeSubstitution n (fun subject hs => ?_) ht).bind fun _ _ =>
      .pure (.plain ?_ rfl)
    · simp (disch := decide) [hr, hn, hs]
    · simp (disch := decide)
  cases comma with
  | true =>
    simp only [if_true]
    refine .next fun _ => .next fun _ => ?_
    refine ((emits_whole h).map (R := fun target => ∀ f ∈ target, f.Over p) ?_).bind rest
    intro f hf g mem
    cases mem
    exact hf
  | false =>
    simp only [Bool.false_eq_true, if_false, pure_bind]
    exact rest none (by simp)

omit h in
lemma call_over (ho : Text.Over p python) (h : ∀ f ∈ fs, f.Over p) :
    Text.Over p (python ++ parenthesised (Text.join ", " (fs.map (·.text)))) := by
  have comma : Text.Over p ", " := .fixed rfl
  exact Text.Over.append.mpr
    ⟨ho, .parenthesised (.join comma (Over.texts h))⟩

/-- The arguments of a call behind the text of what is called. -/
def userArguments (parts : Parts) (python : String) : Compile Fragment := do
  advance
  let args ← arguments parts { argument := true }
  return .atom (python ++ parenthesised (Text.join ", " (args.map (·.text))))

omit h in
lemma userCall_run (parts : Parts) (token : Token) (s : Session) : userCall parts token s =
    userArguments parts (s.table.symbol token.symbol).python (s.called token) := by
  have symbol : userCall parts token s = (do
      if (s.table.symbol token.symbol).isVariable then
        modify fun session =>
          { session with calls := session.calls ++ [(token.symbol, token.line)] }
      userArguments parts (s.table.symbol token.symbol).python : Compile Fragment) s := rfl
  rw [symbol, Session.called]
  split <;> rfl

lemma emits_userArguments
    (ho : Text.Over p python) : Emits p (userArguments parts python) (Over p) :=
  .next fun _ => (emits_arguments h).bind fun _ hfs =>
    .pure (.plain (call_over ho hfs) rfl)

lemma emits_userCall (token : Token) : Emits p (userCall parts token) (Over p) := by
  intro s legible
  rw [userCall_run]
  have noted := legible.adds_called token
  obtain ⟨adds, result⟩ := emits_userArguments h (legible.symbols _).python _ noted.legible
  exact ⟨noted.trans adds, result⟩

lemma emits_plainCall (hs : s.Over p) (hm : ∀ name, strategy = .method name → Text.Over p name) :
    Emits p (plainCall parts s strategy context) (Over p) := by
  refine .next fun _ => (emits_arguments h).bind fun fs hfs => ?_
  split
  case h_1 name =>
    have hn := hm name rfl
    split
    case h_1 f =>
      have hf := (hfs f (by simp)).stringified
      refine .pure (.plain ?_ rfl)
      simp (disch := decide) [hf, hn]
    · exact .unexpected _
  case h_2 =>
    split
    case h_1 haystack needle =>
      have hh := (hfs haystack (by simp)).stringified
      have hn := (hfs needle (by simp)).stringified
      refine .pure (.plain ?_ rfl)
      simp (disch := decide) [hh, hn]
    · exact .unexpected _
  case h_3 => exact emits_substr hfs
  case h_4 =>
    split
    · exact .unexpected _
    · exact (emits_formatted hfs).bind fun code hc => .pure (.plain hc rfl)
  case h_5 => exact .pure (.plain (call_over hs.python hfs) rfl)

lemma emits_call (token : Token) (hf : function.Over p) :
    Emits p (call parts token function context) (Over p) := by
  have library : Emits p (function.library.forM requireLibrary) fun _ => True := by
    cases found : function.library with
    | none => exact .pure trivial
    | some name => exact emits_requireLibrary (hf.library name found)
  refine library.bind fun _ _ => ?_
  split
  · exact emits_userCall h token
  · exact emits_length h
  · exact emits_split h
  · exact emits_substitute h _
  · exact emits_matchCall h
  · exact (emits_symbolOf token).bind fun s hs => emits_plainCall h hs hf.method

/-! ### Operands -/

lemma emits_computedField : Emits p (computedField parts context) (Over p) := by
  refine .next fun _ => .next fun k => ?_
  have rest : ∀ index : Fragment, index.Over p → Emits p (do
      useAsScalar index
      let position := if (Text.unsigned64? index.text).isSome then index.text
        else s!"int({index.text})"
      return { string s!"self._FLDS[{position}]" with target := some (.field position) })
      (Over p) := by
    intro index hi
    have position : Text.Over p (if (Text.unsigned64? index.text).isSome then index.text
        else s!"int({index.text})") := by
      split
      · exact hi.text
      · simp (disch := decide) [hi.text]
    refine .next fun _ => .pure ⟨?_, ?_⟩
    · have element : ∀ {text : String}, Text.Over p text → Text.Over p s!"self._FLDS[{text}]" := by
        intro text ht
        simp (disch := decide) [ht]
      exact element position
    · intro other same
      cases same
      exact position
  split
  · exact (h (.signed context) trivial).bind rest
  · exact (h (.signed context) trivial).bind rest
  · exact (h (.operation context 3) trivial).bind rest
  · exact (h (.operand context) trivial).bind rest

lemma emits_group : Emits p (group parts context) (Over p) := by
  refine .next fun _ => .next fun _ => ?_
  refine (emits_items (emits_whole h)).bind fun fs hfs => ?_
  refine .next fun _ => .next fun _ => ?_
  have comma : Text.Over p ", " := .fixed rfl
  split
  case h_1 f => exact .pure ((hfs f (by simp)).grouped)
  · exact .pure (.plain (.parenthesised (.join comma (Over.texts hfs))) rfl)

lemma emits_variableOperand (token : Token) :
    Emits p (variableOperand parts token context) (Over p) := by
  refine .next fun next => .next fun following => ?_
  refine (emits_pythonOf token.symbol).bind fun python ho => ?_
  split
  · exact emits_userCall h token
  · split
    · refine .next fun _ => ?_
      refine .next fun _ => .next fun _ => ?_
      refine (emits_subscript h).bind fun index hi => .pure ⟨?_, ?_⟩
      · change Text.Over p (if context.keepMissing then s!"{python}.get({index}, \"\")"
          else s!"{python}[{index}]")
        split <;> simp (disch := decide) [ho, hi]
      · intro other same
        cases same
        exact ⟨ho, hi⟩
    · refine .next fun _ => .pure ⟨ho, ?_⟩
      intro other same
      cases same
      trivial

omit [HoldsGraphic p] in
lemma emits_getlineTarget :
    Emits p (getlineTarget parts) fun target => ∀ t, target = some t → t.Over p := by
  refine .next fun k => ?_
  split
  · exact (h (.operand {}) trivial).bind fun f hf => .pure hf.target
  · exact (h (.operand {}) trivial).bind fun f hf => .pure hf.target
  · exact .pure (by simp)

lemma emits_getlineSource (hc : ∀ text ∈ command, Text.Over p text) :
    Emits p (getlineSource parts command) (Text.Over p) := by
  cases command with
  | some text =>
    have ht := hc text rfl
    refine .pure ?_
    simp (disch := decide) [ht]
  | none =>
    refine .next fun less => ?_
    split
    · refine .next fun _ => (h (.operand {}) trivial).bind fun file hf => ?_
      refine .next fun _ => .pure ?_
      simp (disch := decide) [hf.text]
    · exact .pure (.fixed rfl)

lemma emits_getline
    (hc : ∀ text ∈ command, Text.Over p text) : Emits p (getline parts command) (Over p) := by
  refine .next fun _ => .next fun _ => ?_
  refine (emits_getlineTarget h).bind fun target ht => ?_
  refine (emits_getlineSource h hc).bind fun source hs => ?_
  have whole : (atom s!"{source}.get_into_dollar_fields()").Over p := by
    refine .plain ?_ rfl
    simp (disch := decide) [hs]
  split
  · exact .pure whole
  case h_2 index =>
    have hi : Text.Over p index := ht _ rfl
    split
    · exact .pure whole
    · refine .pure (.plain ?_ rfl)
      simp (disch := decide) [hs, hi]
  case h_3 id =>
    refine .next fun line => .next fun _ => ?_
    refine (emits_pythonOf id).bind fun python ho => .pure (.plain ?_ rfl)
    obtain ⟨owner, name⟩ := ownerAndName_over ho
    change Text.Over p
      s!"{source}.get_into_variable({(ownerAndName python).1}, \"{(ownerAndName python).2}\")"
    simp (disch := decide) [hs, owner, name]
  case h_4 base index =>
    obtain ⟨hb, hi⟩ := ht _ rfl
    refine .pure (.plain ?_ rfl)
    simp (disch := decide) [hs, hb, hi]

lemma emits_operand : Emits p (operand parts context) (Over p) := by
  refine .next fun token => emits_symbol.bind fun s hs => ?_
  split
  · exact .next fun _ => .pure (.plain hs.python rfl)
  · exact .next fun _ => .pure (.plain hs.python rfl)
  · refine .next fun _ => .pure (.plain ?_ rfl)
    simp (disch := decide) [hs.python]
  case h_4 index _ =>
    refine .next fun _ => .pure ⟨hs.python, ?_⟩
    intro other same
    cases same
    exact .nat index
  · exact emits_computedField h
  · exact emits_group h
  · exact emits_variableOperand h token
  case h_8 function kind => exact emits_call h token (hs.function function kind)
  · exact emits_getline h (by simp)
  · exact .unexpected _

/-! ### Operators -/

omit h in
lemma emits_guarded (hl : left.Over p) (conjunction : Bool) (hs : ∀ line ∈ lines, Text.Over p line)
    (hr : right.Over p) :
    Emits p (guarded left conjunction lines right) (Over p) := by
  refine .next fun n => ?_
  have temporary : Text.Over p s!"cond_{n}" := by
    simp (disch := decide)
  have head : Text.Over p ((if conjunction then "if " else "if not ") ++ s!"cond_{n}" ++ ":") := by
    have opening : Text.Over p (if conjunction then "if " else "if not ") := by
      split <;> exact .fixed rfl
    have colon : Text.Over p ":" := .fixed rfl
    exact Text.Over.append.mpr ⟨Text.Over.append.mpr ⟨opening, temporary⟩, colon⟩
  refine (emits_emit (.assignment temporary hl.text)).bind fun _ _ => .line head <| ?_
  refine (emits_appendLines hs 1).bind fun _ _ => .next fun _ => ?_
  refine (emits_emit (.assignment temporary hr.text)).bind fun _ _ => .next fun _ => ?_
  exact .pure (.plain temporary rfl)

omit h in
lemma emits_choice (ht : test.Over p) (hts : ∀ line ∈ thenLines, Text.Over p line) (hy : yes.Over p)
    (hes : ∀ line ∈ elseLines, Text.Over p line) (hn : no.Over p) :
    Emits p (choice test thenLines yes elseLines no) (Over p) := by
  refine .next fun n => ?_
  have temporary : Text.Over p s!"choice_{n}" := by
    simp (disch := decide)
  have head : Text.Over p s!"if {test.text}:" := by
    simp (disch := decide) [ht.text]
  have otherwise : Text.Over p "else:" := .fixed rfl
  refine .line head <| (emits_appendLines hts 1).bind fun _ _ => ?_
  refine .next fun _ => (emits_emit (.assignment temporary hy.text)).bind fun _ _ => ?_
  refine .next fun _ => .line otherwise <| ?_
  refine (emits_appendLines hes 1).bind fun _ _ => .next fun _ => ?_
  refine (emits_emit (.assignment temporary hn.text)).bind fun _ _ => .next fun _ => ?_
  exact .pure (.plain temporary rfl)

lemma emits_subtraction (hl : left.Over p) : Emits p (subtraction parts left context) (Over p) := by
  refine emits_symbol.bind fun s hs => .next fun _ => ?_
  have digits : (atom (String.ofList (s.python.toList.dropWhile (· = '-')))).Over p :=
    .plain (Text.Over.ofList.mpr fun c mem => hs.python c ((List.dropWhile_suffix _).mem mem)) rfl
  refine (h (.rest _ context additiveLevel) digits).bind fun right hr => ?_
  refine .next fun _ => .pure (.plain ?_ rfl)
  simp (disch := decide) [hl.wrapped, hr.wrapped]

lemma emits_concatenation (hl : left.Over p) :
    Emits p (concatenation parts left context) (Over p) := by
  refine (h (.operation context Symbol.concatenationLevel) trivial).bind fun right hr => ?_
  refine .next fun _ => .next fun _ => ?_
  refine .pure (.plain ?_ rfl)
  simp (disch := decide) [hl.stringified, hr.stringified]

lemma emits_arithmetic (hl : left.Over p) (ho : op.Over p) :
    Emits p (arithmetic parts left op context) (Over p) := by
  refine .next fun _ => (h (.operation context _) trivial).bind fun right hr => ?_
  refine .next fun _ => .next fun _ => ?_
  refine .pure (.plain ?_ rfl)
  exact Text.Over.append.mpr ⟨Text.Over.append.mpr ⟨hl.wrapped _, ho.python⟩, hr.wrapped _⟩

lemma emits_logical (hl : left.Over p) (ho : op.Over p) :
    Emits p (logical parts left op context) (Over p) := by
  refine .next fun _ => .next fun _ => ?_
  have operand : Emits p (do
      let right ← parts (.operation context op.awkLevel)
      useAsScalar left
      useAsScalar right
      return right) (Over p) :=
    (h (.operation context _) trivial).bind fun right hr => .next fun _ =>
      .next fun _ => .pure hr
  have whole := operand.since (R := Over p) (f := fun right lines =>
      if lines.isEmpty then
        return { operator (left.wrapped (op.awkLevel + 1) ++ op.python ++
            right.wrapped op.awkLevel) op.awkLevel with assigns := left.assigns || right.assigns }
      else guarded left (op.kind = .binary .and) lines right) ?_
  · simpa only [bind_assoc, pure_bind] using whole
  · intro right lines hr hs
    split
    · refine .pure (.plain ?_ rfl)
      exact Text.Over.append.mpr ⟨Text.Over.append.mpr ⟨hl.wrapped _, ho.python⟩, hr.wrapped _⟩
    · exact emits_guarded hl _ hs hr

lemma emits_matching (hl : left.Over p)
    (op : Symbol) : Emits p (matching parts left op context) (Over p) := by
  refine .next fun _ => (emits_regexOperand h _).bind fun regex hr => ?_
  refine .next fun _ => .pure (.plain ?_ rfl)
  have search : Text.Over p s!"{regex}.search({left.stringified})" := by
    simp (disch := decide) [hr, hl.stringified]
  have negated : ∀ {text : String}, Text.Over p text → Text.Over p s!"(not {text})" := by
    intro text ht
    simp (disch := decide) [ht]
  dsimp only
  split
  · exact negated search
  · exact search

omit h in
lemma emits_membership (hl : left.Over p) (op : Symbol) :
    Emits p (membership left op) (Over p) := by
  refine .next fun _ => .next fun token => .next fun s => ?_
  split
  · exact .unexpected_bind _
  refine .next fun _ => (emits_pythonOf _).bind fun array ha => ?_
  refine .next fun _ => .next fun _ => .pure (.plain ?_ rfl)
  simp (disch := decide) [ha, hl.wrapped]

lemma emits_pipe (hl : left.Over p) : Emits p (pipe parts left) (Over p) := by
  refine .next fun _ => .next fun here => ?_
  split
  · exact .unexpected_bind _
  refine .next fun _ => emits_getline h ?_
  intro text same
  cases same
  exact hl.text

lemma emits_conditional (ht : test.Over p) : Emits p (conditional parts test context) (Over p) := by
  refine .next fun _ => .next fun _ => ?_
  -- the second part lies within what the first mark bounds
  let behind (yes : Fragment) : Compile (Fragment × Fragment × List String) := do
    let before ← mark
    let no ← (do
      let no ← parts (.operation context Symbol.assignmentLevel)
      useAsScalar test
      useAsScalar yes
      useAsScalar no
      return no)
    let elseLines ← takeSince before
    return (yes, no, elseLines)
  have second : ∀ yes : Fragment, yes.Over p → Emits p (behind yes) fun found =>
      found.1.Over p ∧ found.2.1.Over p ∧ ∀ line ∈ found.2.2, Text.Over p line := by
    intro yes hy
    refine Emits.since (Q := Over p) ?_ fun no lines hn hs => .pure ⟨hy, hn, hs⟩
    exact (h (.operation context _) trivial).bind fun no hn => .next fun _ =>
      .next fun _ => .next fun _ => .pure hn
  have both : Emits p (do
      let yes ← parts (.operation context anyLevel)
      skipNewlines
      if !(← atKind (.binary .colon)) then unexpected (.mark ":")
      advance
      skipNewlines
      behind yes) fun found =>
      found.1.Over p ∧ found.2.1.Over p ∧ ∀ line ∈ found.2.2, Text.Over p line := by
    refine (h (.operation context _) trivial).bind fun yes hy => .next fun _ => ?_
    refine .next fun colon => ?_
    split
    · exact .unexpected_bind _
    · exact .next fun _ => .next fun _ => second yes hy
  have whole := both.since (R := Over p) (f := fun found thenLines =>
      if thenLines.isEmpty && found.2.2.isEmpty then
        let yesText := found.1.wrapped ternaryLevel
        let testText := test.wrapped ternaryLevel
        let noText := found.2.1.wrapped ternaryLevel
        return { atom s!"({yesText} if {testText} else {noText})" with
          assigns := test.assigns || found.1.assigns || found.2.1.assigns
          isString := found.1.isString && found.2.1.isString }
      else choice test thenLines found.1 found.2.2 found.2.1) ?_
  · refine Eq.mp ?_ whole
    congr 1
    simp only [bind_assoc, pure_bind, behind]
    refine bind_congr fun thenMark => bind_congr fun yes => bind_congr fun _ =>
      bind_congr fun colon => ?_
    split <;> simp only [bind_assoc, pure_bind]
  · rintro ⟨yes, no, elseLines⟩ thenLines ⟨hy, hn, hes⟩ hts
    dsimp only
    split
    · refine .pure (.plain ?_ rfl)
      simp (disch := decide) [hy.wrapped, ht.wrapped, hn.wrapped]
    · exact emits_choice ht hts hy hes hn

omit h [HoldsGraphic p] in
lemma emits_made (hx : Emits p x (Over p)) :
    Emits p (some <$> x) fun found => ∀ f, found = some f → f.Over p := by
  refine hx.map fun f hf g same => ?_
  cases same
  exact hf

omit h [HoldsGraphic p] in
lemma emits_stop : Emits p (pure none : Compile (Option Fragment)) fun found =>
    ∀ f, found = some f → f.Over p := .pure (by simp)

lemma emits_operation (hl : left.Over p) (ho : op.Over p) (kind : BinaryOp) :
    Emits p (operation parts left op kind context) fun found => ∀ f, found = some f → f.Over p := by
  have compared : Emits p (if context.printing && op.key = ">" then return none
      else some <$> arithmetic parts left op context)
      fun found => ∀ f, found = some f → f.Over p := by
    split
    · exact emits_stop
    · exact emits_made (emits_arithmetic h hl ho)
  cases kind with
  | arithmetic | comparison => exact compared
  | and | or => exact emits_made (emits_logical h hl ho)
  | regexMatch | regexMismatch => exact emits_made (emits_matching h hl op)
  | membership => exact emits_made (emits_membership hl op)
  | pipe =>
    rw [operation]
    split
    · exact emits_stop
    · exact emits_made (emits_pipe h hl)
  | append =>
    rw [operation]
    split
    · exact emits_stop
    · exact .unexpected _
  | question => exact emits_made (emits_conditional h hl)
  | colon => exact emits_stop
  | assign => exact emits_made (emits_assignment h hl ho.python)

lemma emits_extend (hl : left.Over p) (limit : Nat) :
    Emits p (extend parts left context limit) fun found => ∀ f, found = some f → f.Over p := by
  refine .next fun token => .next fun s => ?_
  refine emits_get.bind fun session legible => ?_
  split
  case h_1 op found =>
    have ho : op.Over p := by
      rw [operatorAt] at found
      split at found <;> cases found <;> exact legible.symbols _
    split
    · split
      · exact emits_stop
      · exact emits_operation h hl ho _
    · exact emits_stop
  case h_2 =>
    split
    · split
      · exact emits_stop
      · exact emits_made (emits_subtraction h hl)
    · split
      · split
        · exact emits_stop
        · exact emits_made (emits_concatenation h hl)
      · exact emits_stop

lemma emits_rest (hl : left.Over p) (limit : Nat) :
    Emits p (rest parts left context limit) (Over p) := by
  refine (emits_extend h hl limit).bind fun found hf => ?_
  split
  case h_1 f => exact h (.rest f context limit) (hf f rfl)
  · exact .pure hl

lemma emits_sign (ho : Text.Over p python) : Emits p (sign parts python context) (Over p) := by
  refine .next fun _ => (h (.operation context _) trivial).bind fun f hf => ?_
  exact .next fun _ =>
    .pure (.plain (Text.Over.append.mpr ⟨ho, hf.wrapped _⟩) rfl)

lemma emits_negation (hs : s.Over p) : Emits p (negation parts s context) (Over p) := by
  refine .next fun _ => (h (.operation context _) trivial).bind fun f hf => ?_
  refine .next fun _ => ?_
  have text : Text.Over p s!"{s.python} {f.wrapped unaryLevel}" := by
    simp (disch := decide) [hs.python, hf.wrapped]
  split
  · exact .pure (.plain (.parenthesised text) rfl)
  · exact .pure (.plain text rfl)

omit h in
lemma emits_stepAfter (hf : f.Over p) : Emits p (stepAfter f) (Over p) := by
  rw [stepAfter]
  split
  · exact .pure hf
  · refine .next fun k => ?_
    split
    · exact .next fun _ => emits_step hf true false
    · exact .next fun _ => emits_step hf false false
    · exact .pure hf

lemma emits_signed : Emits p (signed parts context) (Over p) := by
  have operand := h (.operand context) trivial
  refine emits_symbol.bind fun s hs => ?_
  split
  · exact (emits_pythonOf _).bind fun python ho => emits_sign h ho
  · exact emits_sign h hs.python
  · exact emits_sign h hs.python
  · exact emits_negation h hs
  · exact .next fun _ => operand.bind fun f hf => emits_step hf true true
  · exact .next fun _ => operand.bind fun f hf => emits_step hf false true
  · exact operand.bind fun f hf => emits_stepAfter hf

/-- One goal only adds lines if the goals of its parts do. -/
lemma emits_reach (hg : goal.Over p) : Emits p (reach parts goal) (Over p) := by
  cases goal with
  | operation context limit =>
    exact (h (.signed context) trivial).bind fun left hl => h (.rest left context limit) hl
  | rest left context limit => exact emits_rest h hg limit
  | signed context => exact emits_signed h
  | operand context => exact emits_operand h

end Constructs

lemma emits_reachWithin (depth : Nat) : PartsEmit p (reachWithin depth) := by
  induction depth with
  | zero => exact fun _ _ => .throw _
  | succ depth ih => exact fun _ hg => emits_reach ih hg

lemma emits_compiler : PartsEmit p compiler := fun goal hg =>
  .next fun _ => emits_reachWithin _ goal hg

end Expression

namespace Compile

lemma emits_expression (context : Context) : Emits p (expression context) (Over p) :=
  Expression.emits_whole (Expression.emits_compiler)

lemma emits_condition : Emits p condition (Over p) := by
  refine (emits_expression {}).bind fun f hf => ?_
  split
  · exact .unexpected _
  · exact .pure hf

end Compile

end AwkToPython
