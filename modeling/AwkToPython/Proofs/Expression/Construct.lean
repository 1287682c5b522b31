import AwkToPython.Proofs.Expression.Plain

/-!
# The effect of every construct of an expression

Each construct is given a compiler for its parts that has the effect of an
expression, and has that effect itself.
-/
namespace AwkToPython

open Session AwkToPython.Symbol Effect Fragment

variable {s : Session}

open Python (Written Block Shows IsPlain)

namespace Expression

open Compile

/-- The expressions of a compiler of parts begin plainly. -/
def Leads (parts : Parts) : Prop :=
  ∀ context limit s f s', s.Sound → parts (.operation context limit) s = .ok f s' →
    f.Plain s'.table

variable {parts : Parts} [hp : ∀ g, Moves (parts g)] {context : Context} {limit : Nat}

instance moves_whole : Moves (whole parts context) := by
  unfold whole
  infer_instance

section Items

variable {α : Type} {afterComma : Compile Unit} {item : Compile α} [Moves afterComma] [Moves item]

instance moves_moreItems (fuel : Nat) (found : List α) :
    Moves (moreItems afterComma item fuel found) := by
  induction fuel generalizing found with
  | zero => exact moves_throw _
  | succ fuel ih =>
    unfold moreItems
    infer_instance

instance moves_items : Moves (items afterComma item) := by
  unfold items
  infer_instance

end Items

instance moves_arguments : Moves (arguments parts context) := by
  unfold arguments
  infer_instance

instance moves_subscript {afterComma : Compile Unit} [Moves afterComma] :
    Moves (subscript parts afterComma) := by
  unfold subscript
  infer_instance

/-! ### Assignments and increments -/

instance moves_updateField (index : String) (update : String → String) (keepOld : Bool) :
    Moves (updateField index update keepOld) := by
  refine ⟨fun {s} sound => ?_⟩
  rw [updateField, nextTemporary_bind]
  have counted := (refl sound).count (Nat.le_succ _)
  have temporary : ∀ text, IsPlain (s!"field_{s.temporaries + 1}" ++ text) :=
    IsPlain.append (IsPlain.append (by decide) _)
  dsimp only
  split
  · rw [pure_bind]
    refine (moves_emit ((temporary _).append _)).bind counted fun _ _ _ e => ?_
    exact (moves_emit (isPlain_setField _ _)).bind e fun _ _ _ e => e
  · have index : IsPlain s!"field_index_{s.temporaries + 1} = {index}" :=
      ((IsPlain.append (by decide) _).append _).append _
    refine (moves_emit index).bind counted fun _ _ _ e => ?_
    rw [pure_bind]
    refine (moves_emit ((temporary _).append _)).bind e fun _ _ _ e => ?_
    exact (moves_emit (isPlain_setField _ _)).bind e fun _ _ _ e => e

instance moves_assignment (left : Fragment) (op : String) :
    MovesInside (assignment parts left op context) := by
  unfold assignment
  split
  · infer_instance
  case h_2 target _ => cases target <;> infer_instance

instance moves_step (operand : Fragment) (increment before : Bool) :
    Moves (step operand increment before) := by
  unfold step
  split <;> infer_instance

/-! ### Calls of built-in functions -/

instance moves_regexForString (id : SymbolId) (text : String) :
    Moves (do
      if ((← get).table.symbol id).kind = .string then pythonOf (← intern (·.regexForString id))
      else return text) := by
  refine ⟨fun {s} sound => ?_⟩
  rw [get_bind]
  split
  case isTrue string =>
    rw [intern_bind]
    exact (refl sound).grow
      (Table.grows_regexForString _ (sound.proper.regular id) string)
  case isFalse => exact .refl sound

instance moves_regexOperand : Moves (regexOperand parts context limit) := by
  refine .next fun token => @moves_ifKind _ _ _ _ _ _ (.next fun f => .next fun _ => ?_)
  split <;> infer_instance

instance moves_length : MovesInside (length parts) := by
  refine .next fun _ => .next fun paren => ?_
  split
  · infer_instance
  · refine .next fun args => ?_
    split
    · infer_instance
    · split <;> infer_instance
    · infer_instance

instance moves_substr (args : List Fragment) : Moves (substr args) := by
  unfold substr
  split
  · split <;> infer_instance
  · split <;> infer_instance
  · infer_instance

instance moves_matchCall : MovesInside (matchCall parts) := by
  unfold matchCall
  infer_instance

instance moves_splitBy (subject : String) : Moves (splitBy parts subject) := by
  refine ⟨fun {s} sound => ?_⟩
  rw [splitBy, current_bind, symbol_bind, peek_bind, symbolOf_bind]
  have past : s.symbol.kind = .regex ∨ s.symbol.kind = .string →
      s.Effect { s with cursor := s.cursor.advance } := fun k =>
    (refl sound).advance (by rcases k with k | k <;> rw [isInner, k])
  dsimp only
  split
  case isTrue k => exact past (.inl k)
  case isFalse =>
    split
    case isTrue k =>
      have e := past (.inr (of_decide_eq_true (Bool.and_eq_true_iff.mp k).1))
      rw [advance_bind]
      split
      · exact e
      · split
        · exact e
        · rw [intern_bind]
          exact e.grow (Table.grows_regexForString _ (e.sound.proper.regular _)
            (of_decide_eq_true (Bool.and_eq_true_iff.mp k).1))
    case isFalse => exact moves_whole.bind (.refl sound) fun _ _ _ e => e

instance moves_split : MovesInside (split parts context) := by
  refine ⟨fun {s} sound inner => ?_⟩
  rw [split, advance_bind]
  refine (moves_expectBracket _ _).bind ((refl sound).advance inner)
    fun _ _ _ e => ?_
  refine moves_whole.bind e fun subject _ _ e => ?_
  refine moves_expectComma.bind e fun _ s1 _ e => ?_
  rw [current_bind, symbol_bind]
  -- what follows the array's name, whatever gives the pieces
  have ending : ∀ (array pieces : String) (s2 : Session), IsPlain array → s.Effect s2 →
      s.Effect (after ((do
        expectBracket .closeParen ")"
        let assignment := s!"{array} = self._to_array({pieces})"
        if context.statement && (← atStatementEnd) then return .atom assignment
        emit assignment
        return { atom s!"len({array})" with hoisted := true } : Compile Fragment) s2)) := by
    intro array pieces s2 plain e
    refine (moves_expectBracket _ _).bind e fun _ s3 _ e => ?_
    rw [atStatementEnd_bind]
    split
    · exact e
    · exact (moves_emit (((plain.append _).append _).append _)).bind e fun _ _ _ e => e
  split
  · exact e
  case isFalse var =>
    have isVar : s1.symbol.isVariable = true := by simpa using var
    refine (moves_markArray _ _).bind e fun _ s2 run e2 => ?_
    obtain ⟨t, grows, rfl⟩ := markArray_ok run
    have array : IsPlain (t.symbol s1.cursor.current.symbol).python := by
      rw [python_of_word (grows.word _ e.sound.current.valid)]
      exact e.sound.current.regular.plain (beginsText_of_isVariable isVar)
    rw [pythonOf_bind, advance_bind, atKind_bind]
    have e3 := e2.advance ((isInner_of_grows e.sound grows).trans (isInner_of_isVariable isVar))
    split
    case isTrue at_ =>
      rw [advance_bind, skipNewlines_bind]
      refine (moves_splitBy _).bind (e3.advance ?_).skipNewlines
        fun pieces _ _ e => ending _ _ _ array e
      rw [Session.symbol, isInner, of_decide_eq_true at_]
    case isFalse => exact ending _ _ _ array e3

instance looks_replacement (f : Fragment) : Looks (replacement f) := by
  refine ⟨fun s => ?_⟩
  unfold replacement
  cases f.literal with
  | none => exact ⟨_, rfl⟩
  | some id =>
    simp only [get_bind]
    split <;> exact ⟨_, rfl⟩

lemma moves_writeSubstitution (n : Nat) (call : String → String) {target : Option Fragment}
    (plain : ∀ f ∈ target, f.Plain t) : Moves (writeSubstitution n call target) := by
  have counted : ∀ text, IsPlain (s!"target_{n}, num_changed_{n} = " ++ text) :=
    IsPlain.append ((((IsPlain.append (by decide) _).append _).append _).append _)
  have record : Moves (writeSubstitution.record n call) := ⟨fun sound =>
    (moves_emit (counted _)).bind (.refl sound) fun _ _ _ e =>
      (moves_emit ((IsPlain.append (by decide) _).append _)).then e⟩
  cases target with
  | none => exact record
  | some target =>
    have plain := plain target rfl
    rw [writeSubstitution]
    rcases ht : target.target with _ | (_ | _ | index)
    · exact moves_emit (IsPlain.append (IsPlain.append (IsPlain.append (by decide) _) _) _)
    · exact moves_emit ((((plain.text.append _).append _).append _).append _)
    · exact moves_emit (((((((plain.base _ _ ht).append _).append _).append _).append _).append
        _).append _)
    · dsimp only
      split
      · exact record
      · exact ⟨fun sound => (moves_emit (counted _)).bind (.refl sound) fun _ _ _ e =>
          (moves_emit ((((IsPlain.append (by decide) _).append _).append _).append _)).then e⟩

omit hp in
lemma whole_plain (hl : Leads parts)
    (sound : s.Sound) (run : whole parts context s = .ok f s') : f.Plain s'.table := by
  rw [whole] at run
  obtain ⟨g, s1, inner, run⟩ := bind_ok.mp run
  have plain := hl _ _ _ _ _ sound inner
  dsimp only at run
  split at run
  · obtain ⟨_, s2, use, run⟩ := bind_ok.mp run
    obtain ⟨t, grows, rfl⟩ := useAsScalar_ok use
    cases run
    exact plain.grows grows
  · cases run
    exact plain

lemma moves_substitute (hl : Leads parts) (everywhere : Bool) :
    MovesInside (substitute parts everywhere) := by
  refine ⟨fun {s} sound inner => ?_⟩
  rw [substitute, advance_bind]
  refine (moves_expectBracket _ _).bind ((refl sound).advance inner)
    fun _ _ _ e => ?_
  refine moves_regexOperand.bind e fun regex _ _ e => ?_
  refine moves_expectComma.bind e fun _ _ _ e => ?_
  refine moves_whole.bind e fun _ _ _ e => ?_
  refine Looks.moves.bind e fun new s1 _ e => ?_
  rw [atKind_bind]
  -- the lines of the substitution, with or without a target
  have ending : ∀ (target : Option Fragment) (s2 : Session) (t : Table),
      (∀ f ∈ target, f.Plain t) → s.Effect s2 →
      s.Effect (after ((do
        expectBracket .closeParen ")"
        let n ← nextTemporary
        let count := if everywhere then 0 else 1
        writeSubstitution n (fun subject => s!"{regex}.subn({new}, {subject}, {count})") target
        return { atom s!"num_changed_{n}" with hoisted := true } : Compile Fragment) s2)) := by
    intro target s2 t plain e
    refine (moves_expectBracket _ _).bind e fun _ s3 _ e => ?_
    rw [nextTemporary_bind]
    exact (moves_writeSubstitution _ _ plain).bind (e.count (Nat.le_succ _)) fun _ _ _ e => e
  split
  case isTrue at_ =>
    rw [advance_bind, skipNewlines_bind]
    have e' := (e.advance (by rw [Session.symbol, isInner, of_decide_eq_true at_])).skipNewlines
    refine Moves.map.bind e' fun target s2 run e => ?_
    obtain ⟨f, made, rfl⟩ := map_ok.mp run
    have plain := whole_plain hl e'.sound made
    exact ending (some f) _ s2.table (fun g mem => Option.mem_some.mp mem ▸ plain) e
  case isFalse => exact ending none _ s1.table (fun f mem => absurd mem (Option.not_mem_none f)) e

instance stays_noteCall (call : SymbolId × Nat) :
    Stays (modify fun s : Session => { s with calls := s.calls ++ [call] }) :=
  ⟨fun _ run => by cases run; rfl⟩

instance moves_noteCall (call : SymbolId × Nat) :
    Moves (modify fun s : Session => { s with calls := s.calls ++ [call] }) :=
  ⟨fun sound => (refl sound).note⟩

instance moves_userCall (token : Token) : MovesInside (userCall parts token) := by
  unfold userCall
  infer_instance

instance moves_plainCall (symbol : Symbol) (strategy : Strategy) :
    MovesInside (plainCall parts symbol strategy context) := by
  refine .next fun _ => .next fun args => ?_
  split
  · split <;> infer_instance
  · split <;> infer_instance
  all_goals infer_instance

/-- A library is noted first; the cursor and the table stay. -/
instance stays_libraries (library : Option String) : Stays (library.forM requireLibrary) := by
  refine ⟨fun {s s' _} _ run => ?_⟩
  have same : s' = after (library.forM requireLibrary s) := by rw [run]; rfl
  rw [same]
  cases library with
  | none => rfl
  | some library =>
    have kept : after (requireLibrary library s) =
        if s.imports.contains library then s
        else { s with imports := s.imports ++ [library] } := rfl
    change (after (requireLibrary library s)).symbol.isInner = _
    rw [kept]
    split <;> rfl

instance moves_libraries (library : Option String) : Moves (library.forM requireLibrary) := by
  cases library with
  | none => exact moves_pure ()
  | some library => exact moves_requireLibrary library

lemma moves_call (hl : Leads parts) (token : Token) (function : Function) :
    MovesInside (call parts token function context) := by
  have substituted := moves_substitute hl
  refine Stays.next fun _ => ?_
  split <;> infer_instance

/-! ### Operands -/

instance moves_computedField : MovesInside (computedField parts context) := by
  refine .next fun _ => .next fun k => ?_
  split <;> infer_instance

instance moves_group : MovesInside (group parts context) := by
  refine .next fun _ => .next fun _ => .next fun members => .next fun _ => .next fun _ => ?_
  split <;> infer_instance

instance moves_variableOperand (token : Token) :
    MovesInside (variableOperand parts token context) := by
  refine ⟨fun {s} sound inner => ?_⟩
  rw [variableOperand, peek_bind, symbolOf_bind, pythonOf_bind]
  split
  · exact (moves_userCall token).effect sound inner
  · split
    case isTrue bracket =>
      refine (moves_markArray _ _).bind (.refl sound) fun _ s1 run e => ?_
      obtain ⟨t, grows, rfl⟩ := markArray_ok run
      rw [advance_bind, advance_bind]
      have e1 := e.advance (by rw [isInner_of_grows sound grows]; exact inner)
      have atBracket : (t.symbol s.cursor.advance.current.symbol).kind = .bracket .openBracket := by
        rw [sound.advance_current bracket (by simp) (by simp)]
        exact kind_of_word (grows.word _ (sound.peek 1).valid) bracket (by simp)
      refine moves_subscript.bind (e1.advance ?_) fun _ _ _ e => e
      rw [Session.symbol, isInner, atBracket]
    case isFalse => exact (refl sound).advance inner

instance moves_getlineTarget : Moves (getlineTarget parts) := by
  refine .next fun k => ?_
  split <;> infer_instance

instance moves_getlineSource (command : Option String) : Moves (getlineSource parts command) := by
  refine ⟨fun {s} sound => ?_⟩
  cases command with
  | some command => exact .refl sound
  | none =>
    rw [getlineSource, atKey_bind]
    split
    case isTrue at_ =>
      rw [advance_bind]
      refine (hp _).bind ((Session.Effect.refl sound).advance
        (Session.Sound.isInner_of_key sound (of_decide_eq_true at_))) fun _ _ _ e => ?_
      exact (moves_useAsScalar _).bind e fun _ _ _ e => e
    case isFalse => exact .refl sound

instance stays_needMainLoop : Stays needMainLoop := ⟨fun _ run => by cases run; rfl⟩

instance moves_needMainLoop : Moves needMainLoop :=
  ⟨fun sound => (refl sound).note⟩

instance moves_getline (command : Option String) : MovesInside (getline parts command) := by
  refine Stays.next fun _ => .next fun _ => .next fun target => .next fun source => ?_
  split <;> infer_instance

lemma moves_operand (hl : Leads parts) : Moves (operand parts context) := by
  refine ⟨fun {s} sound => ?_⟩
  have called : ∀ token function, MovesInside (call parts token function context) := moves_call hl
  rw [operand, current_bind, symbol_bind]
  have inside : ∀ {x : Compile Fragment} [MovesInside x], s.symbol.isInner = true →
      s.Effect (after (x s)) := fun inner => MovesInside.effect sound inner
  cases hk : s.symbol.kind with
  | field index => cases index <;> exact inside (by rw [isInner, hk])
  | number | string | regex | var | function => exact inside (by rw [isInner, hk])
  | bracket bracket =>
    cases bracket with
    | openParen => exact inside (by rw [isInner, hk])
    | _ => exact .refl sound
  | keyword keyword =>
    cases keyword with
    | getline => exact inside (by rw [isInner, hk]; rfl)
    | _ => exact .refl sound
  | _ => exact .refl sound

/-! ### Operators -/

/-- The lines of a guarded operand: the left side, then what runs unless it decides. -/
lemma guarded_run (sound : s.Sound) (left right : Fragment) (conjunction : Bool)
    (lines : List String) : ∃ first test last,
      Shows s.listing.depth s!"cond_{s.temporaries + 1}={left.text}" first ∧
      Shows s.listing.depth ((if conjunction then "if " else "if not ") ++
        s!"cond_{s.temporaries + 1}" ++ ":") test ∧
      Shows (s.listing.depth + 1) s!"cond_{s.temporaries + 1}={right.text}" last ∧
      guarded left conjunction lines right s =
        .ok { atom s!"cond_{s.temporaries + 1}" with
          assigns := left.assigns || right.assigns, hoisted := true }
        (written { s with temporaries := s.temporaries + 1 }
          (first ++ test ++ (Listing.deeper 1 lines ++ last))) := by
  let s0 : Session := { s with temporaries := s.temporaries + 1 }
  have sound0 : s0.Sound := sound.same rfl rfl
  obtain ⟨first, run1, shows1⟩ := emit_run sound0 s!"cond_{s.temporaries + 1}={left.text}"
  obtain ⟨test, run2, shows2⟩ := emit_run (sound0.written first)
    ((if conjunction then "if " else "if not ") ++ s!"cond_{s.temporaries + 1}" ++ ":")
  obtain ⟨last, shows3, run3⟩ := emit_inside ((sound0.written first).written test) lines
    s!"cond_{s.temporaries + 1}={right.text}" fun _ =>
      (pure { atom s!"cond_{s.temporaries + 1}" with
        assigns := left.assigns || right.assigns, hoisted := true } : Compile Fragment)
  refine ⟨first, test, last, shows1, by simpa using shows2, by simpa using shows3, ?_⟩
  rw [guarded, nextTemporary_bind]
  refine bind_ok.mpr ⟨_, _, run1, bind_ok.mpr ⟨_, _, run2, ?_⟩⟩
  exact run3.trans (by simp [s0])

lemma guarded_effect (sound : s.Sound) (left right : Fragment) (conjunction : Bool)
    (straight : b.Straight)
    (written : Written Eq s.listing.depth b lines) :
    s.Effect (after (guarded left conjunction lines right s)) := by
  obtain ⟨first, test, last, shows1, shows2, shows3, run⟩ :=
    guarded_run sound left right conjunction lines
  rw [run]
  have temporary : ∀ text, IsPlain s!"cond_{s.temporaries + 1}={text}" :=
    IsPlain.append (IsPlain.append (IsPlain.append (by decide) _) _)
  let guard := (if conjunction then "" else "not ") ++ s!"cond_{s.temporaries + 1}"
  have text : "if " ++ guard = (if conjunction then "if " else "if not ") ++
      s!"cond_{s.temporaries + 1}" := by
    cases conjunction <;> simp [guard, ← String.append_assoc]
  have shows₂' : Shows s.listing.depth ("if " ++ guard ++ ":") test := text ▸ shows2
  have whole : Written Eq s.listing.depth (.line (.plain _) (.when (.holds guard) _ .done))
      (first ++ (test ++ _ ++ [])) :=
    .line (.plain _) shows1 (.when (.holds rfl) shows₂' (written.under (.plain _) shows3) .done)
  rw [List.append_nil, ← List.append_assoc] at whole
  exact ((refl sound).count (Nat.le_succ _)).write
    (.line (temporary _)
      (.when _ (Block.isDone_append_line _ _ _)
        (straight.append (.line (temporary _) .done)) .done)) whole

/-- The lines of a choice: the test, then one side or the other. -/
lemma choice_run (sound : s.Sound) (test yes no : Fragment)
    (thenLines elseLines : List String) : ∃ first yesLast second noLast,
      Shows s.listing.depth s!"if {test.text}:" first ∧
      Shows (s.listing.depth + 1) s!"choice_{s.temporaries + 1}={yes.text}" yesLast ∧
      Shows s.listing.depth "else:" second ∧
      Shows (s.listing.depth + 1) s!"choice_{s.temporaries + 1}={no.text}" noLast ∧
      choice test thenLines yes elseLines no s =
        .ok { atom s!"choice_{s.temporaries + 1}" with
          assigns := test.assigns || yes.assigns || no.assigns
          isString := yes.isString && no.isString
          hoisted := true }
        (written { s with temporaries := s.temporaries + 1 }
          (first ++ (Listing.deeper 1 thenLines ++ yesLast) ++ second ++
            (Listing.deeper 1 elseLines ++ noLast))) := by
  let s0 : Session := { s with temporaries := s.temporaries + 1 }
  have sound0 : s0.Sound := sound.same rfl rfl
  let result : Fragment := { atom s!"choice_{s.temporaries + 1}" with
    assigns := test.assigns || yes.assigns || no.assigns
    isString := yes.isString && no.isString
    hoisted := true }
  let noText := s!"choice_{s.temporaries + 1}={no.text}"
  obtain ⟨first, run1, shows1⟩ := emit_run sound0 s!"if {test.text}:"
  obtain ⟨yesLast, shows2, run2⟩ := emit_inside (sound0.written first) thenLines
    s!"choice_{s.temporaries + 1}={yes.text}" fun _ => do
      emit "else:"; appendLines elseLines 1; indent; emit noText; dedent; return result
  let s2 := (s0.written first).written (Listing.deeper 1 thenLines ++ yesLast)
  have sound2 : s2.Sound := (sound0.written first).written _
  obtain ⟨second, run3, shows3⟩ := emit_run sound2 "else:"
  obtain ⟨noLast, shows4, run4⟩ := emit_inside (sound2.written second) elseLines noText
    fun _ => (pure result : Compile Fragment)
  refine ⟨first, yesLast, second, noLast, shows1, by simpa using shows2, by simpa [s2] using shows3,
    by simpa [s2, s0, noText] using shows4, ?_⟩
  rw [choice, nextTemporary_bind]
  refine bind_ok.mpr ⟨_, _, run1, run2.trans (bind_ok.mpr ⟨_, _, run3, ?_⟩)⟩
  exact run4.trans (by simp [s0, s2, result])

lemma choice_effect (sound : s.Sound) (test yes no : Fragment) (straight : b.Straight)
    (straight' : b'.Straight) (written : Written Eq s.listing.depth b thenLines)
    (written' : Written Eq s.listing.depth b' elseLines) :
    s.Effect (after (choice test thenLines yes elseLines no s)) := by
  obtain ⟨first, yesLast, second, noLast, shows1, shows2, shows3, shows4, run⟩ :=
    choice_run sound test yes no thenLines elseLines
  have temporary : ∀ text, IsPlain s!"choice_{s.temporaries + 1}={text}" :=
    IsPlain.append (IsPlain.append (IsPlain.append (by decide) _) _)
  rw [run]
  have whole : Written Eq s.listing.depth (.choose (.holds test.text) _ _ .done) _ :=
    .choose (.holds rfl) shows1 (written.under (.plain _) shows2) shows3
      (written'.under (.plain _) shows4) .done
  rw [List.append_nil] at whole
  exact ((refl sound).count (Nat.le_succ _)).write
    (.choose _ (Block.isDone_append_line _ _ _) (Block.isDone_append_line _ _ _)
      (straight.append (.line (temporary _) .done))
      (straight'.append (.line (temporary _) .done)) .done) whole

instance moves_subtraction (left : Fragment) : MovesInside (subtraction parts left context) := by
  unfold subtraction
  infer_instance

instance moves_concatenation (left : Fragment) : Moves (concatenation parts left context) := by
  unfold concatenation
  infer_instance

instance moves_arithmetic (left : Fragment) (op : Symbol) :
    MovesInside (arithmetic parts left op context) := by
  unfold arithmetic
  infer_instance

instance moves_logical (left : Fragment) (op : Symbol) :
    MovesInside (logical parts left op context) := by
  refine ⟨fun {s} sound inner => ?_⟩
  rw [logical, advance_bind, skipNewlines_bind, mark_bind]
  have e0 := ((refl sound).advance inner).skipNewlines
  -- the right side starts from a session of its own, where the mark was set
  generalize hs1 : ({ s with cursor := s.cursor.advance.skip Token.isNewline } : Session) =
    s1 at e0 ⊢
  refine e0.trans ?_
  refine (hp _).bind (.refl e0.sound) fun right _ _ e => ?_
  refine (moves_useAsScalar _).bind e fun _ _ _ e => ?_
  refine (moves_useAsScalar _).bind e fun _ s2 _ e => ?_
  obtain ⟨b, lines, taken, straight, written⟩ := e.takeSince
  rw [takeSince_bind, taken]
  split
  · exact e.takeBack
  · exact e.takeBack.trans (guarded_effect e.takeBack.sound left right _ straight written)

instance moves_matching (left : Fragment) (op : Symbol) :
    MovesInside (matching parts left op context) := by
  unfold matching
  infer_instance

instance moves_membership (left : Fragment) (op : Symbol) : MovesInside (membership left op) := by
  refine ⟨fun {s} sound inner => ?_⟩
  rw [membership, advance_bind, current_bind, symbol_bind]
  have e := (refl sound).advance inner
  split
  · exact e
  case isFalse var =>
    refine (moves_markArray _ _).bind e fun _ s2 run e2 => ?_
    rw [pythonOf_bind, advance_bind]
    have inner2 : s2.symbol.isInner = true := by
      obtain ⟨t, grows, rfl⟩ := markArray_ok run
      rw [isInner_of_grows e.sound grows]
      exact isInner_of_isVariable (by simpa using var)
    exact (moves_useAsScalar _).bind (e2.advance inner2) fun _ _ _ e => e

instance moves_pipe (left : Fragment) : MovesInside (pipe parts left) := by
  unfold pipe
  infer_instance

instance moves_conditional (test : Fragment) : MovesInside (conditional parts test context) := by
  refine ⟨fun {s} sound inner => ?_⟩
  rw [conditional, advance_bind, skipNewlines_bind, mark_bind]
  have e0 := ((refl sound).advance inner).skipNewlines
  generalize hs1 : ({ s with cursor := s.cursor.advance.skip Token.isNewline } : Session) =
    s1 at e0 ⊢
  refine e0.trans ?_
  refine (hp _).bind (.refl e0.sound) fun yes s2 _ e => ?_
  rw [skipNewlines_bind, atKind_bind]
  split
  · exact e.skipNewlines
  case isFalse found =>
    simp only [Bool.not_eq_true', decide_eq_false_iff_not, not_not] at found
    simp only [advance_bind, skipNewlines_bind, mark_bind]
    have e1 := (e.skipNewlines.advance (by
      rw [Session.symbol, isInner, found])).skipNewlines
    generalize hs3 : ({ s2 with cursor :=
      (s2.cursor.skip Token.isNewline).advance.skip Token.isNewline } : Session) = s3 at e1 ⊢
    refine (hp _).bind e1 fun no s4 run4 e4 => ?_
    refine (moves_useAsScalar _).bind e4 fun _ s5 run5 e5 => ?_
    refine (moves_useAsScalar _).bind e5 fun _ s6 run6 e6 => ?_
    refine (moves_useAsScalar _).bind e6 fun _ s7 run7 e7 => ?_
    -- the second mark lies behind the first, so its lines are taken out first
    have since : s3.Effect s7 := (((hp _).ok e1.sound run4).trans
      ((moves_useAsScalar _).ok e4.sound run5)).trans
      (((moves_useAsScalar _).ok e5.sound run6).trans ((moves_useAsScalar _).ok e6.sound run7))
    obtain ⟨b', elseLines, taken', straight', written'⟩ := since.takeSince
    obtain ⟨b, thenLines, taken, straight, written⟩ := e1.takeSince
    rw [e1.depth] at written'
    rw [show s3.listing = s2.listing by rw [← hs3]] at taken taken'
    rw [takeSince_bind, taken', takeSince_bind, taken]
    split
    · exact e7.takeBack
    · exact e7.takeBack.trans
        (choice_effect e7.takeBack.sound test yes no straight straight' written written')

instance moves_operation (left : Fragment) (op : Symbol) (kind : BinaryOp) :
    MovesInside (operation parts left op kind context) := by
  cases kind <;> unfold operation <;> infer_instance

instance moves_extend (left : Fragment) : Moves (extend parts left context limit) := by
  refine ⟨fun {s} sound => ?_⟩
  rw [extend, current_bind, symbol_bind, get_bind]
  cases ho : operatorAt s.table s.cursor.current with
  | some op =>
    dsimp only
    have inner : s.symbol.isInner = true := by
      rw [operatorAt] at ho
      rw [isInner]
      cases hk : s.symbol.kind <;> simp_all
    cases hk : op.kind with
    | binary kind =>
      dsimp only
      split
      · exact .refl sound
      · exact (moves_operation left op kind).effect sound inner
    | _ => exact .refl sound
  | none =>
    dsimp only
    split
    case isTrue number =>
      have k : s.symbol.kind = .number := of_decide_eq_true (Bool.and_eq_true_iff.mp number).1
      split
      · exact .refl sound
      · exact MovesInside.map.effect sound (by rw [isInner, k])
    case isFalse =>
      split
      · split
        · exact .refl sound
        · exact Moves.map.effect sound
      · exact .refl sound

instance moves_rest (left : Fragment) : Moves (rest parts left context limit) := by
  refine .next fun extended => ?_
  split <;> infer_instance

instance moves_sign (python : String) : MovesInside (sign parts python context) := by
  unfold sign
  infer_instance

instance moves_negation (symbol : Symbol) : MovesInside (negation parts symbol context) := by
  unfold negation
  infer_instance

instance moves_stepAfter (operand : Fragment) : Moves (stepAfter operand) := by
  refine ⟨fun {s} sound => ?_⟩
  rw [stepAfter]
  split
  · exact .refl sound
  · rw [kind_bind]
    have past : s.symbol.isInner = true → ∀ increment, s.Effect (after (step operand increment false
        { s with cursor := s.cursor.advance })) := fun inner increment =>
      (moves_step operand increment false).then ((refl sound).advance inner)
    cases hk : s.symbol.kind with
    | unary op =>
      have inner : s.symbol.isInner = true := by rw [isInner, hk]
      cases op with
      | increment => exact past inner true
      | decrement => exact past inner false
      | _ => exact .refl sound
    | _ => exact .refl sound

instance moves_signed : Moves (signed parts context) := by
  refine ⟨fun {s} sound => ?_⟩
  rw [signed, symbol_bind]
  have inside : ∀ {x : Compile Fragment} [MovesInside x], s.symbol.isInner = true →
      s.Effect (after (x s)) := fun inner => MovesInside.effect sound inner
  have plain : Moves (do stepAfter (← parts (.operand context))) := inferInstance
  cases hk : s.symbol.kind with
  | ambiguous unary binary => exact inside (by rw [isInner, hk])
  | unary op => cases op <;> exact inside (by rw [isInner, hk])
  | _ => exact plain.effect sound

lemma moves_reach (hl : Leads parts) (goal : Goal) : Moves (reach parts goal) := by
  have operand : ∀ context, Moves (operand parts context) := fun _ => moves_operand hl
  cases goal <;> unfold reach <;> infer_instance

end Expression

end AwkToPython
