import AwkToPython.Proofs.Expression.Construct

/-!
# Every expression has its effect and its reading

The compiler of parts is built in depth from the constructs. By induction on the
depth, whatever it compiles has the effect of an expression, and what it compiled
was read by the rules.
-/
namespace AwkToPython

variable {fs : List Fragment} {text : String}
variable {s s' s0 : Session} {afterComma afterItem : Bool} {comma : Compile Unit}
  {item : Compile Fragment} {args : List Fragment} {target : Option Target}
  {command : Option String} {context : Context} {f : Fragment}

open Compile AwkToPython.Symbol Session Expression

namespace Awk

open Table

variable {table : Table} {t : Token} {symbol : Symbol} {unary binary : SymbolId} {op : BinaryOp}
  {parts : Parts} {left : Fragment} {limit : Nat}

/-! ### Where an operand goes on -/

lemma operatorAt_ambiguous (h : (table.symbol t.symbol).kind = .ambiguous unary binary) :
    operatorAt table t = some (table.symbol binary) := by
  simp [operatorAt, h]

lemma operatorAt_binary (h : (table.symbol t.symbol).kind = .binary op) :
    operatorAt table t = some (table.symbol t.symbol) := by
  simp [operatorAt, h]

lemma binary_of_paired (marked : table.Marked)
    (paired : symbol.isPaired = true) (kind : symbol.kind = .ambiguous unary binary) :
    binary < table.size ∧ (table.symbol binary).kind = .binary .arithmetic := by
  simp only [isPaired, kind, Bool.and_eq_true, decide_eq_true_eq] at paired
  exact ⟨Nat.lt_of_lt_of_le paired.1.1.1 marked.size,
    kind_of_word (marked.word _ paired.1.1.1) paired.1.1.2 (by simp)⟩

lemma isInner_of_operatorAt (h : operatorAt table t = some symbol) :
    (table.symbol t.symbol).isInner = true := by
  cases hk : (table.symbol t.symbol).kind with
  | ambiguous | binary => simp [isInner, hk]
  | _ => simp [operatorAt, hk] at h

lemma extend_none
    {s : Session} (h : continues s.table s.cursor.current context.printing limit = false) :
    extend parts left context limit s = .ok none s := by
  rw [extend, current_bind, symbol_bind, get_bind]
  cases found : operatorAt s.table s.cursor.current with
  | some op =>
    simp only [continues, found, Bool.and_eq_false_iff, decide_eq_false_iff_not] at h
    cases hk : op.kind with
    | binary kind =>
      simp only [hk]
      split
      case isTrue => rfl
      case isFalse below =>
        rcases h with (h | h) | h
        · omega
        · simp only [hk, ne_eq, Decidable.not_not, SymbolKind.binary.injEq] at h
          rw [h]
          rfl
        · simp only [Bool.not_eq_false', Bool.and_eq_true, redirects, hk] at h
          cases kind <;> simp_all [operation]
    | _ =>
      simp only [hk]
      rfl
  | none =>
    simp only [continues, found] at h
    split at h
    case isTrue number =>
      have below := of_decide_eq_false h
      simp only [number, if_true]
      rw [if_pos (Nat.not_lt.mp below)]
      rfl
    case isFalse number =>
      rw [if_neg number]
      split
      case isTrue starts =>
        simp only [starts, Bool.true_and, decide_eq_false_iff_not] at h
        rw [if_pos (Nat.not_lt.mp h)]
        rfl
      case isFalse => rfl

lemma continues_of_extend
    {s s' : Session} (sound : s.Sound) (run : extend parts left context limit s = .ok none s') :
    s' = s ∧ continues s.table s.cursor.current context.printing limit = false := by
  have lifted : ∀ {x : Compile Fragment}, (some <$> x) s ≠ .ok none s' := fun {x} run => by
    obtain ⟨_, -, same⟩ := map_ok.mp run
    cases same
  rw [extend, current_bind, symbol_bind, get_bind] at run
  cases found : operatorAt s.table s.cursor.current with
  | some op =>
    simp only [found] at run
    obtain ⟨kind, hk⟩ : ∃ kind, op.kind = .binary kind := by
      have paired := sound.current.regular.paired
      cases hk : s.symbol.kind with
      | ambiguous unary binary =>
        rw [operatorAt_ambiguous hk] at found
        cases found
        exact ⟨_, (binary_of_paired sound.marked paired hk).2⟩
      | binary kind =>
        rw [operatorAt_binary hk] at found
        cases found
        exact ⟨kind, hk⟩
      | _ => simp [operatorAt, hk] at found
    simp only [hk] at run
    simp only [continues, found, hk, redirects]
    split at run
    case isTrue above =>
      cases run
      exact ⟨rfl, by simp [Nat.not_lt.mpr above]⟩
    case isFalse =>
      cases kind with
      | arithmetic | comparison =>
        simp only [operation] at run
        split at run
        case isTrue redirect =>
          cases run
          exact ⟨rfl, by simp_all⟩
        case isFalse => exact absurd run lifted
      | pipe =>
        simp only [operation] at run
        split at run
        case isTrue redirect =>
          cases run
          exact ⟨rfl, by simp [redirect]⟩
        case isFalse => exact absurd run lifted
      | append =>
        simp only [operation] at run
        split at run
        case isTrue redirect =>
          cases run
          exact ⟨rfl, by simp [redirect]⟩
        case isFalse => cases run
      | colon =>
        cases run
        exact ⟨rfl, by simp⟩
      | _ => exact absurd run lifted
  | none =>
    simp only [found] at run
    simp only [continues, found]
    split at run
    case isTrue number =>
      rw [if_pos number]
      split at run
      case isTrue above =>
        cases run
        exact ⟨rfl, decide_eq_false (Nat.not_lt.mpr above)⟩
      case isFalse => exact absurd run lifted
    case isFalse number =>
      rw [if_neg number]
      split at run
      case isTrue starts =>
        split at run
        case isTrue above =>
          cases run
          exact ⟨rfl, by simp [Nat.not_lt.mpr above]⟩
        case isFalse => exact absurd run lifted
      case isFalse starts =>
        cases run
        exact ⟨rfl, by simp [starts]⟩

end Awk

namespace Expression

/-- What a compiler of parts compiles is read by the rules. -/
def Faithful (parts : Parts) : Prop :=
  ∀ goal s f s', s.Sound → parts goal s = .ok f s' → Reads (.goal goal) s [f] s'

section Constructs

variable {parts : Parts} {s s' : Session} {f : Fragment} {context : Context} {limit : Nat}
  {function : Function}
variable [∀ g, Moves (parts g)] (hr : Faithful parts)
include hr

lemma reads_whole (sound : s.Sound)
    (run : whole parts context s = .ok f s') : Reads (.whole context) s [f] s' := by
  have e := Moves.ok inferInstance sound run
  rw [whole] at run
  obtain ⟨g, s1, inner, run⟩ := bind_ok.mp run
  have read := hr _ _ _ _ sound inner
  dsimp only at run
  split at run
  case isTrue =>
    obtain ⟨_, s2, use, run⟩ := bind_ok.mp run
    cases run
    exact .whole e read use
  case isFalse argument =>
    cases run
    exact .argument e (by simpa using argument) read

/-- How the items of a list are passed, and what is passed after a comma. -/
structure Lists (context : Context) (afterComma afterItem : Bool) (comma : Compile Unit)
    (item : Compile Fragment) : Prop where
  comma : ∀ s s', comma s = .ok () s' → s' = passLines afterComma s
  item : ∀ s f s', s.Sound → item s = .ok f s' →
    ∃ s1, Reads (.whole context) s [f] s1 ∧ s' = passLines afterItem s1

omit hr in
lemma effect_passLines (e : s0.Effect s) (pass : Bool) : s0.Effect (passLines pass s) := by
  cases pass with
  | false => exact e
  | true => exact e.skipNewlines

omit hr in
lemma reads_moreItems (lists : Lists context afterComma afterItem comma item) (fuel : Nat)
    (before : Reads (.items context afterComma afterItem) s0 args s)
    (run : moreItems comma item fuel args s = .ok fs s') :
    Reads (.items context afterComma afterItem) s0 fs s' := by
  induction fuel generalizing args s with
  | zero => cases run
  | succ fuel ih =>
    rw [moreItems, atKind_bind] at run
    split at run
    case isTrue at_ =>
      have kind := of_decide_eq_true at_
      rw [advance_bind] at run
      obtain ⟨_, s1, passed, run⟩ := bind_ok.mp run
      obtain ⟨f, s2, made, run⟩ := bind_ok.mp run
      have e : s0.Effect s1 := by
        rw [lists.comma _ _ passed]
        exact effect_passLines (before.effect.advance (by rw [isInner, kind])) _
      obtain ⟨s3, read, same⟩ := lists.item _ _ _ e.sound made
      rw [lists.comma _ _ passed] at read
      rw [same] at run
      refine ih (.more (effect_passLines ?_ _) before kind read) run
      rw [← lists.comma _ _ passed] at read
      exact e.trans read.effect
    case isFalse =>
      cases run
      exact before

omit hr in
lemma reads_items (lists : Lists context afterComma afterItem comma item)
    (sound : s.Sound) (run : items comma item s = .ok fs s') :
    Reads (.items context afterComma afterItem) s fs s' := by
  rw [items] at run
  obtain ⟨f, s1, made, run⟩ := bind_ok.mp run
  rw [remaining_bind] at run
  obtain ⟨s2, read, rfl⟩ := lists.item _ _ _ sound made
  exact reads_moreItems lists _ (.one (effect_passLines read.effect _) read) run

/-- Whole expressions with nothing passed between them but what follows a comma. -/
lemma lists_whole (context : Context) :
    Lists context true false skipNewlines (whole parts context) where
  comma s s' run := by
    cases run
    rfl
  item s f s' sound run := ⟨s', reads_whole hr sound run, rfl⟩

lemma reads_arguments (sound : s.Sound) (run : arguments parts context s = .ok fs s') :
    Reads (.arguments context) s fs s' := by
  have e := Moves.ok inferInstance sound run
  rw [arguments] at run
  obtain ⟨opened, run⟩ := bind_bracket_ok run
  rw [skipNewlines_bind, atBracket_bind] at run
  split at run
  case isTrue at_ =>
    cases run
    exact .noArguments e opened (of_decide_eq_true at_)
  case isFalse =>
    obtain ⟨args, s2, made, run⟩ := bind_ok.mp run
    rw [atBracket_bind] at run
    split at run
    case isTrue at_ =>
      cases run
      refine .arguments e opened (reads_items ⟨?_, ?_⟩ (sound.advance.skip _) made)
        (of_decide_eq_true at_)
      · intro s s' run
        cases run
        rfl
      · intro s f s' sound run
        obtain ⟨f, s1, made, run⟩ := bind_ok.mp run
        cases run
        exact ⟨s1, reads_whole hr sound made, rfl⟩
    case isFalse => exact absurd run unexpected_ne_ok

lemma reads_subscript (sound : s.Sound) (run : subscript parts skipNewlines s = .ok index s') :
    ∃ args s1, Reads (.items {} true false) s args s1 ∧ s1.symbol.kind = .bracket .closeBracket ∧
      index = keyText args ∧ s' = s1.past := by
  rw [subscript] at run
  obtain ⟨args, s1, made, run⟩ := bind_ok.mp run
  obtain ⟨closed, run⟩ := bind_bracket_ok run
  cases run
  exact ⟨args, s1, reads_items (lists_whole hr {}) sound made, closed, rfl, rfl⟩

/-! ### Calls of built-in functions -/

lemma reads_regexOperand
    (sound : s.Sound) (run : regexOperand parts context limit s = .ok text s') :
    Reads (.regex context limit) s [.atom text] s' := by
  have e := Moves.ok inferInstance sound run
  rw [regexOperand, current_bind, atKind_bind] at run
  split at run
  case isTrue at_ =>
    cases run
    exact .regex e (of_decide_eq_true at_)
  case isFalse other =>
    have plain : s.symbol.kind ≠ .regex := by simpa using other
    obtain ⟨g, s1, inner, run⟩ := bind_ok.mp run
    have read := hr _ _ _ _ sound inner
    obtain ⟨_, s2, use, run⟩ := bind_ok.mp run
    cases literal : g.literal with
    | none =>
      simp only [literal] at run
      cases run
      exact .dynamicRegex e read use plain
    | some id =>
      simp only [literal, get_bind] at run
      split at run
      case isTrue string =>
        obtain ⟨regex, s3, made, run⟩ := bind_ok.mp run
        cases made
        cases run
        exact .literalRegex e read use literal string rfl plain
      case isFalse =>
        cases run
        exact .dynamicRegex e read use plain

lemma reads_length
    (strategy : function.strategy = .length) (sound : s.Sound) (inner : s.symbol.isInner)
    (run : length parts s = .ok f s') : Reads (.call function context) s [f] s' := by
  have e := MovesInside.ok inferInstance sound inner run
  rw [length, advance_bind, atBracket_bind] at run
  split at run
  · cases run
    exact .lengthAlone e strategy
  · obtain ⟨args, s1, made, run⟩ := bind_ok.mp run
    have read := reads_arguments hr sound.advance made
    rcases args with _ | ⟨g, _ | _⟩
    · cases run
      exact .lengthEmpty e strategy read
    · rcases ht : g.target with _ | (_ | _ | _) <;> simp only [ht, get_bind, pure_bind] at run
      all_goals
        cases run
        refine .lengthOf e strategy read ?_
        first
          | exact .inr rfl
          | split
            · exact .inl rfl
            · exact .inr rfl
    · exact absurd run unexpected_ne_ok

lemma reads_matchCall (strategy : function.strategy = .regexMatch) (sound : s.Sound)
    (inner : s.symbol.isInner) (run : matchCall parts s = .ok f s') :
    Reads (.call function context) s [f] s' := by
  have e := MovesInside.ok inferInstance sound inner run
  rw [matchCall, advance_bind] at run
  obtain ⟨opened, run⟩ := bind_bracket_ok run
  obtain ⟨subject, s2, made, run⟩ := bind_ok.mp run
  have first := reads_whole hr sound.advance.advance made
  obtain ⟨_, s3, passed, run⟩ := bind_ok.mp run
  obtain ⟨comma, rfl⟩ := expectComma_ok passed
  obtain ⟨regex, s4, made', run⟩ := bind_ok.mp run
  have second := reads_regexOperand hr (first.effect.sound.advance.skip _) made'
  obtain ⟨_, s5, bracket', run⟩ := bind_ok.mp run
  obtain ⟨closed, rfl⟩ := expectBracket_ok bracket'
  cases run
  exact @Reads.matchCall _ (.atom regex) _ _ _ _ _ e strategy opened first comma second closed

lemma reads_splitBy (sound : s.Sound) (run : splitBy parts about s = .ok text s') :
    Reads (.pieces about) s [.atom text] s' := by
  have e := Moves.ok inferInstance sound run
  rw [splitBy, current_bind, symbol_bind, peek_bind, symbolOf_bind] at run
  split at run
  case isTrue kind =>
    cases run
    exact .piecesLiteral e (.inl kind) (.inl rfl) (.inr (.inr ⟨_, rfl⟩))
  case isFalse other =>
    split at run
    case isTrue literal =>
      have kind : s.symbol.kind = .string := of_decide_eq_true (Bool.and_eq_true_iff.mp literal).1
      rw [advance_bind] at run
      split at run
      · cases run
        exact .piecesLiteral e (.inr kind) (.inl rfl) (.inl rfl)
      · split at run
        · cases run
          exact .piecesLiteral e (.inr kind) (.inl rfl) (.inr (.inl ⟨kind, rfl⟩))
        · obtain ⟨regex, s1, made, run⟩ := bind_ok.mp run
          cases made
          cases run
          exact .piecesLiteral e (.inr kind) (.inr ⟨kind, rfl⟩) (.inr (.inr ⟨_, rfl⟩))
    case isFalse composed =>
      obtain ⟨g, s1, made, run⟩ := bind_ok.mp run
      cases run
      refine .piecesBy e (reads_whole hr sound made) ⟨other, fun string => ?_⟩
      simpa [string] using composed

lemma reads_split
    (strategy : function.strategy = .split) (sound : s.Sound) (inner : s.symbol.isInner)
    (run : split parts context s = .ok f s') : Reads (.call function context) s [f] s' := by
  have e := MovesInside.ok inferInstance sound inner run
  rw [split, advance_bind] at run
  obtain ⟨opened, run⟩ := bind_bracket_ok run
  obtain ⟨subject, s2, made, run⟩ := bind_ok.mp run
  have first := reads_whole hr sound.advance.advance made
  obtain ⟨_, s3, passed, run⟩ := bind_ok.mp run
  obtain ⟨comma, rfl⟩ := expectComma_ok passed
  rw [current_bind, symbol_bind] at run
  obtain ⟨var, run⟩ := check_ok run
  have isVar : s2.past.pastLines.symbol.isVariable := by simpa using var
  obtain ⟨_, s3, mark, run⟩ := bind_ok.mp run
  rw [pythonOf_bind, advance_bind, atKind_bind] at run
  have sound3 : s3.Sound := by
    obtain ⟨t, grows, rfl⟩ := markArray_ok mark
    exact Session.Sound.grows (first.effect.sound.advance.skip _) grows
  -- what follows the array's name, whatever gives the pieces
  have ending : ∀ (pieces : List Fragment) (text : String) (s4 : Session),
      Reads (.separator subject.stringified) s3.past pieces s4 →
      text = (pieces.head?.map (·.text)).getD (defaultPieces subject.stringified) →
      ((do
        expectBracket .closeParen ")"
        let assignment :=
          pieceTable (s3.table.symbol s2.past.pastLines.cursor.current.symbol).python text
        if context.statement && (← atStatementEnd) then return .atom assignment
        emit assignment
        return { Fragment.atom
          s!"len({(s3.table.symbol s2.past.pastLines.cursor.current.symbol).python})" with
            hoisted := true } : Compile Fragment) s4) = .ok f s' →
      Reads (.call function context) s [f] s' := by
    intro pieces text s4 last said run
    obtain ⟨_, s5, bracket', run⟩ := bind_ok.mp run
    obtain ⟨closed, rfl⟩ := expectBracket_ok bracket'
    rw [atStatementEnd_bind] at run
    split at run
    · cases run
      exact .split e strategy opened first comma isVar mark last closed (.inl ⟨rfl, rfl⟩) said
    · obtain ⟨_, s6, written, run⟩ := bind_ok.mp run
      cases run
      exact .split e strategy opened first comma isVar mark last closed (.inr ⟨written, rfl⟩) said
  split at run
  case isTrue at_ =>
    have more := of_decide_eq_true at_
    rw [advance_bind, skipNewlines_bind] at run
    obtain ⟨text, s4, made', run⟩ := bind_ok.mp run
    have read := reads_splitBy hr (sound3.advance.advance.skip _) made'
    refine ending _ text s4 (.separator ?_ more read) rfl run
    exact (((Session.Effect.refl sound3.advance).advance (by
      rw [Session.symbol, isInner, more])).skipNewlines).trans read.effect
  case isFalse =>
    rw [pure_bind] at run
    exact ending [] _ _ (.noSeparator (.refl sound3.advance)) rfl run

omit hr in
lemma reads_substitute (hl : Leads parts) (hr : Faithful parts)
    (strategy : function.strategy = .substitute everywhere)
    (sound : s.Sound) (inner : s.symbol.isInner = true)
    (run : substitute parts everywhere s = .ok f s') : Reads (.call function context) s [f] s' := by
  have e := (moves_substitute hl everywhere).ok sound inner run
  rw [substitute, advance_bind] at run
  obtain ⟨opened, run⟩ := bind_bracket_ok run
  obtain ⟨regex, s2, made, run⟩ := bind_ok.mp run
  have first := reads_regexOperand hr sound.advance.advance made
  obtain ⟨_, s3, passed, run⟩ := bind_ok.mp run
  obtain ⟨comma, rfl⟩ := expectComma_ok passed
  obtain ⟨g, s3, made', run⟩ := bind_ok.mp run
  have second := reads_whole hr (first.effect.sound.advance.skip _) made'
  obtain ⟨new, s4, replaced, run⟩ := bind_ok.mp run
  cases Looks.ok replaced
  rw [atKind_bind] at run
  -- the lines of the substitution, with or without a target
  have ending : ∀ (targets : List Fragment) (s5 : Session), Reads .substituted s3 targets s5 →
      ((do
        expectBracket .closeParen ")"
        let n ← nextTemporary
        let count := if everywhere then 0 else 1
        writeSubstitution n (fun subject => s!"{regex}.subn({new}, {subject}, {count})")
          targets.head?
        return { Fragment.atom s!"num_changed_{n}" with hoisted := true } : Compile Fragment) s5) =
          .ok f s' → Reads (.call function context) s [f] s' := by
    intro targets s5 last run
    obtain ⟨_, s6, bracket', run⟩ := bind_ok.mp run
    obtain ⟨closed, rfl⟩ := expectBracket_ok bracket'
    rw [nextTemporary_bind] at run
    obtain ⟨_, s6, written, run⟩ := bind_ok.mp run
    cases run
    exact @Reads.substitute _ (.atom regex) _ targets _ _ _ _ _ s5 _ _ e strategy
      opened first comma second last closed replaced written
  split at run
  case isTrue at_ =>
    have more := of_decide_eq_true at_
    rw [advance_bind, skipNewlines_bind] at run
    obtain ⟨target, s5, found, run⟩ := bind_ok.mp run
    obtain ⟨g', made'', rfl⟩ := map_ok.mp found
    have read := reads_whole hr (second.effect.sound.advance.skip _) made''
    refine ending [g'] s5 (.substituted ?_ more read) run
    exact (((Session.Effect.refl second.effect.sound).advance (by
      rw [Session.symbol, isInner, more])).skipNewlines).trans read.effect
  case isFalse =>
    rw [pure_bind] at run
    exact ending [] s3 (.substitutedRecord (.refl second.effect.sound)) run

/-- A call of a function that the program defines passes the name and the arguments. -/
lemma reads_userCall (sound : s.Sound) (run : userCall parts s.cursor.current s = .ok f s') :
    ∃ args, Reads (.arguments { argument := true }) s.noted.past args s' ∧
      f = .atom (s.symbol.python ++ argumentTexts args) := by
  rw [userCall, symbolOf_bind] at run
  have sound' : s.noted.past.Sound := by
    refine Sound.advance (Sound.same sound ?_ ?_) <;>
      · rw [noted]
        split <;> rfl
  dsimp only at run
  have noted : (do
      advance
      let args ← arguments parts { argument := true }
      return .atom (s.symbol.python ++ argumentTexts args) : Compile Fragment) s.noted =
        .ok f s' := by
    rw [noted]
    split at run
    case isTrue var =>
      rw [if_pos var]
      exact run
    case isFalse var =>
      rw [if_neg var]
      exact run
  rw [advance_bind] at noted
  obtain ⟨args, s1, made, noted⟩ := bind_ok.mp noted
  cases noted
  exact ⟨args, reads_arguments hr sound' made, rfl⟩

omit hr in
lemma substr_session (run : substr args s = .ok f s') : s' = s := by
  unfold substr at run
  split at run
  case h_1 subject start =>
    cases first : Text.signed64? start.text <;> simp only [first] at run <;>
      exact (EStateM.Result.ok.inj run).2.symm
  case h_2 subject start count =>
    cases first : Text.signed64? start.text <;> cases many : Text.signed64? count.text <;>
      simp only [first, many] at run <;> exact (EStateM.Result.ok.inj run).2.symm
  case h_3 => exact absurd run unexpected_ne_ok

omit hr in
lemma toString_text (text : String) : toString text = text := rfl

lemma reads_plainCall (user : function.strategy ≠ .user) (length : function.strategy ≠ .length)
    (split : function.strategy ≠ .split) (sub : ∀ all, function.strategy ≠ .substitute all)
    (regex : function.strategy ≠ .regexMatch) (sound : s.Sound) (inner : s.symbol.isInner)
    (run : plainCall parts s.symbol function.strategy context s = .ok f s') :
    Reads (.call function context) s [f] s' := by
  have e := MovesInside.ok inferInstance sound inner run
  rw [plainCall, advance_bind] at run
  obtain ⟨args, s1, made, run⟩ := bind_ok.mp run
  have read := reads_arguments hr sound.advance made
  have kept (other : function.strategy ≠ .sprintf) :
      Reads (.arguments { keepMissing := context.keepMissing }) s.past args s1 := by
    rwa [decide_eq_false other, Bool.or_false] at read
  cases strategy : function.strategy with
  | method name =>
    simp only [strategy] at run
    rcases args with _ | ⟨subject, _ | _⟩
    · exact absurd run unexpected_ne_ok
    · cases run
      exact .method e strategy (kept (by simp [strategy]))
    · exact absurd run unexpected_ne_ok
  | index =>
    simp only [strategy] at run
    rcases args with _ | ⟨left, _ | ⟨right, _ | _⟩⟩
    · exact absurd run unexpected_ne_ok
    · exact absurd run unexpected_ne_ok
    · cases run
      exact .index e strategy (kept (by simp [strategy]))
    · exact absurd run unexpected_ne_ok
  | substr =>
    simp only [strategy] at run
    have same : s' = s1 := substr_session run
    rw [same] at run e ⊢
    exact .substr e strategy (kept (by simp [strategy])) run
  | sprintf =>
    simp only [strategy] at run
    rw [strategy, show (context.keepMissing || decide (Strategy.sprintf = .sprintf)) by
      simp] at read
    split at run
    · exact absurd run unexpected_ne_ok
    · obtain ⟨code, s2, formatted, run⟩ := bind_ok.mp run
      cases run
      exact .sprintf e strategy read formatted
  | call =>
    simp only [strategy] at run
    cases run
    exact .call e strategy (kept (by simp [strategy]))
  | user => exact absurd strategy user
  | length => exact absurd strategy length
  | split => exact absurd strategy split
  | substitute all => exact absurd strategy (sub all)
  | regexMatch => exact absurd strategy regex

omit hr in
lemma reads_call (hl : Leads parts) (hr : Faithful parts)
    (kind : s.symbol.kind = .function function) (sound : s.Sound)
    (run : call parts s.cursor.current function context s = .ok f s') :
    Reads (.goal (.operand context)) s [f] s' := by
  have inner : s.symbol.isInner = true := by rw [isInner, kind]
  have e := (moves_call hl _ function).ok sound inner run
  rw [call] at run
  obtain ⟨_, s1, library, run⟩ := bind_ok.mp run
  refine .function e kind library ?_
  obtain ⟨table, cursor⟩ := requireLibrary_symbol library
  have symbol : s1.symbol = s.symbol := by
    rw [Session.symbol, table, cursor]
  have sound1 : s1.Sound := sound.same cursor table
  have inner1 : s1.symbol.isInner = true := symbol ▸ inner
  rw [← cursor] at run
  cases strategy : function.strategy with
  | user =>
    simp only [strategy] at run
    obtain ⟨args, read, rfl⟩ := reads_userCall hr sound1 run
    refine .user ?_ strategy read
    exact MovesInside.ok inferInstance sound1 inner1 run
  | length =>
    simp only [strategy] at run
    exact reads_length hr strategy sound1 inner1 run
  | split =>
    simp only [strategy] at run
    exact reads_split hr strategy sound1 inner1 run
  | substitute everywhere =>
    simp only [strategy] at run
    exact reads_substitute hl hr strategy sound1 inner1 run
  | regexMatch =>
    simp only [strategy] at run
    exact reads_matchCall hr strategy sound1 inner1 run
  | _ =>
    simp only [strategy, symbolOf_bind] at run
    rw [← strategy] at run
    exact reads_plainCall hr (by simp [strategy]) (by simp [strategy]) (by simp [strategy])
      (by simp [strategy]) (by simp [strategy]) sound1 inner1 run

/-! ### Operands -/

lemma reads_computedField (kind : s.symbol.kind = .field none) (sound : s.Sound)
    (run : computedField parts context s = .ok f s') :
    Reads (.goal (.operand context)) s [f] s' := by
  have e := MovesInside.ok inferInstance sound
    (by rw [isInner, kind]) run
  rw [computedField, advance_bind, kind_bind] at run
  -- the index is compiled by one of three goals
  have ending : ∀ goal, ((goal = .signed context ∧ ((∃ op, s.past.symbol.kind = .unary op) ∨
          ∃ unary binary, s.past.symbol.kind = .ambiguous unary binary)) ∨
        (goal = .operation context 3 ∧ ∃ index, s.past.symbol.kind = .field index) ∨
        goal = .operand context) → ((do
        let index ← parts goal
        useAsScalar index
        let position := if (Text.unsigned64? index.text).isSome then index.text
          else s!"int({index.text})"
        return { Fragment.string s!"self._FLDS[{position}]" with
          target := some (.field position) } : Compile Fragment) s.past) = .ok f s' →
      Reads (.goal (.operand context)) s [f] s' := by
    intro goal one run
    obtain ⟨g, s1, made, run⟩ := bind_ok.mp run
    obtain ⟨_, s2, use, run⟩ := bind_ok.mp run
    cases run
    exact .computedField e kind one (hr _ _ _ _ sound.advance made) use
  have next : s.past.symbol = s.table.symbol s.cursor.advance.current.symbol := rfl
  cases kind' : (s.table.symbol s.cursor.advance.current.symbol).kind <;>
    simp only [kind'] at run <;> refine ending _ ?_ run <;> simp [next, kind']

lemma reads_group (kind : s.symbol.kind = .bracket .openParen) (sound : s.Sound)
    (run : group parts context s = .ok f s') : Reads (.goal (.operand context)) s [f] s' := by
  have e := MovesInside.ok inferInstance sound (by rw [isInner, kind]) run
  rw [group, advance_bind, skipNewlines_bind] at run
  obtain ⟨members, s1, made, run⟩ := bind_ok.mp run
  have read := reads_items (lists_whole hr { keepMissing := context.keepMissing })
    (sound.advance.skip _) made
  rw [skipNewlines_bind] at run
  obtain ⟨closed, run⟩ := bind_bracket_ok run
  rcases members with _ | ⟨member, _ | _⟩
  · cases run
    exact .tuple e kind read closed (by simp)
  · cases run
    exact .group e kind read closed
  · cases run
    exact .tuple e kind read closed (by simp)

lemma reads_variableOperand {use : VariableUse} (kind : s.symbol.kind = .var use) (sound : s.Sound)
    (run : variableOperand parts s.cursor.current context s = .ok f s') :
    Reads (.goal (.operand context)) s [f] s' := by
  have inner : s.symbol.isInner := by rw [isInner, kind]
  have e := MovesInside.ok inferInstance sound inner run
  rw [variableOperand, peek_bind, symbolOf_bind, pythonOf_bind] at run
  split at run
  case isTrue called =>
    obtain ⟨args, read, rfl⟩ := reads_userCall hr sound run
    exact .callLater e kind read (by simpa using called)
  case isFalse =>
    split at run
    case isTrue bracket =>
      obtain ⟨_, s1, mark, run⟩ := bind_ok.mp run
      rw [advance_bind, advance_bind] at run
      obtain ⟨index, s2, made, run⟩ := bind_ok.mp run
      have sound1 : s1.Sound := by
        obtain ⟨t, grows, rfl⟩ := markArray_ok mark
        exact sound.grows grows
      obtain ⟨args, s3, keys, closed, rfl, rfl⟩ := reads_subscript hr sound1.advance.advance made
      cases run
      exact .element e kind bracket mark keys closed
    case isFalse =>
      cases run
      exact .name e kind

lemma reads_getlineTarget (sound : s.Sound) (run : getlineTarget parts s = .ok target s') :
    ∃ args, Reads .getlineTarget s args s' ∧ (args = [] ∧ target = none ∨
      ∃ g, args = [g] ∧ target = g.target) := by
  have e := Moves.ok inferInstance sound run
  rw [getlineTarget, kind_bind] at run
  cases kind : s.symbol.kind with
  | var use =>
    simp only [kind] at run
    obtain ⟨g, s1, made, run⟩ := bind_ok.mp run
    cases run
    exact ⟨[g], .getlineTarget e (.inl (by simp [isVariable, variableUse?, kind]))
      (hr _ _ _ _ sound made), .inr ⟨g, rfl, rfl⟩⟩
  | field index =>
    simp only [kind] at run
    obtain ⟨g, s1, made, run⟩ := bind_ok.mp run
    cases run
    exact ⟨[g], .getlineTarget e (.inr ⟨index, kind⟩) (hr _ _ _ _ sound made), .inr ⟨g, rfl, rfl⟩⟩
  | _ =>
    simp only [kind] at run
    cases run
    exact ⟨[], .noTarget e, .inl ⟨rfl, rfl⟩⟩

lemma reads_getlineSource (sound : s.Sound) (run : getlineSource parts command s = .ok text s') :
    Reads (.getlineSource command) s [.atom text] s' := by
  have e := Moves.ok inferInstance sound run
  cases command with
  | some command =>
    cases run
    exact .fromCommand e
  | none =>
    rw [getlineSource, atKey_bind] at run
    split at run
    case isTrue at_ =>
      rw [advance_bind] at run
      obtain ⟨g, s1, made, run⟩ := bind_ok.mp run
      obtain ⟨_, s2, use, run⟩ := bind_ok.mp run
      cases run
      exact .fromFile e (of_decide_eq_true at_) (hr _ _ _ _ sound.advance made) use
    case isFalse =>
      cases run
      exact .fromInput e

omit hr in
lemma readInto_ok (run : (match target with
      | none => return .atom s!"{source}.get_into_dollar_fields()"
      | some (.field index) =>
        if index = "0" then return .atom s!"{source}.get_into_dollar_fields()"
        else return .atom s!"{source}.get_into_dollar_field({index})"
      | some (.var id) => do
        markScalar id (← line)
        let (owner, name) := ownerAndName (← pythonOf id)
        return .atom s!"{source}.get_into_variable({owner}, \"{name}\")"
      | some (.element base index) =>
        return .atom s!"{source}.get_into_array({base}, {index})" : Compile Fragment) s =
          .ok f s') :
    f = .atom (source ++ intoText s'.table target) ∧
      (s' = s ∧ (∀ id, target ≠ some (.var id)) ∨
        ∃ id, target = some (.var id) ∧ markScalar id s.cursor.current.line s = .ok () s') := by
  rcases target with _ | (id | ⟨base, index⟩ | index)
  · cases run
    refine ⟨?_, .inl ⟨rfl, by simp⟩⟩
    unfold intoText intoRecord
    simp only [toString_text]
  · dsimp only at run
    rw [line_bind] at run
    obtain ⟨_, s1, mark, run⟩ := bind_ok.mp run
    rw [pythonOf_bind] at run
    rcases pair : ownerAndName (s1.table.symbol id).python with ⟨owner, name⟩
    rw [pair] at run
    cases run
    refine ⟨?_, .inr ⟨id, rfl, mark⟩⟩
    unfold intoText intoVariable
    simp only [pair, toString_text, String.append_assoc]
  · cases run
    refine ⟨?_, .inl ⟨rfl, by simp⟩⟩
    unfold intoText intoElement
    simp only [toString_text, String.append_assoc]
  · dsimp only at run
    split at run
    case isTrue record =>
      cases run
      refine ⟨?_, .inl ⟨rfl, by simp⟩⟩
      unfold intoText intoField intoRecord
      simp only [if_pos record, toString_text]
    case isFalse other =>
      cases run
      refine ⟨?_, .inl ⟨rfl, by simp⟩⟩
      unfold intoText intoField
      simp only [if_neg other, toString_text, String.append_assoc]

lemma reads_getline (sound : s.Sound) (inner : s.symbol.isInner)
    (run : getline parts command s = .ok f s') : Reads (.getline command) s [f] s' := by
  have e := MovesInside.ok inferInstance sound inner run
  rw [getline, needMainLoop, modify_bind, advance_bind] at run
  obtain ⟨target, s1, made, run⟩ := bind_ok.mp run
  have sound0 : (past { s with hasMainLoop := true }).Sound :=
    (Sound.same sound rfl rfl : Sound { s with hasMainLoop := true }).advance
  obtain ⟨args, into, found⟩ := reads_getlineTarget hr sound0 made
  obtain ⟨source, s2, made', run⟩ := bind_ok.mp run
  have fromWhere := reads_getlineSource hr into.effect.sound made'
  obtain ⟨rfl, done⟩ := readInto_ok run
  have same : args.head?.bind (·.target) = target := by
    rcases found with ⟨rfl, rfl⟩ | ⟨h, rfl, rfl⟩ <;> rfl
  have read : _ → Reads (.getline command) s _ s' := Reads.getline e into fromWhere
  rw [same] at read
  rcases done with ⟨rest, other⟩ | ⟨id, named, mark⟩
  · refine read (.inl ⟨rest, fun g mem id => ?_⟩)
    rcases found with ⟨rfl, -⟩ | ⟨h, rfl, rfl⟩
    · cases mem
    · rw [List.mem_singleton.mp mem]
      exact other id
  · refine read (.inr ?_)
    rcases found with ⟨-, none⟩ | ⟨h, rfl, changes⟩
    · cases none.symm.trans named
    · exact ⟨h, List.mem_cons_self, id, changes.symm.trans named, mark⟩

omit hr in
lemma reads_operand (hl : Leads parts) (hr : Faithful parts)
    (sound : s.Sound) (run : operand parts context s = .ok f s') :
    Reads (.goal (.operand context)) s [f] s' := by
  have e := (moves_operand hl).ok sound run
  rw [operand, current_bind, symbol_bind] at run
  cases kind : s.symbol.kind <;> simp only [kind] at run
  case number =>
    cases run
    exact .number e kind
  case string =>
    cases run
    exact .string e kind
  case regex =>
    cases run
    exact .regexLiteral e kind
  case field index =>
    cases index with
    | some index =>
      cases run
      exact .field e kind
    | none => exact reads_computedField hr kind sound run
  case var => exact reads_variableOperand hr kind sound run
  case function => exact reads_call hl hr kind sound run
  case bracket bracket =>
    cases bracket with
    | openParen => exact reads_group hr kind sound run
    | _ => exact absurd run unexpected_ne_ok
  case keyword keyword =>
    cases keyword with
    | getline =>
      exact .getlineAlone e kind (reads_getline hr sound (by rw [isInner, kind]; rfl) run)
    | _ => exact absurd run unexpected_ne_ok
  all_goals exact absurd run unexpected_ne_ok

/-! ### Operators -/

variable {left : Fragment}

lemma reads_subtraction
    (kind : s.symbol.kind = .number) (negative : Text.startsWith "-" s.symbol.key)
    (fits : additiveLevel < limit) (sound : s.Sound)
    (run : subtraction parts left context s = .ok f s') :
    Reads (.extension left context limit) s [f] s' := by
  have e := MovesInside.ok inferInstance sound
    (by rw [isInner, kind]) run
  rw [subtraction, symbol_bind, advance_bind] at run
  obtain ⟨right, s1, made, run⟩ := bind_ok.mp run
  obtain ⟨_, s2, use, run⟩ := bind_ok.mp run
  cases run
  exact .subtraction e kind negative fits (hr _ _ _ _ sound.advance made) use

lemma reads_concatenation (starts : s.symbol.startsOperand) (fits : concatenationLevel < limit)
    (unsigned : s.symbol.kind = .number → Text.startsWith "-" s.symbol.key = false)
    (sound : s.Sound) (run : concatenation parts left context s = .ok f s') :
    Reads (.extension left context limit) s [f] s' := by
  have e := Moves.ok inferInstance sound run
  rw [concatenation] at run
  obtain ⟨right, s1, made, run⟩ := bind_ok.mp run
  obtain ⟨_, s2, use, run⟩ := bind_ok.mp run
  obtain ⟨_, s3, use', run⟩ := bind_ok.mp run
  cases run
  exact .concatenation e starts fits (hr _ _ _ _ sound made) use use' unsigned

variable {op : Symbol}

section Operation

variable (sound : s.Sound) (here : s.Operates op limit) (inner : s.symbol.isInner = true)
include sound here inner

lemma reads_arithmetic (kind : op.kind = .binary .arithmetic ∨ op.kind = .binary .comparison)
    (run : arithmetic parts left op context s = .ok f s') :
    Reads (.extension left context limit) s [f] s' := by
  have e := MovesInside.ok inferInstance sound inner run
  rw [arithmetic, advance_bind] at run
  obtain ⟨right, s1, made, run⟩ := bind_ok.mp run
  obtain ⟨_, s2, use, run⟩ := bind_ok.mp run
  obtain ⟨_, s3, use', run⟩ := bind_ok.mp run
  cases run
  exact .arithmetic e here kind (hr _ _ _ _ sound.advance made) use use'

lemma reads_logical (kind : op.kind = .binary .and ∨ op.kind = .binary .or)
    (run : logical parts left op context s = .ok f s') :
    Reads (.extension left context limit) s [f] s' := by
  have e := MovesInside.ok inferInstance sound inner run
  rw [logical, advance_bind, skipNewlines_bind, mark_bind] at run
  obtain ⟨right, s1, made, run⟩ := bind_ok.mp run
  have read := hr _ _ _ _ (sound.advance.skip _) made
  obtain ⟨_, s2, use, run⟩ := bind_ok.mp run
  obtain ⟨_, s3, use', run⟩ := bind_ok.mp run
  rw [takeSince_bind] at run
  refine .logical e here kind read use use' ?_
  split at run
  case isTrue none =>
    cases run
    exact .inl ⟨none, rfl, rfl⟩
  case isFalse some => exact .inr ⟨by simpa using some, run⟩

lemma reads_matching (kind : op.kind = .binary .regexMatch ∨ op.kind = .binary .regexMismatch)
    (run : matching parts left op context s = .ok f s') :
    Reads (.extension left context limit) s [f] s' := by
  have e := MovesInside.ok inferInstance sound inner run
  rw [matching, advance_bind] at run
  obtain ⟨regex, s1, made, run⟩ := bind_ok.mp run
  obtain ⟨_, s2, use, run⟩ := bind_ok.mp run
  cases run
  exact @Reads.matching _ _ _ (.atom regex) _ _ _ _ e here kind
    (reads_regexOperand hr sound.advance made) use

omit hr in
lemma reads_membership (kind : op.kind = .binary .membership)
    (run : membership left op s = .ok f s') : Reads (.extension left context limit) s [f] s' := by
  have e := MovesInside.ok inferInstance sound inner run
  rw [membership, advance_bind, current_bind, symbol_bind] at run
  obtain ⟨var, run⟩ := check_ok run
  obtain ⟨_, s1, mark, run⟩ := bind_ok.mp run
  rw [pythonOf_bind, advance_bind] at run
  obtain ⟨_, s2, use, run⟩ := bind_ok.mp run
  cases run
  exact .membership e here kind (by simpa using var) mark use

lemma reads_pipe (kind : op.kind = .binary .pipe)
    (run : pipe parts left s = .ok f s') : Reads (.extension left context limit) s [f] s' := by
  have e := MovesInside.ok inferInstance sound inner run
  rw [pipe, advance_bind, atKind_bind] at run
  obtain ⟨found, run⟩ := check_ok run
  have word : s.past.symbol.kind = .keyword .getline := by simpa using found
  obtain ⟨_, s1, use, run⟩ := bind_ok.mp run
  refine .pipe e here kind word use ?_
  obtain ⟨t, grows, rfl⟩ := useAsScalar_ok use
  have sound1 : s.past.Sound := sound.advance
  refine reads_getline hr (sound1.grows grows) ?_ run
  rw [isInner_of_grows sound1 grows, isInner, word]
  rfl

lemma reads_conditional (kind : op.kind = .binary .question)
    (run : conditional parts left context s = .ok f s') :
    Reads (.extension left context limit) s [f] s' := by
  have e := MovesInside.ok inferInstance sound inner run
  rw [conditional, advance_bind, skipNewlines_bind, mark_bind] at run
  obtain ⟨yes, s1, made, run⟩ := bind_ok.mp run
  have first := hr _ _ _ _ (sound.advance.skip _) made
  rw [skipNewlines_bind, atKind_bind] at run
  obtain ⟨found, run⟩ := check_ok run
  have colon : s1.pastLines.symbol.kind = .binary .colon := by simpa using found
  simp only [advance_bind, skipNewlines_bind, mark_bind] at run
  obtain ⟨no, s2, made', run⟩ := bind_ok.mp run
  have second := hr _ _ _ _ ((first.effect.sound.skip _).advance.skip _) made'
  obtain ⟨_, s3, use, run⟩ := bind_ok.mp run
  obtain ⟨_, s4, use', run⟩ := bind_ok.mp run
  obtain ⟨_, s5, use'', run⟩ := bind_ok.mp run
  rw [takeSince_bind, takeSince_bind] at run
  refine .conditional e here kind first colon second use use' use'' ?_
  split at run
  case isTrue none =>
    cases run
    exact .inl ⟨none, rfl, rfl⟩
  case isFalse some => exact .inr ⟨by simpa using some, run⟩

lemma reads_assignment (kind : op.kind = .binary .assign)
    (run : assignment parts left op.python context s = .ok f s') :
    Reads (.extension left context limit) s [f] s' := by
  have e := MovesInside.ok inferInstance sound inner run
  rw [assignment] at run
  cases changes : left.target with
  | none =>
    simp only [changes] at run
    exact absurd run unexpected_ne_ok
  | some target =>
    simp only [changes] at run
    rw [advance_bind, skipNewlines_bind] at run
    obtain ⟨right, s1, made, run⟩ := bind_ok.mp run
    have value := hr _ _ _ _ (sound.advance.skip _) made
    obtain ⟨_, s2, use, run⟩ := bind_ok.mp run
    cases target with
    | var id =>
      simp only [line_bind] at run
      obtain ⟨_, s3, mark, run⟩ := bind_ok.mp run
      cases run
      exact .assignVariable e here kind changes value use mark
    | element base index =>
      cases run
      exact .assignElement e here kind changes value use
    | field index =>
      simp only at run
      split at run
      · cases run
        exact .assignField e here kind changes value use
      · obtain ⟨g, s3, made', run⟩ := bind_ok.mp run
        cases run
        exact .assignBy e here kind changes value use made'

lemma reads_operation (kind : op.kind = .binary binary)
    (run : operation parts left op binary context s = .ok (some f) s') :
    Reads (.extension left context limit) s [f] s' := by
  have made : ∀ {x : Compile Fragment}, (some <$> x) s = .ok (some f) s' → x s = .ok f s' := by
    intro x run
    obtain ⟨g, made, same⟩ := map_ok.mp run
    cases same
    exact made
  cases binary with
  | arithmetic =>
    simp only [operation] at run
    split at run
    · cases run
    · exact reads_arithmetic hr sound here inner (.inl kind) (made run)
  | comparison =>
    simp only [operation] at run
    split at run
    · cases run
    · exact reads_arithmetic hr sound here inner (.inr kind) (made run)
  | and => exact reads_logical hr sound here inner (.inl kind) (made run)
  | or => exact reads_logical hr sound here inner (.inr kind) (made run)
  | regexMatch => exact reads_matching hr sound here inner (.inl kind) (made run)
  | regexMismatch => exact reads_matching hr sound here inner (.inr kind) (made run)
  | membership => exact reads_membership sound here inner kind (made run)
  | pipe =>
    simp only [operation] at run
    split at run
    · cases run
    · exact reads_pipe hr sound here inner kind (made run)
  | append =>
    simp only [operation] at run
    split at run
    · cases run
    · exact absurd run unexpected_ne_ok
  | question => exact reads_conditional hr sound here inner kind (made run)
  | colon => cases run
  | assign => exact reads_assignment hr sound here inner kind (made run)

end Operation

lemma reads_extend (sound : s.Sound) (run : extend parts left context limit s = .ok (some f) s') :
    Reads (.extension left context limit) s [f] s' := by
  rw [extend, current_bind, symbol_bind, get_bind] at run
  cases ho : operatorAt s.table s.cursor.current with
  | some op =>
    simp only [ho] at run
    cases kind : op.kind with
    | binary binary =>
      simp only [kind] at run
      split at run
      · cases run
      case isFalse below =>
        exact reads_operation hr sound ⟨ho, Nat.lt_of_not_le below⟩
          (Awk.isInner_of_operatorAt ho) kind
          run
    | _ =>
      simp only [kind] at run
      cases run
  | none =>
    simp only [ho] at run
    split at run
    case isTrue number =>
      obtain ⟨kind, negative⟩ := Bool.and_eq_true_iff.mp number
      replace kind : s.symbol.kind = .number := of_decide_eq_true kind
      split at run
      · cases run
      case isFalse below =>
        obtain ⟨g, made, same⟩ := map_ok.mp run
        cases same
        exact reads_subtraction hr kind negative (Nat.lt_of_not_le below) sound made
    case isFalse other =>
      split at run
      case isTrue starts =>
        split at run
        · cases run
        case isFalse below =>
          obtain ⟨g, made, same⟩ := map_ok.mp run
          cases same
          exact reads_concatenation hr starts (Nat.lt_of_not_le below)
            (by simpa using other) sound made
      case isFalse => cases run

lemma reads_rest (sound : s.Sound) (run : rest parts left context limit s = .ok f s') :
    Reads (.goal (.rest left context limit)) s [f] s' := by
  have e := Moves.ok inferInstance sound run
  rw [rest] at run
  obtain ⟨extended, s1, made, run⟩ := bind_ok.mp run
  cases extended with
  | some g =>
    have first := reads_extend hr sound made
    refine .extend e first (hr _ _ _ _ first.effect.sound run) ?_
    by_contra stops
    rw [Awk.extend_none (by simpa using stops)] at made
    cases made
  | none =>
    cases run
    obtain ⟨rfl, stops⟩ := Awk.continues_of_extend sound made
    exact .stop e stops

lemma reads_signed (sound : s.Sound)
    (run : signed parts context s = .ok f s') : Reads (.goal (.signed context)) s [f] s' := by
  have e := Moves.ok inferInstance sound run
  rw [signed, symbol_bind] at run
  have signs : ∀ python, ((∃ unary binary, s.symbol.kind = .ambiguous unary binary ∧
        python = (s.table.symbol unary).python) ∨
      (s.symbol.kind = .unary .minus ∨ s.symbol.kind = .unary .plus) ∧
        python = s.symbol.python) → sign parts python context s = .ok f s' →
      Reads (.goal (.signed context)) s [f] s' := by
    intro python kind run
    rw [sign, advance_bind] at run
    obtain ⟨g, s1, made, run⟩ := bind_ok.mp run
    obtain ⟨_, s2, use, run⟩ := bind_ok.mp run
    cases run
    exact .sign e kind (hr _ _ _ _ sound.advance made) use
  have stepped : ∀ increment, s.symbol.kind = .unary (stepOperator increment) → ((do
      advance
      step (← parts (.operand context)) increment true) : Compile Fragment) s = .ok f s' →
      Reads (.goal (.signed context)) s [f] s' := by
    intro increment kind run
    rw [advance_bind] at run
    obtain ⟨g, s1, made, run⟩ := bind_ok.mp run
    exact .stepBefore e kind (hr _ _ _ _ sound.advance made) run
  have behind : ((do stepAfter (← parts (.operand context))) : Compile Fragment) s = .ok f s' →
      Reads (.goal (.signed context)) s [f] s' := by
    intro run
    obtain ⟨g, s1, made, run⟩ := bind_ok.mp run
    have read := hr _ _ _ _ sound made
    have stay : (pure g : Compile Fragment) s1 = .ok f s' →
        Reads (.goal (.signed context)) s [f] s' := by
      intro run
      cases run
      exact .plain e read
    rw [stepAfter] at run
    split at run
    · exact stay run
    · rw [kind_bind] at run
      cases kind : s1.symbol.kind with
      | unary op =>
        cases op with
        | increment =>
          simp only [kind, advance_bind] at run
          exact @Reads.stepAfter _ _ true _ _ _ _ e read kind run
        | decrement =>
          simp only [kind, advance_bind] at run
          exact @Reads.stepAfter _ _ false _ _ _ _ e read kind run
        | _ =>
          simp only [kind] at run
          exact stay run
      | _ =>
        simp only [kind] at run
        exact stay run
  cases kind : s.symbol.kind with
  | ambiguous unary binary =>
    simp only [kind, pythonOf_bind] at run
    exact signs _ (.inl ⟨unary, binary, kind, rfl⟩) run
  | unary op =>
    cases op with
    | minus =>
      simp only [kind] at run
      exact signs _ (.inr ⟨.inl kind, rfl⟩) run
    | plus =>
      simp only [kind] at run
      exact signs _ (.inr ⟨.inr kind, rfl⟩) run
    | not =>
      simp only [kind] at run
      rw [negation, advance_bind] at run
      obtain ⟨g, s1, made, run⟩ := bind_ok.mp run
      obtain ⟨_, s2, use, run⟩ := bind_ok.mp run
      have read := Reads.negation e kind (hr _ _ _ _ sound.advance made)
      split at run
      case isTrue grouped =>
        cases run
        rw [if_pos grouped] at read
        exact read use
      case isFalse grouped =>
        cases run
        rw [if_neg grouped] at read
        exact read use
    | increment =>
      simp only [kind] at run
      exact stepped true kind run
    | decrement =>
      simp only [kind] at run
      exact stepped false kind run
  | _ =>
    simp only [kind] at run
    exact behind run

omit hr in
lemma reads_reach (hl : Leads parts) (hr : Faithful parts) : Faithful (reach parts) := by
  intro goal s f s' sound run
  cases goal with
  | operation context limit =>
    have e := (moves_reach hl _).ok sound run
    obtain ⟨left, s1, made, run⟩ := bind_ok.mp run
    have first := hr _ _ _ _ sound made
    exact .operation e first (hr _ _ _ _ first.effect.sound run)
  | rest left context limit => exact reads_rest hr sound run
  | signed context => exact reads_signed hr sound run
  | operand context => exact reads_operand hl hr sound run

omit hr [∀ g, Moves (parts g)] in
lemma leads_of_faithful (hr : Faithful parts) : Leads parts := by
  intro context limit s f s' sound run
  exact (hr _ _ _ _ sound run).isPlain trivial f List.mem_cons_self

end Constructs

/-- By induction on the depth: every expression has its effect and its reading. -/
lemma reachWithin_sound (depth : Nat) :
    (∀ goal, Moves (reachWithin depth goal)) ∧ Faithful (reachWithin depth) := by
  induction depth with
  | zero => exact ⟨fun _ => moves_throw _, fun _ _ _ _ _ run => nomatch run⟩
  | succ depth ih =>
    have := ih.1
    have hl := leads_of_faithful ih.2
    exact ⟨moves_reach hl, reads_reach hl ih.2⟩

instance moves_reachWithin (depth : Nat) (goal : Goal) : Moves (reachWithin depth goal) :=
  (reachWithin_sound depth).1 goal

lemma leads_reachWithin (depth : Nat) : Leads (reachWithin depth) :=
  leads_of_faithful (reachWithin_sound depth).2

instance moves_compiler (goal : Goal) : Moves (compiler goal) := by
  unfold compiler
  infer_instance

lemma faithful_compiler : Faithful compiler := by
  intro goal s f s' sound run
  rw [compiler, remaining_bind] at run
  exact (reachWithin_sound _).2 goal s f s' sound run

end Expression

namespace Compile

instance moves_expression (context : Context) : Moves (expression context) :=
  moves_whole

instance moves_condition : Moves condition := by
  unfold condition
  infer_instance

lemma reads_expression (sound : s.Sound)
    (run : expression context s = .ok f s') : Reads (.whole context) s [f] s' :=
  reads_whole faithful_compiler sound run

lemma expression_plain (sound : s.Sound)
    (run : expression context s = .ok f s') : f.Plain s'.table :=
  (reads_expression sound run).isPlain trivial f List.mem_cons_self

end Compile

end AwkToPython
