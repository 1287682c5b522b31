import AwkToPython.Proofs.Statement.ForLoop
import AwkToPython.Proofs.Usage.Exposure

/-!
# What a statement says of its variables

A statement that is compiled is a trip, and one that is refused leaves the session
where it was. Steps are taken one after the other; only a step in a place of its
own needs more than that, since the next line goes elsewhere meanwhile.
-/
namespace AwkToPython

variable {l l' : Listing}

open Compile Session Expression Statement

namespace Session

variable {α : Type} {s s' s0 : Session} {k : SymbolKind} {m : Nat}

/-- What may come of a step. -/
def Reaches (s0 : Session) : EStateM.Result Error Session α → Prop
  | .ok _ s => s0.Trip s
  | .error _ s => s0.Stays s

lemma Trip.reaches (h : s0.Trip s) (h' : s.Reaches r) : s0.Reaches r := by
  cases r with
  | ok a s' => exact h.trans h'
  | error e s' => exact h.toStays.trans h'

lemma Reaches.bind {β : Type} {f : α → Compile β} (hx : s0.Reaches (x s))
    (hf : ∀ a s', x s = .ok a s' → s0.Trip s' → s0.Reaches (f a s')) :
    s0.Reaches ((x >>= f) s) := by
  cases run : x s with
  | ok a s' =>
    rw [run] at hx
    rw [bind_of_ok run]
    exact hf a s' run hx
  | error e s' =>
    rw [run] at hx
    rw [bind_of_error run]
    exact hx

/-- A step that moves as an expression does, and is a trip if it succeeds. -/
lemma Sound.reaches (sound : s.Sound) (moves : Moves x)
    (ok : ∀ a s', x s = .ok a s' → s.Trip s') : s.Reaches (x s) := by
  have e := moves.effect sound
  cases run : x s with
  | ok a s' => exact ok a s' run
  | error e' s' =>
    rw [run] at e
    exact e.stays

/-- Pass a token of which only the kind without marks is known. -/
lemma Trip.pastBare (h : s0.Trip s) (kind : s.symbol.kind.bare = k)
    (passable : (k.isSilent && k != .endOfInput) = true) : s0.Trip s.past := by
  cases hk : s.symbol.kind with
  | var use => exact h.pastKind hk rfl
  | _ =>
    rw [hk] at kind
    subst kind
    exact h.pastKind hk passable

/-- What is done while lines go elsewhere. -/
lemma Stays.between (sound : s.Sound) (h : Stays { s with listing := l } s')
    (back : l'.toPosition = s.listing.toPosition) : s.Stays { s' with listing := l' } :=
  ⟨sound, h.table, back, h.setting, h.sound.same rfl rfl⟩

lemma Trip.between (sound : s.Sound) (h : Trip { s with listing := l } s')
    (back : l'.toPosition = s.listing.toPosition) : s.Trip { s' with listing := l' } :=
  ⟨.between sound h.toStays back, h.tokens⟩

end Session

namespace Compile

open Expression

variable {α β : Type} {s s' s0 : Session} {x : Compile α}

/-- A step that passes tokens whose variables are used as they say. -/
class Travels (x : Compile α) : Prop where
  reaches {s : Session} : s.Sound → s.Reaches (x s)

/-- The same where the current token says nothing of the one before it. -/
class TravelsPast (x : Compile α) : Prop where
  reaches {s : Session} : s.Sound →
    (s.symbol.kind.isSilent && s.symbol.kind != .endOfInput) = true → s.Reaches (x s)

section Rules

variable {y : Compile α} {f : α → Compile β}

lemma Travels.then (hx : Travels x) (h : s0.Trip s) : s0.Reaches (x s) :=
  h.reaches (hx.reaches h.sound)

lemma Travels.bind (hx : Travels x) (h : s0.Trip s)
    (hf : ∀ a s', x s = .ok a s' → s0.Trip s' → s0.Reaches (f a s')) :
    s0.Reaches ((x >>= f) s) := (hx.then h).bind hf

instance (priority := low) Travels.of_writes [h : Writes 0 0 x] : Travels x := by
  refine ⟨fun {s} sound => ?_⟩
  obtain ⟨a, s', run, alike, depth⟩ := h.run s s.listing.depth rfl
  rw [run]
  exact (Trip.refl sound).alike alike depth

lemma Travels.of_moves (moves : Moves x)
    (ok : ∀ s a s', s.Sound → x s = .ok a s' → s.Trip s') : Travels x :=
  ⟨fun {s} sound => sound.reaches moves fun a s' run => ok s a s' sound run⟩

instance Travels.past [h : Travels x] : TravelsPast x := ⟨fun sound _ => h.reaches sound⟩

instance Travels.andThen [hx : Travels x] [hf : ∀ a, Travels (f a)] : Travels (x >>= f) :=
  ⟨fun sound => hx.bind (.refl sound) fun a _ _ trip => (hf a).then trip⟩

instance TravelsPast.andThen [hx : TravelsPast x] [hf : ∀ a, Travels (f a)] :
    TravelsPast (x >>= f) :=
  ⟨fun sound passable => (hx.reaches sound passable).bind fun a _ _ trip => (hf a).then trip⟩

lemma Travels.next [Travels x] (h : ∀ a, Travels (f a)) : Travels (x >>= f) := Travels.andThen

lemma TravelsPast.next [TravelsPast x] (h : ∀ a, Travels (f a)) : TravelsPast (x >>= f) :=
  TravelsPast.andThen

instance Travels.ite {c : Prop} [Decidable c] [Travels x] [Travels y] :
    Travels (if c then x else y) := by
  split <;> infer_instance

instance TravelsPast.ite {c : Prop} [Decidable c] [TravelsPast x] [TravelsPast y] :
    TravelsPast (if c then x else y) := by
  split <;> infer_instance

instance travels_pure (a : α) : Travels (pure a : Compile α) := ⟨fun sound => .refl sound⟩

instance Travels.map {f : α → β} [Travels x] : Travels (f <$> x) := by
  rw [← bind_pure_comp]
  infer_instance

instance travels_throw (e : Error) : Travels (throw e : Compile α) := ⟨fun sound => .refl sound⟩

instance travels_unexpected (e : Expectation) : Travels (unexpected e : Compile α) :=
  ⟨fun sound => .refl sound⟩

instance travels_unexpected_bind (e : Expectation) : Travels (unexpected e >>= f) :=
  ⟨fun sound => .refl sound⟩

instance travels_advance : TravelsPast advance :=
  ⟨fun sound passable => (Trip.refl sound).pastKind rfl passable⟩

instance Looks.travels [h : Looks x] : Travels x := by
  refine ⟨fun {s} sound => ?_⟩
  obtain ⟨a, look⟩ := h.run s
  rw [look]
  exact Trip.refl sound

instance Looks.past [h : Looks x] [hf : ∀ a, TravelsPast (f a)] : TravelsPast (x >>= f) := by
  refine ⟨fun {s} sound passable => ?_⟩
  obtain ⟨a, look⟩ := h.run s
  rw [bind_of_ok look]
  exact (hf a).reaches sound passable

end Rules

/-! ### Tokens that say nothing of the one before them -/

section Tests

variable {y : Compile α}

class Silent (k : SymbolKind) : Prop where
  passable : (k.isSilent && k != .endOfInput) = true

instance : Silent .comma := ⟨rfl⟩

instance : Silent .elseWord := ⟨rfl⟩

instance {word : Keyword} : Silent (.keyword word) := ⟨rfl⟩

instance : Silent (.bracket .openParen) := ⟨rfl⟩

instance : Silent (.bracket .closeParen) := ⟨rfl⟩

instance : Silent (.bracket .closeBracket) := ⟨rfl⟩

instance : Silent (.bracket .openBrace) := ⟨rfl⟩

lemma TravelsPast.at [hx : TravelsPast x] [silent : Silent k] (sound : s.Sound)
    (kind : s.symbol.kind = k) : s.Reaches (x s) :=
  hx.reaches sound (by rw [kind]; exact silent.passable)

instance travels_ifKind {k : SymbolKind} [Silent k] [TravelsPast x] [hy : Travels y] :
    Travels (atKind k >>= fun at_ => if at_ = true then x else y) := by
  refine ⟨fun {s} sound => ?_⟩
  rw [atKind_bind]
  split
  case isTrue at_ => exact TravelsPast.at sound (of_decide_eq_true at_)
  case isFalse => exact hy.reaches sound

instance travels_ifBracket {b : Bracket} [Silent (.bracket b)] [TravelsPast x] [Travels y] :
    Travels (atBracket b >>= fun at_ => if at_ = true then x else y) := travels_ifKind

instance {consumed collapsed : Bool} : Silent (.terminator consumed collapsed) := ⟨rfl⟩

lemma travels_ifKey [TravelsPast x] [hy : Travels y] [Silent k]
    (kind : ∀ s : Session, s.Sound → s.symbol.key = key → s.symbol.kind = k) :
    Travels (atKey key >>= fun at_ => if at_ = true then x else y) := by
  refine ⟨fun {s} sound => ?_⟩
  rw [atKey_bind]
  split
  case isTrue at_ => exact TravelsPast.at sound (kind s sound (of_decide_eq_true at_))
  case isFalse => exact hy.reaches sound

instance travels_ifSemicolon [TravelsPast x] [Travels y] :
    Travels (atKey ";" >>= fun at_ => if at_ = true then x else y) :=
  travels_ifKey fun _ => semicolon_of_key

instance travels_ifCloseBrace [TravelsPast x] [Travels y] :
    Travels (atKey "\x7d" >>= fun at_ => if at_ = true then x else y) :=
  travels_ifKey fun _ => closeBrace_of_key

instance travels_ifTerminator [TravelsPast x] [hy : Travels y] :
    Travels (symbol >>= fun s => if s.isTerminator = true then x else y) := by
  refine ⟨fun {s} sound => ?_⟩
  rw [symbol_bind]
  split
  case isTrue terminator =>
    refine TravelsPast.reaches sound ?_
    rw [Symbol.isTerminator] at terminator
    cases kind : s.symbol.kind with
    | terminator consumed collapsed => rfl
    | _ => simp [kind] at terminator
  case isFalse => exact hy.reaches sound

end Tests

/-! ### Single steps -/

instance travels_emit (text : String) : Travels (emit text) := .of_writes

instance travels_skipNewlines : Travels skipNewlines :=
  ⟨fun sound => (Trip.refl sound).pastLines⟩

instance travels_skipTerminators : Travels skipTerminators :=
  ⟨fun sound => (Trip.refl sound).pastTerminators⟩

instance travels_takeSince (mark : Nat) : Travels (takeSince mark) :=
  ⟨fun sound => (Trip.refl sound).without mark⟩

instance travels_nextTemporary : Travels nextTemporary := .of_writes

instance travels_markArray (id : SymbolId) (line : Nat) : Travels (markArray id line) :=
  .of_moves (moves_markArray id line) fun _ _ _ sound run => (Trip.refl sound).markArray run

instance travels_markScalar (id : SymbolId) (line : Nat) : Travels (markScalar id line) :=
  .of_moves (moves_markScalar id line) fun _ _ _ sound run =>
    (Trip.refl sound).markScalar run

instance travels_useAsScalar (f : Fragment) : Travels (useAsScalar f) :=
  .of_moves (moves_useAsScalar f) fun _ _ _ sound run => (Trip.refl sound).use run

instance travels_expectBracket {b : Bracket} (text : String) [Silent (.bracket b)] :
    Travels (expectBracket b text) := by
  unfold expectBracket
  infer_instance

instance travels_expectSemicolon : Travels expectSemicolon := by
  unfold expectSemicolon
  infer_instance

instance travels_expression (context : Context) : Travels (expression context) :=
  .of_moves (moves_expression context) fun _ _ _ sound run =>
    ((reads_expression sound run).trip trivial).1

instance travels_operation (context : Context) (limit : Nat) :
    Travels (compiler (.operation context limit)) :=
  .of_moves (moves_compiler _) fun _ _ _ sound run =>
    ((faithful_compiler _ _ _ _ sound run).trip trivial).1

instance travels_condition : Travels condition := by
  unfold condition
  infer_instance

/-! ### Steps in places of their own -/

/-- Lines go elsewhere and back, whether the step fails or not. -/
lemma reaches_restoring {change : Listing → Listing} (hx : Travels x) (sound : s.Sound)
    (back : ∀ l', l'.toPosition = l.toPosition → (change l').toPosition = s.listing.toPosition) :
    s.Reaches (restoring x (fun s => { s with listing := change s.listing })
      { s with listing := l }) := by
  have reached := hx.reaches (s := { s with listing := l }) (sound.same rfl rfl)
  rw [restoring]
  cases run : x { s with listing := l } with
  | ok a s' | error e s' =>
    rw [run] at reached
    exact .between sound reached (back _ reached.position)

lemma dedent_position (same : l'.toPosition = l.indent.toPosition) :
    l'.dedent.toPosition = l.toPosition := by
  have depth : l'.depth = l.indent.depth := congrArg Position.depth same
  have bucket : l'.bucket = l.indent.bucket := congrArg Position.bucket same
  simp [Listing.dedent, Listing.indent, depth, bucket]

instance travels_indented [hx : Travels x] : Travels (indented x) := by
  refine ⟨fun {s} sound => ?_⟩
  rw [indented, indent, write_bind]
  refine reaches_restoring hx sound fun l' same => ?_
  exact dedent_position same

/-! ### Lists -/

instance travels_moreItems {comma : Compile Unit} {item : Compile α} [Travels comma]
    [Travels item] (fuel : Nat) (found : List α) : Travels (moreItems comma item fuel found) := by
  induction fuel generalizing found with
  | zero => exact travels_throw _
  | succ fuel ih =>
    unfold moreItems
    infer_instance

instance travels_subscript {comma : Compile Unit} [Travels comma] :
    Travels (subscript compiler comma) := by
  have : Travels (whole compiler {}) := travels_expression {}
  unfold subscript Expression.items
  infer_instance

end Compile

namespace Statement

variable {s s0 : Session}

instance travels_endSimple : Travels endSimple := by
  refine ⟨fun {s} sound => ?_⟩
  rw [endSimple, symbol_bind]
  split
  case isTrue consumed =>
    rw [Symbol.isConsumedTerminator] at consumed
    cases kind : s.symbol.kind with
    | terminator taken collapsed => exact (Trip.refl sound).pastKind kind rfl
    | _ => simp [kind] at consumed
  case isFalse => split <;> exact .refl sound

/-- The end of a statement whose lines are written. -/
lemma reaches_ending (trip : s0.Trip s) (text : String) :
    s0.Reaches ((do emit text; endSimple) s) :=
  Travels.then inferInstance trip

instance travels_expressionStatement : Travels expressionStatement := by
  unfold expressionStatement
  infer_instance

instance travels_delete : TravelsPast delete := by
  refine ⟨fun {s} sound passable => ?_⟩
  rw [delete, advance_bind, current_bind, symbol_bind]
  have start := (Trip.refl sound).pastKind rfl passable
  split
  · exact start.toStays
  case isFalse name =>
    have var : s.past.symbol.isVariable = true := by simpa using name
    obtain ⟨use, found⟩ := Symbol.isVariable_iff.mp var
    refine (travels_markArray _ _).bind start fun _ s1 mark _ => ?_
    obtain ⟨t, changed, rfl⟩ := changeTable_eq mark
    have grows := Table.grows_markArray changed
    obtain ⟨use', found'⟩ := Symbol.var_of_word (grows.word _ start.sound.current.valid) found
    rw [pythonOf_bind, advance_bind, atBracket_bind]
    have named := (start.grow grows).pastKind found' rfl
    split
    case isTrue opened =>
      have opened := of_decide_eq_true opened
      rw [advance_bind]
      -- the array is marked when its bracket comes
      have inside := named.pastLinked (by simp [opened]) fun p mem _ => by
        rw [Cursor.advance_prior, Option.mem_some_iff] at mem
        refine ⟨fun _ => mem ▸ Table.isArray_of_markArray changed var, fun assign => ?_⟩
        simp [SymbolKind.isAssign, opened] at assign
      exact travels_subscript.bind inside fun _ _ _ trip => reaches_ending trip _
    case isFalse => exact reaches_ending named _

/-! ### Output -/

instance travels_moreOutput (context : Context) (first : Fragment) :
    Travels (moreOutput context first) := by
  unfold moreOutput
  infer_instance

instance looks_atOutputEnd : Looks atOutputEnd := by
  refine ⟨fun s => ?_⟩
  rw [atOutputEnd, atStatementEnd_bind]
  split <;> exact ⟨_, rfl⟩

instance travels_outputItems : Travels outputItems := by
  refine ⟨fun {s} sound => ?_⟩
  refine Looks.travels.bind (.refl sound) fun atEnd s1 _ trip => ?_
  split
  · exact trip
  · rw [atBracket_bind]
    split
    · have arguments : Travels (arguments compiler { keepMissing := true }) :=
        .of_moves moves_arguments fun _ _ _ sound run =>
          ((reads_arguments faithful_compiler sound
            run).trip trivial).1
      refine arguments.bind trip fun group s2 run trip' => ?_
      have settled := ((reads_arguments
        faithful_compiler trip.sound run).trip trivial).2
      obtain ⟨b, look⟩ := looks_atOutputEnd.run s2
      refine Looks.travels.bind trip' fun atEnd' s3 look' trip' => ?_
      cases look.symm.trans look'
      split
      · exact trip'
      · rcases group with _ | ⟨first, _ | _⟩
        · exact trip'.toStays
        · -- the group ends with its parenthesis, so what stands before is no name
          refine Reaches.bind (trip'.reaches (trip'.sound.reaches
            (moves_compiler _) fun f s4 run => ?_)) fun f s4 _ trip' => ?_
          · exact ((faithful_compiler _ _ _ _ trip'.sound run).trip fun _ =>
              settled.any _).1
          · refine Reaches.bind (trip'.reaches (trip'.sound.reaches
              (moves_useAsScalar f) fun _ _ run => (Trip.refl trip'.sound).use run))
              fun _ _ _ trip' => (travels_moreOutput _ _).then trip'
        · exact trip'.toStays
    · exact (travels_expression _).bind trip fun first _ _ trip =>
        (travels_moreOutput _ _).then trip

instance travels_redirection : Travels redirection := by
  refine ⟨fun {s} sound => ?_⟩
  rw [redirection, symbol_bind]
  cases found : redirectionMode? s.symbol.key with
  | none => exact .refl sound
  | some mode =>
    have passed : s.Trip s.past := by
      have kind := redirection_kind sound found
      simp only [List.mem_cons, List.not_mem_nil, or_false] at kind
      rcases kind with kind | kind | kind <;> exact (Trip.refl sound).pastKind kind rfl
    dsimp only
    rw [advance_bind]
    refine (travels_operation _ _).bind passed fun target _ _ trip => ?_
    exact (travels_useAsScalar target).bind trip fun _ _ _ trip => trip

instance travels_writeCall (redirect : Option Redirection) (call : String) :
    Travels (writeCall redirect call) := by
  unfold writeCall
  split <;> infer_instance

instance travels_print {withFormat : Bool} : TravelsPast (print withFormat) := by
  unfold print printfCall
  infer_instance

/-! ### Statements with others inside -/

section Compound

variable {inner : Compile Unit} [hi : Travels inner]

instance travels_statements (fuel : Nat) : Travels (statements inner fuel) := by
  induction fuel with
  | zero => exact travels_throw _
  | succ fuel ih =>
    unfold statements
    infer_instance

instance travels_passUnlessWritten (before : Nat) : Travels (passUnlessWritten before) := by
  unfold passUnlessWritten
  infer_instance

instance travels_block : Travels (block inner) := by
  unfold block
  infer_instance

instance travels_body : Travels (body inner) := by
  unfold body
  infer_instance

instance travels_parenthesisedCondition : Travels parenthesisedCondition := by
  unfold parenthesisedCondition
  infer_instance

instance travels_branch : TravelsPast (branch inner) := by
  have rest : Travels (do
      if ← atKind .elseWord then
        advance
        emit "else:"
        body inner) := inferInstance
  unfold branch
  refine .next fun _ => .next fun _ => .next fun _ => .next fun _ => ?_
  -- A terminator goes only with the word after it.
  refine @travels_ifTerminator _ _ _ ?_ rest
  refine @Looks.past _ _ _ _ _ fun _ => @Looks.past _ _ _ _ _ fun _ => ?_
  exact @TravelsPast.ite _ _ _ _ _ (.next fun _ => rest) rest.past

instance writes_breakUnless (test : Fragment) : Writes m m (breakUnless test) := by
  unfold breakUnless
  infer_instance

instance travels_whileLoop : TravelsPast (whileLoop inner) := by
  refine ⟨fun {s} sound passable => ?_⟩
  rw [whileLoop, advance_bind, mark_bind]
  have start := (Trip.refl sound).pastKind rfl passable
  refine travels_parenthesisedCondition.bind start fun test _ _ trip => ?_
  refine (travels_takeSince _).bind trip fun lines s1 _ trip => ?_
  have tested : Travels (do
      emit "while True:"
      appendLines lines 1
      indent
      breakUnless test
      dedent) := .of_writes
  have looped : Travels (body inner) := inferInstance
  split
  · exact (travels_emit _).bind trip fun _ _ _ trip => looped.then trip
  · exact tested.bind trip fun _ _ _ trip => looped.then trip

instance writes_insertLoopHead (start : Nat) (flag : String) (test : Fragment)
    (lines : List String) : Writes 0 0 (insertLoopHead start flag test lines) := by
  unfold insertLoopHead
  infer_instance

/-- One line goes one level deeper. -/
lemma reaches_lineInside {rest : Compile Unit} (trip : s0.Trip s) (text : String)
    (hr : ∀ s', s0.Trip s' → s0.Reaches (rest s')) :
    s0.Reaches ((do indent; write (·.line text); dedent; rest) s) := by
  have line : Travels (do indent; write (·.line text); dedent) := .of_writes
  exact line.bind trip fun _ s' _ trip => hr s' trip

instance travels_doLoop : TravelsPast (doLoop inner) := by
  refine ⟨fun {s} sound passable => ?_⟩
  rw [doLoop, advance_bind]
  have start := (Trip.refl sound).pastKind rfl passable
  refine travels_nextTemporary.bind start fun n _ _ trip => ?_
  refine (travels_emit _).bind trip fun _ _ _ trip => ?_
  rw [mark_bind]
  refine reaches_lineInside trip _ fun _ trip => ?_
  refine travels_body.bind trip fun _ _ _ trip => ?_
  refine travels_skipTerminators.bind trip fun _ s1 _ trip => ?_
  rw [atKind_bind]
  split
  · exact trip.toStays
  case isFalse found =>
    beta_reduce
    rw [advance_bind, mark_bind]
    have passed := trip.pastKind (k := .keyword .whileLoop) (by simpa using found) rfl
    refine travels_parenthesisedCondition.bind passed fun test _ _ trip => ?_
    refine (travels_takeSince _).bind trip fun lines _ _ trip => ?_
    exact Travels.of_writes.bind trip fun _ _ _ trip => travels_endSimple.then trip

lemma reaches_forEach (trip : s0.Trip s)
    (kind : s.symbol.kind = .bracket .openParen) (head : keysHead? s = .ok (some (key, array)) s) :
    s0.Reaches (forEach inner key array s) := by
  obtain ⟨-, -, k1, k2, k3, k4⟩ := keysHead_ok head
  rw [forEach, advance_bind]
  have opened := trip.pastKind kind rfl
  have first := Ahead.first trip.sound (by simp [k1]) (by simp [k1])
  refine (travels_markScalar _ _).bind opened fun _ s1 mark _ => ?_
  obtain ⟨t, grows, rfl⟩ := markScalar_ok mark
  rw [advance_bind, advance_bind]
  have named := first.grow grows
  have second := named.advance (by simp [k2]) (by simp [k2])
  have third := second.advance (by simp [k3]) (by simp [k3])
  have between := ((opened.grow grows).pastBare (named.kind.trans k1) rfl).pastBare
    (second.kind.trans k2) rfl
  refine (travels_markArray _ _).bind between fun _ s2 mark' _ => ?_
  obtain ⟨t', grows', rfl⟩ := markArray_ok mark'
  rw [advance_bind]
  have last := (between.grow grows').pastBare ((third.grow grows').kind.trans k3) rfl
  refine (travels_expectBracket _).bind last fun _ _ _ trip => ?_
  rw [pythonOf_bind, pythonOf_bind]
  exact (travels_emit _).bind trip fun _ _ _ trip => travels_body.then trip

instance travels_optional {absent : Compile Bool} {part : Compile Fragment} [Looks absent]
    [Travels part] : Travels (optional absent part) := by
  unfold optional
  infer_instance

instance writes_emitPart (part : Option Fragment) : Writes m m (emitPart part) := by
  unfold emitPart
  split <;> infer_instance

instance writes_generator (n : Nat) (test : Option Fragment) (testLines : List String)
    (step : Option Fragment) (stepLines : List String) :
    Writes 0 0 (generator n test testLines step stepLines) := by
  refine .next fun _ => .next fun _ => ?_
  split <;> infer_instance

instance travels_countedLoop : TravelsPast (countedLoop inner) := by
  unfold countedLoop
  refine .next fun _ => .next fun _ => .next fun _ => .next fun _ => .next fun _ => ?_
  refine .next fun _ => .next fun _ => .next fun _ => .next fun _ => .next fun _ => ?_
  refine .next fun _ => .next fun _ => ?_
  infer_instance

instance travels_forLoop : TravelsPast (forLoop inner) := by
  refine ⟨fun {s} sound passable => ?_⟩
  rw [forLoop, advance_bind, atBracket_bind]
  have start := (Trip.refl sound).pastKind rfl passable
  split
  · exact start.toStays
  case isFalse found =>
    have opened : s.past.symbol.kind = .bracket .openParen := by simpa using found
    have look : ∃ head, keysHead? s.past = .ok head s.past := ⟨_, rfl⟩
    obtain ⟨head, run⟩ := look
    have travels : s.Reaches (keysHead? s.past) := by
      rw [run]
      exact start
    refine travels.bind fun head' s1 run' _ => ?_
    cases run.symm.trans run'
    rcases head with _ | ⟨key, array⟩
    · exact start.reaches (TravelsPast.at start.sound opened)
    · exact reaches_forEach start opened run

instance travels_keywordStatement (word : Keyword) : TravelsPast (keywordStatement inner word) := by
  unfold keywordStatement jump exit returnValue
  cases word <;> infer_instance

lemma travels_statement : Travels (statement inner) := by
  refine ⟨fun {s} sound => ?_⟩
  rw [statement, kind_bind]
  cases kind : s.symbol.kind with
  | keyword word => exact TravelsPast.at sound kind
  | bracket bracket =>
    cases bracket with
    | openBrace => exact travels_block.reaches sound
    | _ => exact travels_expressionStatement.reaches sound
  | _ => exact travels_expressionStatement.reaches sound

end Compound

/-- By induction on the depth: so do all statements. -/
instance travels_statementWithin (depth : Nat) : Travels (statementWithin depth) := by
  induction depth with
  | zero => exact travels_throw _
  | succ depth ih => exact travels_statement

end Statement

namespace Compile

instance travels_action : Travels action := by
  unfold action
  infer_instance

end Compile

end AwkToPython
