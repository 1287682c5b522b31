import AwkToPython.Proofs.Usage.Function

/-!
# What an item says of its variables

Items are taken one after the other. All but functions are trips; the definition
of a function is one up to its body.
-/
namespace AwkToPython

open Compile Table Session

namespace Session

variable {α : Type} {s s0 : Session}

/-- What may come of items, with the labels of their tokens. -/
def Leaves (s : Session) (ls : List Label) : EStateM.Result Error Session α → Prop
  | .ok _ s' => s.Crosses s' ls
  | .error _ s' => s.Keeps s'

lemma Reaches.leaves (h : s.Reaches r) : s.Leaves (s.labelled (after r) []) r := by
  cases r with
  | ok a s' => exact Trip.crosses h
  | error e s' => exact Stays.keeps h

lemma Leaves.keeps (h : s.Leaves ls r) : s.Keeps (after r) := by
  cases r with
  | ok a s' => exact h.toKeeps
  | error e s' => exact h

end Session

namespace Item

variable {params : List Parameter} {method : String}

open Session

variable {s s' s0 : Session}

/-! ### Functions -/

/-- The parameters of a function, up to its body. -/
def parameterList (method : String) : Compile (String × List Parameter) := do
  expectBracket .openParen "("
  skipNewlines
  let tokens ← parameters ((← remaining) + 1) []
  advance
  skipNewlines
  if !(← atBracket .openBrace) then unexpected (.mark "\x7b")
  let table := (← get).table
  return (method, tokens.map (Parameter.ofToken table))

/-- The definition of a function up to its body: the name of the method and the
parameters. -/
def opening : Compile (String × List Parameter) := do
  advance
  parameterList (← defineFunction)

lemma definition_eq :
    definition = opening >>= fun found => inBucket .functions (functionBody found.1 found.2) := by
  simp only [definition, opening, parameterList, bind_assoc]
  iterate 9 refine bind_congr fun _ => ?_
  split <;> simp only [bind_assoc, pure_bind]

/-- The name of a function is a variable of which nothing is known yet. -/
lemma defineFunction_cases (sound : s.Sound) :
    (∃ e, defineFunction s = .error e s) ∨ ∃ name s1, defineFunction s = .ok name s1.past ∧
      s.Crosses s1 [] ∧ ∃ f, s1.symbol.kind = .function f := by
  rw [defineFunction, current_bind, symbol_bind]
  cases kind : s.symbol.kind with
  | var use =>
    dsimp only
    split
    · exact .inl ⟨_, rfl⟩
    case isFalse free =>
      let function : Symbol :=
        { s.symbol with kind := .function { strategy := .user }, initial := "" }
      have var : s.symbol.isVariable := Symbol.isVariable_iff.mpr ⟨use, kind⟩
      have unused : s.table.isUnused s.cursor.current.symbol := by
        simp only [Bool.or_eq_true, not_or, Bool.not_eq_true] at free
        simp [isUnused, var, isArray, isScalar, Symbol.variableUse?, kind, free]
      have plain := sound.current.regular.plain (by rw [kind]; rfl)
      have stands : function.Stands :=
        sound.current.regular.stands var rfl (.inr ⟨_, rfl⟩) plain
      refine .inr ⟨_, { s with table := s.table.set s.cursor.current.symbol function }, rfl,
        ⟨⟨sound, .set unused rfl rfl rfl fun _ => stands, rfl, rfl,
          sound.swap (.set var stands rfl (by simp [function])),
          .set var rfl (by simp [function]) fun _ => rfl, fun id => ?_⟩, rfl, ?_, ?_⟩,
        { strategy := .user }, ?_⟩
      · rw [symbol_set]
        split
        case isTrue same =>
          have own : s.symbol.isBuiltIn = false := by
            simp only [Bool.or_eq_true, not_or, Bool.not_eq_true] at free
            simp [Symbol.isBuiltIn, Symbol.variableUse?, kind, free]
          rw [← same.1]
          exact own.symm
        case isFalse => rfl
      · cases s.cursor.prior <;> rfl
      · cases s.cursor.prior <;> simp
      · rw [Session.symbol, symbol_set, if_pos ⟨rfl, sound.current.valid⟩]
  | function f =>
    obtain ⟨strategy, library⟩ := f
    cases strategy <;> exact .inl ⟨_, rfl⟩
  | _ => exact .inl ⟨_, rfl⟩

lemma travels_parameters (fuel : Nat) (found : List Token) : Travels (parameters fuel found) := by
  induction fuel generalizing found with
  | zero => exact travels_throw _
  | succ fuel ih =>
    refine ⟨fun {s} sound => ?_⟩
    rw [parameters, atBracket_bind]
    split
    · exact .refl sound
    · rw [symbol_bind]
      split
      · exact .refl sound
      case isFalse name =>
        obtain ⟨use, kind⟩ := Symbol.isVariable_iff.mp (by simpa using name)
        beta_reduce
        rw [current_bind, advance_bind]
        have passed := ((Trip.refl sound).pastKind kind rfl).pastLines
        rw [skipNewlines_bind, atKind_bind]
        split
        case isTrue comma =>
          rw [advance_bind, skipNewlines_bind]
          exact (ih _).then (passed.pastKind (of_decide_eq_true comma) rfl).pastLines
        case isFalse =>
          rw [atBracket_bind]
          split
          · exact passed.toStays
          · exact (ih _).then passed

lemma parameters_ok (run : parameters fuel found s = .ok tokens s') :
    s'.table = s.table ∧ s'.listing = s.listing ∧ s'.symbol.kind = .bracket .closeParen ∧
      ∀ t ∈ tokens, t ∈ found ∨ (s'.table.symbol t.symbol).isVariable := by
  induction fuel generalizing s found with
  | zero => cases run
  | succ fuel ih =>
    rw [parameters, atBracket_bind] at run
    split at run
    case isTrue closed =>
      cases run
      exact ⟨rfl, rfl, of_decide_eq_true closed, fun t mem => .inl mem⟩
    case isFalse =>
      rw [symbol_bind] at run
      obtain ⟨name, run⟩ := check_ok run
      have var : s.symbol.isVariable := by simpa using name
      beta_reduce at run
      rw [current_bind, advance_bind, skipNewlines_bind, atKind_bind] at run
      -- the rest, from whatever place behind the name
      have rest : ∀ {s1 : Session},
          parameters fuel (found ++ [s.cursor.current]) s1 = .ok tokens s' →
          s1.table = s.table → s1.listing = s.listing → s'.table = s.table ∧
            s'.listing = s.listing ∧ s'.symbol.kind = .bracket .closeParen ∧
            ∀ t ∈ tokens, t ∈ found ∨ (s'.table.symbol t.symbol).isVariable := by
        intro s1 run same lines
        obtain ⟨table, listing, closed, all⟩ := ih run
        refine ⟨table.trans same, listing.trans lines, closed, fun t mem => ?_⟩
        rcases all t mem with before | var'
        · rcases List.mem_append.mp before with before | here
          · exact .inl before
          · rw [List.mem_singleton.mp here, table, same]
            exact .inr var
        · exact .inr var'
      split at run
      · rw [advance_bind, skipNewlines_bind] at run
        exact rest run rfl rfl
      · rw [atBracket_bind] at run
        split at run
        · exact absurd run (by simp [bind_ok])
        · exact rest run rfl rfl

lemma travels_parameterList (method : String) : Travels (parameterList method) := by
  refine ⟨fun {s} sound => ?_⟩
  refine (travels_expectBracket _).bind (.refl sound) fun _ _ _ trip => ?_
  refine travels_skipNewlines.bind trip fun _ _ _ trip => ?_
  rw [remaining_bind]
  refine (travels_parameters _ _).bind trip fun tokens s1 run trip => ?_
  rw [advance_bind]
  obtain ⟨-, -, closed, -⟩ := parameters_ok run
  refine travels_skipNewlines.bind (trip.pastKind closed rfl) fun _ _ _ trip => ?_
  rw [atBracket_bind]
  split
  · exact trip.toStays
  · exact trip

lemma parameterList_ok (run : parameterList method s = .ok (name, params) s') :
    Held s'.table params ∧ s'.symbol.kind = .bracket .openBrace := by
  obtain ⟨_, s1, -, run⟩ := bind_ok.mp run
  rw [skipNewlines_bind, remaining_bind] at run
  obtain ⟨tokens, s2, found, run⟩ := bind_ok.mp run
  obtain ⟨-, -, -, all⟩ := parameters_ok found
  rw [advance_bind, skipNewlines_bind, atBracket_bind] at run
  obtain ⟨opened, run⟩ := check_ok run
  cases run
  exact ⟨held_ofToken fun x mem => (all x mem).resolve_left (by simp), by simpa using opened⟩

/-- The definition of a function is a trip up to its body, but for its name. -/
lemma opening_cases (sound : s.Sound) (kind : s.symbol.kind = .keyword .function) :
    (∃ e s1, opening s = .error e s1 ∧ s.Keeps s1) ∨ ∃ method params s1,
      opening s = .ok (method, params) s1 ∧ s.Crosses s1 (s.labelled s1 []) ∧
      Held s1.table params ∧ s1.symbol.kind = .bracket .openBrace := by
  have start := (Trip.refl sound).pastKind kind rfl
  have step : opening s = (defineFunction >>= parameterList) s.past := rfl
  rw [step]
  rcases defineFunction_cases start.sound with ⟨e, run⟩ | ⟨name, s1, run, named, f, function⟩
  · exact .inl ⟨e, s.past, bind_of_error run, start.toStays.keeps⟩
  · rw [bind_of_ok run]
    have passed := (Trip.refl named.sound).pastKind function rfl
    have reached := (travels_parameterList name).then passed
    cases found : parameterList name s1.past with
    | error e s2 =>
      rw [found] at reached
      exact .inl ⟨e, s2, rfl, (start.toStays.keeps.trans named.toKeeps).trans (Stays.keeps reached)⟩
    | ok result s2 =>
      rw [found] at reached
      have crosses := (start.crosses.trans named).trans (Trip.crosses reached)
      obtain ⟨held, opened⟩ := parameterList_ok found
      refine .inr ⟨result.1, result.2, s2, rfl, ?_, held, opened⟩
      have bare : ∀ (a b : Session) (x : Label), x ∈ a.labelled b [] → x.2 = [] := by
        intro a b x mem
        obtain ⟨t, -, rfl⟩ := List.mem_map.mp mem
        rfl
      rw [← crosses.eq_labelled fun x mem => ?_]
      · exact crosses
      · rw [List.append_nil] at mem
        exact (List.mem_append.mp mem).elim (bare _ _ x) (bare _ _ x)

/-! ### Rules and sections -/

instance travels_inBucket {x : Compile Unit} (bucket : Bucket) [hx : Travels x] :
    Travels (inBucket bucket x) := by
  refine ⟨fun {s} sound => ?_⟩
  have back : ∀ l' : Listing, l'.toPosition = (s.listing.enter bucket).toPosition →
      (l'.leave s.listing.toPosition).toPosition = s.listing.toPosition := fun _ _ => rfl
  exact reaches_restoring hx sound back

instance travels_ruleAction : Travels ruleAction := by
  unfold ruleAction
  infer_instance

/-- The action of a rule one level deeper, after what opens it. -/
lemma reaches_ruleAction (only : Writes 0 1 x) (trip : s0.Trip s) : s0.Reaches ((do
      x
      restoring ruleAction fun s => { s with listing := s.listing.dedent }) s) := by
  obtain ⟨_, s1, run, alike, depth⟩ := only.run s s.listing.depth rfl
  rw [bind_of_ok run]
  -- one level up, the session is that before
  let back : Session := { s1 with listing := { s1.listing with depth := s.listing.depth } }
  have same : s.Alike back := ⟨alike.table, alike.setting, alike.current, alike.ahead, alike.prior,
    alike.bucket, alike.comments⟩
  have trip1 : s0.Trip back := trip.alike same rfl
  refine trip1.reaches (reaches_restoring (s := back) (l := s1.listing) travels_ruleAction
    trip1.sound fun l' position => ?_)
  have deeper : l'.depth = s.listing.depth + 1 := (congrArg Position.depth position).trans depth
  have bucket : l'.bucket = s1.listing.bucket := congrArg Position.bucket position
  simp [Listing.dedent, back, deeper, bucket]

instance travels_rule : Travels rule := by
  refine ⟨fun {s} sound => ?_⟩
  rw [rule]
  refine travels_condition.bind (.refl sound) fun pattern s1 _ trip => ?_
  rw [atKind_bind]
  split
  case isTrue comma =>
    rw [rangeHead, bind_assoc, advance_bind, bind_assoc]
    refine travels_skipNewlines.bind (trip.pastKind (of_decide_eq_true comma) rfl)
      fun _ _ _ trip => ?_
    rw [bind_assoc, mark_bind, bind_assoc]
    refine travels_condition.bind trip fun last _ _ trip => ?_
    rw [bind_assoc]
    refine (travels_takeSince _).bind trip fun lines s2 _ trip => ?_
    rw [bind_assoc, intern_bind, bind_assoc, pythonOf_bind]
    have flagged := trip.grow (grows_rangeFlag s2.table)
    generalize (symbol _ _).python = flag
    have only : Writes 0 1 (do
        emit s!"if {flag} or ({pattern.text}):"
        indent
        appendLines lines 1
        emit s!"{flag} = not ({last.text})") := inferInstance
    exact reaches_ruleAction only flagged
  case isFalse =>
    have only : Writes 0 1 (patternHead pattern) := .next fun _ => writes_indent
    exact reaches_ruleAction only trip

instance travels_needMainLoop : Travels needMainLoop :=
  ⟨fun sound => (Trip.refl sound).alike ⟨rfl, rfl, rfl, rfl, rfl, rfl, fun _ => id⟩ rfl⟩

instance travels_part {section_ : Section} : TravelsPast (part section_) := by
  unfold part
  infer_instance

/-! ### Items -/

/-- The labels of an item: the parameters of a function are hidden in its body. -/
def labels (s : Session) : List Label :=
  match s.symbol.kind, opening s with
  | .keyword .function, .ok (_, params) s1 =>
    s.labelled s1 [] ++ s1.labelled (after (item s)) (params.map (·.id))
  | _, _ => s.labelled (after (item s)) []

lemma item_of_function (kind : s.symbol.kind = .keyword .function) : item s = definition s := by
  rw [item, kind_bind, kind]

lemma item_of_opening
    (kind : s.symbol.kind = .keyword .function) (run : opening s = .ok (method, params) s') :
    item s = inBucket .functions (functionBody method params) s' := by
  rw [item_of_function kind, definition_eq, bind_of_ok run]

lemma leaves_definition (sound : s.Sound) (kind : s.symbol.kind = .keyword .function) :
    s.Leaves (labels s) (item s) := by
  rw [labels, kind, item_of_function kind, definition_eq]
  rcases opening_cases sound kind with ⟨e, s1, run, keeps⟩ |
    ⟨method, params, s1, run, crosses, held, opened⟩
  · rw [bind_of_error run]
    exact keeps
  · obtain ⟨reached, -⟩ := function_cases method crosses.sound held opened
    rw [bind_of_ok run, run]
    cases body : inBucket .functions (functionBody method params) s1 with
    | ok a s2 =>
      rw [body] at reached
      exact crosses.trans reached
    | error e s2 =>
      rw [body] at reached
      exact crosses.toKeeps.trans reached

lemma reaches_item (sound : s.Sound) (other : s.symbol.kind ≠ .keyword .function) :
    s.Reaches (item s) := by
  rw [item, kind_bind]
  cases kind : s.symbol.kind with
  | heading part => exact travels_part.reaches sound (by rw [kind]; rfl)
  | bracket bracket => cases bracket <;> exact Travels.reaches sound
  | keyword word =>
    cases word with
    | function => exact absurd kind other
    | _ => exact Travels.reaches sound
  | _ => exact Travels.reaches sound

lemma leaves_item (sound : s.Sound) : s.Leaves (labels s) (item s) := by
  by_cases function : s.symbol.kind = .keyword .function
  · exact leaves_definition sound function
  · have plain : labels s = s.labelled (after (item s)) [] := by
      rw [labels]
      split
      case h_1 kind _ => exact absurd kind function
      case h_2 => rfl
    rw [plain]
    exact (reaches_item sound function).leaves

/-- The session where the next item starts, if there is one. -/
def next (s : Session) : Session := after (skipTerminators s)

/-- The labels of all items. -/
def allLabels : Nat → Session → List Label
  | 0, _ => []
  | fuel + 1, s =>
    s.labelled (next s) [] ++
      if (next s).symbol.isEnd then []
      else labels (next s) ++ allLabels fuel (after (item (next s)))

lemma items_succ (fuel : Nat) (s : Session) : items (fuel + 1) s =
    if (next s).symbol.isEnd then .ok () (next s) else (do item; items fuel) (next s) := by
  have step : items (fuel + 1) s = (do
      if !(← symbol).isEnd then
        item
        items fuel) (next s) := rfl
  rw [step, symbol_bind]
  cases (next s).symbol.isEnd <;> rfl

lemma leaves_items (fuel : Nat) (sound : s.Sound) : s.Leaves (allLabels fuel s) (items fuel s) := by
  induction fuel generalizing s with
  | zero => exact (Stays.refl sound).keeps
  | succ fuel ih =>
    have first : s.Trip (next s) := (Trip.refl sound).pastTerminators
    rw [items_succ, allLabels]
    generalize next s = s1 at first ⊢
    by_cases ended : s1.symbol.isEnd
    · rw [if_pos ended, if_pos ended, List.append_nil]
      exact first.crosses
    · rw [if_neg ended, if_neg ended]
      have reached := leaves_item first.sound
      cases run : item s1 with
      | error e s2 =>
        rw [run] at reached
        rw [bind_of_error run]
        exact first.toStays.keeps.trans reached
      | ok a s2 =>
        rw [run] at reached
        have crosses := first.crosses.trans reached
        have later := ih reached.sound
        rw [bind_of_ok run]
        cases done : items fuel s2 with
        | ok b s3 =>
          rw [done] at later
          have whole := crosses.trans later
          rw [List.append_assoc] at whole
          exact whole
        | error e s3 =>
          rw [done] at later
          exact crosses.toKeeps.trans later

/-- The sessions in which items start, up to the first that fails. -/
def starts : Nat → Session → List Session
  | 0, _ => []
  | fuel + 1, s =>
    if (next s).symbol.isEnd then []
    else next s :: match item (next s) with
      | .ok _ s1 => starts fuel s1
      | .error _ _ => []

/-- What is kept after each item is kept to the end. -/
lemma keeps_of_mem_starts (sound : s.Sound) (mem : b ∈ starts fuel s) :
    b.Sound ∧ (after (item b)).Keeps (after (items fuel s)) := by
  induction fuel generalizing s with
  | zero => cases mem
  | succ fuel ih =>
    have first : s.Trip (next s) := (Trip.refl sound).pastTerminators
    rw [items_succ]
    rw [starts] at mem
    generalize next s = s1 at first mem ⊢
    split at mem
    · cases mem
    case isFalse more =>
      rw [if_neg more]
      have reached := leaves_item first.sound
      rcases List.mem_cons.mp mem with rfl | mem
      · refine ⟨first.sound, ?_⟩
        cases run : item b with
        | ok a s2 =>
          rw [run] at reached
          rw [bind_of_ok run]
          exact (leaves_items fuel reached.sound).keeps
        | error e s2 =>
          rw [run] at reached
          rw [bind_of_error run]
          exact (Stays.refl reached.sound).keeps
      · cases run : item s1 with
        | ok a s2 =>
          rw [run] at mem reached
          rw [bind_of_ok run]
          exact ih reached.sound mem
        | error e s2 =>
          rw [run] at mem
          cases mem

/-- After the definition of a function its parameters are what they were before its
body. -/
lemma item_parameters (sound : s.Sound)
    (kind : s.symbol.kind = .keyword .function) (run : opening s = .ok (method, params) s') :
    ∀ p ∈ params, (after (item s)).table.symbol p.id = s'.table.symbol p.id := by
  rw [item_of_opening kind run]
  rcases opening_cases sound kind with ⟨e, s1, failed, -⟩ | ⟨_, _, s1, found, crosses, held, opened⟩
  · cases failed.symm.trans run
  · cases found.symm.trans run
    exact (function_cases method crosses.sound held opened).2

end Item

end AwkToPython
