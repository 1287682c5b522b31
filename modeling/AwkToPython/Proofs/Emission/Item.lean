import AwkToPython.Proofs.Emission.Statement
import AwkToPython.Proofs.Program

/-!
# Items and sources only add lines

An item writes to a bucket of its own choice, and a definition changes the lines
of its parameters once its body is known. No line of an earlier item is touched.
-/
namespace AwkToPython

variable {x : Compile α} {s : Session} {t : Table} {first : Nat}

open Compile List Table Listing Text

variable {p : Char → Prop} {method : String} {l : Listing} {table : Table} {k : Nat}

/-- The lines of every bucket are kept, with others behind them. No mark has gone
astray. -/
structure Listing.Extends (l l' : Listing) : Prop where
  lines : ∀ b, (l.linesOf b).toList <+: (l'.linesOf b).toList
  strayed : l'.strayed = l.strayed

namespace Listing

variable {l l' l'' : Listing}

lemma Extends.trans (h : l.Extends l') (h' : l'.Extends l'') : l.Extends l'' :=
  ⟨fun b => (h.lines b).trans (h'.lines b), h'.strayed.trans h.strayed⟩

lemma Appends.extends (h : l.Appends l') : l.Extends l' := by
  refine ⟨fun b => ?_, h.strayed⟩
  by_cases here : b = l.bucket
  · have current : l'.linesOf b = l'.lines := by rw [Listing.lines, h.bucket, here]
    rw [current, here]
    exact h.lines
  · rw [h.others b here]

@[simp] lemma linesOf_moved (l : Listing) (position : Position) (b : Bucket) :
    linesOf { l with toPosition := position } b = l.linesOf b := by
  rcases b with (_ | _ | _ | _ | _) | _ <;> rfl

end Listing

namespace Session

/-- One session comes from another by adding lines to any buckets. -/
structure Extends (p : Char → Prop) (s s' : Session) : Prop where
  legible : s'.Over p
  listing : s.listing.Extends s'.listing
  setting : s'.setting = s.setting
  keys : s.table.Rekeys p s'.table
  notes : s.Notes s'

variable {s s' s'' : Session}

lemma Adds.extends (h : s.Adds p s') : s.Extends p s' :=
  ⟨h.legible, h.listing.extends, h.setting, h.keys, h.notes⟩

lemma Extends.trans (h : s.Extends p s') (h' : s'.Extends p s'') : s.Extends p s'' :=
  ⟨h'.legible, h.listing.trans h'.listing, h'.setting.trans h.setting, h.keys.trans h'.keys,
    h.notes.trans h'.notes⟩

end Session

namespace Compile

variable {α β : Type} {Q : α → Prop}

/-- A step that only adds lines, to any buckets. -/
def Lengthens (p : Char → Prop) (x : Compile α) : Prop :=
  ∀ s : Session, s.Over p → s.Extends p (after (x s))

lemma Emits.lengthens {x : Compile α} (h : Emits p x Q) : Lengthens p x := fun s legible =>
  (h s legible).1.extends

lemma Lengthens.bind {x : Compile α} {f : α → Compile β} (hx : Lengthens p x)
    (hf : ∀ a, Lengthens p (f a)) : Lengthens p (x >>= f) := by
  intro s legible
  have first := hx s legible
  cases run : x s with
  | ok a s' =>
    rw [run] at first
    rw [bind_of_ok run]
    exact first.trans (hf a s' first.legible)
  | error e s' =>
    rw [run] at first
    rw [bind_of_error run]
    exact first

lemma Lengthens.next {x : Compile α} {f : α → Compile β} [hx : Quiet p x]
    (hf : ∀ a, Lengthens p (f a)) : Lengthens p (x >>= f) := hx.emits.lengthens.bind hf

end Compile

namespace Item

variable {params : List Parameter}

/-- What is written to a bucket is added there, and all comes back to where lines
went before. -/
lemma extends_inBucket {x : Compile Unit} {bucket : Bucket}
    (h : Session.Adds p { s with listing := s.listing.enter bucket }
      (after (x { s with listing := s.listing.enter bucket }))) :
    s.Extends p (after (inBucket bucket x s)) := by
  let s1 : Session := { s with listing := s.listing.enter bucket }
  have step : inBucket bucket x s =
      restoring x (fun s' => { s' with listing := s'.listing.leave s.listing.toPosition }) s1 := rfl
  have back : ∀ s' : Session, s1.Adds p s' →
      s.Extends p { s' with listing := s'.listing.leave s.listing.toPosition } := by
    intro s' adds
    refine ⟨{ adds.legible with listing := adds.legible.listing.moved _ },
      ⟨fun b => ?_, adds.listing.strayed⟩, adds.setting, adds.keys, adds.notes.calls,
      adds.notes.noted, adds.notes.table⟩
    have lines := adds.listing.extends.lines b
    have entered : s1.listing.linesOf b = s.listing.linesOf b := linesOf_moved _ _ b
    have left : (s'.listing.leave s.listing.toPosition).linesOf b = s'.listing.linesOf b :=
      linesOf_moved _ _ b
    rwa [left, ← entered]
  have adds : s1.Adds p (after (x s1)) := h
  rw [step, restoring]
  cases run : x s1 with
  | ok a s' | error e s' =>
    rw [run] at adds
    exact back s' adds

lemma lengthens_inBucket {x : Compile Unit} {Q : Unit → Prop} (h : Emits p x Q) (bucket : Bucket) :
    Lengthens p (inBucket bucket x) := fun s legible =>
  extends_inBucket (h { s with listing := s.listing.enter bucket }
    { legible with listing := legible.listing.moved _ }).1

/-! ### Rules -/

lemma emits_rangeHead [HoldsGraphic p] {start : Fragment} (h : start.Over p) :
    Emits p (rangeHead start) fun _ => True := by
  refine .next fun _ => .next fun _ => ?_
  refine emits_condition.since fun last lines hl hs => ?_
  refine (emits_intern (fun t ht => over_rangeFlag ht) (fun t _ =>
    rekeys_rangeFlag t) fun _ => ⟨(keepsDefinable_push _).definable, rfl⟩).bind
    fun id _ => ?_
  refine (emits_pythonOf id).bind fun flag hf => ?_
  refine .line ?_ <| .next fun _ =>
    (emits_appendLines hs 1).bind fun _ _ => emits_emit ?_ <;>
  simp (disch := decide) [hf, h.text, hl.text]

lemma emits_patternHead [HoldsGraphic p] (h : pattern.Over p) :
    Emits p (patternHead pattern) fun _ => True := by
  refine .line ?_ Quiet.emits
  simp (disch := decide) [h.text]

instance quiet_ruleAction [HoldsGraphic p] : Quiet p ruleAction := by
  have : Quiet p (emit Statement.printRecord) := ⟨emits_emit (.fixed rfl)⟩
  unfold ruleAction
  infer_instance

lemma emits_rule [HoldsGraphic p] : Emits p rule fun _ => True := by
  have ending := (quiet_ruleAction (p := p)).emits.restoring_depth (·.depth - 1)
  refine emits_condition.bind fun pattern h => .next fun comma => ?_
  split
  · exact (emits_rangeHead h).bind fun _ _ => ending
  · exact (emits_patternHead h).bind fun _ _ => ending

/-! ### Functions -/

/-- The texts of a parameter are over a set. -/
structure Parameter.Over (p : Char → Prop) (param : Parameter) : Prop where
  name : Text.Over p param.name
  saved : param.saved.Over p
  key : Text.Over p param.saved.key
  var : param.saved.isVariable = true

lemma python_over [HoldsGraphic p] {name : String} (h : Over p name) :
    Over p (Name.python name) := by
  have underscore : Over p "_" := .fixed rfl
  rw [Name.python]
  split
  · exact Over.append.mpr ⟨h, underscore⟩
  · exact h

lemma bare_over {key : String} (h : Over p key) : Over p (Name.bare key) := by
  rw [Name.bare, Name.qualified?]
  cases found : cut? Name.separator key with
  | none => exact h
  | some parts =>
    obtain ⟨scope, bare⟩ := parts
    rw [Option.filter_some]
    split
    · exact (Over.cut found h).2
    · exact h

lemma ofToken_over [HoldsGraphic p] (h : ∀ id, (t.symbol id).Over p) {token : Token}
    (var : (t.symbol token.symbol).isVariable = true) : (Parameter.ofToken t token).Over p :=
  ⟨python_over (bare_over ((h _).key var)), h _, (h _).key var, var⟩

lemma emits_defineFunction : Emits p defineFunction (Over p) := by
  refine .next fun token => emits_symbol.bind fun s hs => ?_
  have rest (key : Over p s.key) : Emits p (do
      changeTable fun table => .ok (table.set token.symbol
        { s with kind := .function { strategy := .user }, initial := "" })
      advance
      return (after? "self." s.python).getD s.python) (Over p) := by
    have changed : Emits p (changeTable fun table => .ok (table.set token.symbol
        { s with kind := .function { strategy := .user }, initial := "" })) fun _ => True := by
      refine emits_changeTable fun t t' ht same => ?_
      cases same
      have noLibrary : Function.Over p { strategy := .user } := ⟨by simp, by simp⟩
      refine ⟨over_set ht ⟨hs.python, .empty, (fun var => by cases var), fun f same => ?_⟩,
        rekeys_set (.inr key), keepsDefinable_set rfl⟩
      cases same
      exact noLibrary
    have name : Over p ((after? "self." s.python).getD s.python) := by
      cases found : after? "self." s.python with
      | none => exact hs.python
      | some rest => exact .after found hs.python
    exact changed.bind fun _ _ => .next fun _ => .pure name
  split
  case h_1 use kind =>
    split
    · exact .bind (.throw _) fun _ (no : False) => no.elim
    · exact rest (hs.key (by simp [Symbol.isVariable, Symbol.variableUse?, kind]))
  · exact .bind (.throw _) fun _ (no : False) => no.elim
  · exact .unexpected_bind _

instance quiet_parameters (fuel : Nat) (found : List Token) : Quiet p (parameters fuel found) := by
  induction fuel generalizing found with
  | zero => exact ⟨.throw _⟩
  | succ fuel ih =>
    rw [parameters]
    dsimp only
    refine ⟨.next fun closing => ?_⟩
    split
    · exact Quiet.emits
    · refine .next fun s => ?_
      split <;> exact Quiet.emits

lemma emits_parameterList [HoldsGraphic p] (hm : Over p method) :
    Emits p (parameterList method) fun found =>
      Over p found.1 ∧ ∀ param ∈ found.2, param.Over p := by
  refine .next fun _ => .next fun _ => ?_
  refine .next fun n => ?_
  -- the table that the parameters are taken from is the one they were found in
  intro s legible
  have tokens := (quiet_parameters (p := p) (n + 1) []).emits
  refine tokens.after_bind (.refl legible) fun tokens s1 run _ adds => ?_
  obtain ⟨-, -, -, all⟩ := parameters_ok run
  rw [advance_bind, skipNewlines_bind, atBracket_bind]
  have moved : s.Adds p { s1 with cursor := (s1.cursor.advance).skip Token.isNewline } :=
    adds.trans (adds.legible.adds_same rfl rfl rfl rfl rfl rfl)
  split
  · exact ⟨moved, fun _ _ ok => absurd ok (by simp [bind_ok])⟩
  · refine ⟨moved, fun found s' ok => ?_⟩
    cases ok
    refine ⟨hm, fun param mem => ?_⟩
    obtain ⟨token, inside, rfl⟩ := mem_map.mp mem
    exact ofToken_over adds.legible.symbols ((all token inside).resolve_left (by simp))

lemma emits_opening [HoldsGraphic p] : Emits p opening fun found =>
    Over p found.1 ∧ ∀ param ∈ found.2, param.Over p :=
  .next fun _ => emits_defineFunction.bind fun _ hm => emits_parameterList hm

/-! ### Bodies -/

/-- What holds of parameters when their body begins. -/
structure Ready (p : Char → Prop) (t : Table) (params : List Parameter) : Prop where
  legible : ∀ param ∈ params, param.Over p
  isVar : ∀ param ∈ params, (t.symbol param.id).isVariable = true

lemma over_redirected [HoldsGraphic p]
    (ready : Ready p t params) (h : ∀ id, (t.symbol id).Over p) (id : SymbolId) :
    ((redirected params t).symbol id).Over p := by
  induction params generalizing t with
  | nil => exact h id
  | cons param rest ih =>
    refine ih (t := param.redirect t) ⟨fun q mem => ready.legible q (mem_cons_of_mem _ mem),
      fun q mem => redirect_isVariable param (ready.isVar q (mem_cons_of_mem _ mem))⟩ ?_
    have key := (h param.id).key (ready.isVar param mem_cons_self)
    have python : Over p ("_locals." ++ param.name) :=
      Over.append.mpr ⟨.fixed rfl, (ready.legible param mem_cons_self).name⟩
    exact over_set h (.ofVar rfl python (h param.id).initial key)

lemma rekeys_redirected (t : Table) (params : List Parameter) :
    t.Rekeys p (redirected params t) := by
  induction params generalizing t with
  | nil => exact .refl t
  | cons param rest ih =>
    have first : t.Rekeys p (param.redirect t) := rekeys_set (.inl rfl)
    exact first.trans (ih _)

lemma rekeys_restored (ready : ∀ param ∈ params, param.Over p)
    (t : Table) : t.Rekeys p (restored params t) := by
  induction params generalizing t with
  | nil => exact .refl t
  | cons param rest ih =>
    have first : t.Rekeys p (param.restore t) :=
      rekeys_set (.inr (ready param mem_cons_self).key)
    exact first.trans (ih (fun q mem => ready q (mem_cons_of_mem _ mem)) _)

lemma keepsDefinable_redirected (t : Table) (params : List Parameter) :
    t.KeepsDefinable (redirected params t) := by
  induction params generalizing t with
  | nil => exact .refl t
  | cons param rest ih =>
    have first : t.KeepsDefinable (param.redirect t) := keepsDefinable_set rfl
    exact first.trans (ih _)

lemma keepsDefinable_restored (ready : ∀ param ∈ params, param.Over p)
    (t : Table) : t.KeepsDefinable (restored params t) := by
  induction params generalizing t with
  | nil => exact .refl t
  | cons param rest ih =>
    have var := (ready param mem_cons_self).var
    have first : t.KeepsDefinable (param.restore t) :=
      keepsDefinable_set (Symbol.isDefinable_of_isVariable var)
    exact first.trans (ih (fun q mem => ready q (mem_cons_of_mem _ mem)) _)

lemma over_restored (ready : ∀ param ∈ params, param.Over p)
    (h : ∀ id, (t.symbol id).Over p) (id : SymbolId) : ((restored params t).symbol id).Over p := by
  induction params generalizing t with
  | nil => exact h id
  | cons param rest ih =>
    exact ih (t := param.restore t) (fun q mem => ready q (mem_cons_of_mem _ mem))
      (over_set h (ready param mem_cons_self).saved)

/-- The lines of the parameters are settled one by one, none of them before the
first. -/
lemma settled_appends
    (h : l.Appends l') (behind : l.mark ≤ first + k)
    (inside : first + k + params.length ≤ l'.mark) :
    l.Appends ((params.zipIdx k).foldl
      (fun l entry => entry.1.settle table l (first + entry.2)) l') := by
  induction params generalizing l' k with
  | nil => exact h
  | cons param rest ih =>
    rw [length_cons] at inside
    rw [zipIdx_cons, foldl_cons, Parameter.settle]
    split
    · refine ih (h.replace behind (by omega) _ _) (by omega) ?_
      rw [mark_replace]
      omega
    · exact ih h (by omega) (by omega)

lemma settled_over [HoldsGraphic p] (ready : ∀ param ∈ params, param.Over p) (h : l.Over p) :
    Listing.Over p ((params.zipIdx k).foldl
      (fun l entry => entry.1.settle table l (first + entry.2)) l) := by
  induction params generalizing l k with
  | nil => exact h
  | cons param rest ih =>
    rw [zipIdx_cons, foldl_cons, Parameter.settle]
    have later : ∀ q ∈ rest, q.Over p := fun q mem => ready q (mem_cons_of_mem _ mem)
    have name := (ready param mem_cons_self).name
    split
    · refine ih later (h.replace _ _ ?_)
      simp (disch := decide) [Parameter.arrayLine, name]
    · exact ih later h

lemma closeBody_adds [HoldsGraphic p]
    (ready : ∀ param ∈ params, param.Over p) (h : s.Adds p s') (behind : s.listing.mark ≤ first)
    (inside : first + params.length ≤ s'.listing.mark) : s.Adds p (closeBody first params s') := by
  let l := settleParameters s'.table first params s'.listing
  have appends : s.listing.Appends l := settled_appends h.listing behind inside
  have legible : l.Over p := settled_over ready h.legible.listing
  have dedented : l.Appends l.dedent := ⟨rfl, prefix_refl _, fun b _ => by
    rcases b with (_ | _ | _ | _ | _) | _ <;> rfl, rfl⟩
  have empty : Over p (indentation l.dedent.depth ++ "") :=
    Over.append.mpr ⟨.indentation _, .empty⟩
  refine ⟨⟨over_restored ready h.legible.symbols, h.legible.imports, h.legible.headers, ?_⟩, ?_,
    h.setting, h.keys.trans (rekeys_restored ready _),
    h.notes.trans (.of_calls rfl (keepsDefinable_restored ready _))⟩
  · change Listing.Over p (l.dedent.line "")
    rw [line_eq_extend]
    refine Listing.Over.extend (legible.moved _) fun line mem => ?_
    rw [mem_singleton.mp mem]
    exact empty
  · change s.listing.Appends (l.dedent.line "")
    rw [line_eq_extend]
    exact (appends.trans dedented).extend _

/-- The lines of the parameters stand at the beginning of the body. -/
lemma parameterLines_eq (params : List Parameter) (l : Listing) :
    params.foldl (fun l param => l.line param.line) l =
      l.extend (params.map fun param => indentation l.depth ++ param.line) := by
  induction params generalizing l with
  | nil => exact (extend_nil l).symm
  | cons param rest ih =>
    rw [foldl_cons, ih, line_eq_extend, extend_extend,
      extend_toPosition]
    rfl

lemma functionBody_adds [HoldsGraphic p] (hm : Text.Over p method)
    (ready : Ready p s.table params) (legible : s.Over p) :
    s.Adds p (after (functionBody method params s)) := by
  have signatures : ∀ text ∈ "self" :: params.map Parameter.signature, Text.Over p text := by
    intro text mem
    rcases mem_cons.mp mem with rfl | mem
    · exact .fixed rfl
    · obtain ⟨param, inside, rfl⟩ := mem_map.mp mem
      have name := (ready.legible param inside).name
      simp (disch := decide) [Parameter.signature, name]
  have comma : Text.Over p ", " := .fixed rfl
  have head : Text.Over p
      (s!"def {method}(" ++ Text.join ", " ("self" :: params.map Parameter.signature) ++ "):") := by
    simp (disch := decide) [hm, Text.Over.join comma signatures]
  let s0 := s.written (s.linesFor
    (s!"def {method}(" ++ Text.join ", " ("self" :: params.map Parameter.signature) ++ "):"))
  let opened := s0.listing.indent.line "_locals=AwkpyRuntimeVarOwner()"
  let written := params.foldl (fun l param => l.line param.line) opened
  let s1 : Session := { s0 with table := redirected params s0.table, listing := written }
  have step : functionBody method params s =
      restoring action (closeBody opened.mark params) s1 := by
    rw [functionBody]
    simp only [Bind.bind, EStateM.bind, emit_eq]
    rfl
  -- the lines before the body are added, those of the parameters from a mark on
  have adds0 : s.Adds p s0 := legible.adds_written (legible.linesFor head)
  have indented : s0.listing.Appends s0.listing.indent := ⟨rfl, prefix_refl _, fun b _ => by
    rcases b with (_ | _ | _ | _ | _) | _ <;> rfl, rfl⟩
  have appends : s.listing.Appends opened := by
    have extended := (adds0.listing.trans indented).extend
      [indentation s0.listing.indent.depth ++ "_locals=AwkpyRuntimeVarOwner()"]
    rwa [← line_eq_extend] at extended
  have overOpened : opened.Over p := by
    change Listing.Over p (s0.listing.indent.line _)
    rw [line_eq_extend]
    refine Listing.Over.extend (adds0.legible.listing.moved _) fun line mem => ?_
    rw [mem_singleton.mp mem]
    exact Text.Over.append.mpr ⟨.indentation _, .fixed rfl⟩
  have lines : written = opened.extend
      (params.map fun param => indentation opened.depth ++ param.line) :=
    parameterLines_eq params opened
  have overWritten : written.Over p := by
    rw [lines]
    refine overOpened.extend fun line mem => ?_
    obtain ⟨param, inside, rfl⟩ := mem_map.mp mem
    have name := (ready.legible param inside).name
    have indentation : Text.Over p _ := .indentation opened.depth
    simp (disch := decide) [Parameter.line, name, indentation]
  have appends1 : s.listing.Appends written := by
    rw [lines]
    exact appends.extend _
  have room : written.mark = opened.mark + params.length := by
    rw [lines, Listing.mark, lines_extend]
    simp [Listing.mark]
  have adds1 : s.Adds p s1 :=
    ⟨⟨over_redirected ready adds0.legible.symbols, adds0.legible.imports, adds0.legible.headers,
      overWritten⟩, appends1, adds0.setting, adds0.keys.trans (rekeys_redirected _ _),
      adds0.notes.trans (.of_calls rfl (keepsDefinable_redirected _ _))⟩
  -- the body may fail, and what follows it comes in either case
  have closed : ∀ s' : Session, s1.Adds p s' → s.Adds p (closeBody opened.mark params s') := by
    intro s' adds
    have grown : s1.listing.mark ≤ s'.listing.mark := adds.listing.mark_le
    exact closeBody_adds ready.legible (adds1.trans adds) appends.mark_le (room ▸ grown)
  have body := (quiet_action.emits s1 adds1.legible).1
  rw [step, restoring]
  cases run : action s1 with
  | ok a s' | error e s' =>
    rw [run] at body
    exact closed s' body

lemma lengthens_definition [HoldsGraphic p] : Lengthens p definition := by
  intro s legible
  rw [definition_eq]
  cases run : opening s with
  | error e s' =>
    have adds := (emits_opening s legible).1
    rw [run] at adds
    rw [bind_of_error run]
    exact adds.extends
  | ok found s' =>
    obtain ⟨adds, name, params⟩ := emits_opening.adds legible run
    have held : Held s'.table found.2 := by
      obtain ⟨_, _, -, rest⟩ := bind_ok.mp run
      obtain ⟨_, _, -, rest⟩ := bind_ok.mp rest
      exact (parameterList_ok rest).1
    rw [bind_of_ok run]
    refine adds.extends.trans (extends_inBucket ?_)
    exact functionBody_adds name ⟨params, fun param mem => (held param mem).1⟩
      { adds.legible with listing := adds.legible.listing.moved _ }

/-! ### Items -/

lemma lengthens_part [HoldsGraphic p] (part : Section) : Lengthens p (Item.part part) := by
  have block := lengthens_inBucket (quiet_action (p := p)).emits (.part part)
  refine .next fun _ => .next fun here => ?_
  cases here with
  | false => exact Emits.lengthens (Q := fun _ => True) (.unexpected_bind _)
  | true =>
    simp only [Bool.not_true, Bool.false_eq_true, if_false]
    split
    · exact .next fun _ => block
    · exact block

lemma lengthens_item [HoldsGraphic p] : Lengthens p item := by
  refine .next fun kind => ?_
  split
  · exact lengthens_part _
  · exact .next fun _ => lengthens_inBucket Quiet.emits _
  · exact lengthens_definition
  · exact .next fun _ => lengthens_inBucket emits_rule _

lemma lengthens_items [HoldsGraphic p] (fuel : Nat) : Lengthens p (items fuel) := by
  induction fuel with
  | zero => exact Emits.lengthens (Q := fun _ => True) (.throw _)
  | succ fuel ih =>
    refine .next fun _ => .next fun s => ?_
    split
    · exact (lengthens_item).bind fun _ => ih
    · exact Emits.lengthens (Q := fun _ => True) (.pure trivial)

end Item

namespace Compile

lemma lengthens_items [HoldsGraphic p] : Lengthens p items :=
  .next fun _ => Item.lengthens_items _

end Compile

/-! ### Sources -/

/-- Nothing is asked of any text. -/
lemma Session.over_true (s : Session) : s.Over fun _ => True := by
  refine ⟨fun id => ⟨?_, ?_, fun _ => ?_, fun f _ => ⟨fun name _ => ?_, fun name _ => ?_⟩⟩,
    fun name _ => ?_, fun header _ => ?_, fun b line _ => ?_⟩ <;>
  exact fun _ _ => trivial

instance : HoldsGraphic fun _ => True := ⟨fun _ _ => trivial⟩

namespace Compile

variable {Q : α → Prop}

lemma Emits.appends (h : Emits (fun _ => True) x Q) (s : Session) :
    s.listing.Appends (after (x s)).listing := (h s s.over_true).1.listing

lemma Lengthens.listing (h : Lengthens (fun _ => True) x) (s : Session) :
    s.listing.Extends (after (x s)).listing := (h s s.over_true).listing

lemma addSource_extends (source : Source) (s : Session) :
    s.listing.Extends (after (addSource source s)).listing := by
  refine after_addSource (P := fun s' => s.listing.Extends s'.listing) ?_ fun s' still =>
    still.trans ((lengthens_items (p := fun _ => True)).listing s')
  rw [(loads_load source s).listing]
  exact (Listing.Appends.refl _).extends

/-- An expression or a statement writes behind the lines of the current bucket and
to no other, an item or a source behind the lines of any bucket. Whether they
compile or fail, no line that stood there before is changed, and no mark is used
that lies behind the last line. -/
theorem emission_only_appends (s : Session) :
    (∀ context, s.listing.Appends (after (expression context s)).listing) ∧
    (∀ depth, s.listing.Appends (after (Statement.statementWithin depth s)).listing) ∧
    s.listing.Extends (after (Item.item s)).listing ∧
    ∀ source, s.listing.Extends (after (addSource source s)).listing := by
  refine ⟨fun context => ?_, fun depth => ?_, ?_, fun source => addSource_extends source s⟩
  · exact (emits_expression (p := fun _ => True) context).appends s
  · exact (Statement.quiet_statementWithin (p := fun _ => True) depth).emits.appends s
  · exact (Item.lengthens_item (p := fun _ => True)).listing s

end Compile

end AwkToPython
