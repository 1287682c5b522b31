import AwkToPython.Proofs.Usage.Evolution
import AwkToPython.Proofs.Usage.Statement

/-!
# What a function says of its variables

The body of a function says nothing of the variables that its parameters hide.
So every token is labelled with the parameters of the function in whose body it
stands, and the neighbours of a variable count where it is none of them.
-/
namespace AwkToPython

open Python (IsPlain)
open Compile Table AwkToPython.Symbol Session

namespace Session

variable {s s' s'' : Session} {ls : List Label} {s1 s2 : Session} {l l' : Listing} {first : Nat}

/-- What may come of an item, also if it fails. -/
structure Keeps (s s' : Session) : Prop where
  start : s.Sound
  table : s.table.Evolves s'.table
  position : s'.listing.toPosition = s.listing.toPosition
  setting : s'.setting = s.setting
  sound : s'.Sound
  primes : s.table.Primes s'.table
  builtIn : ∀ id, (s'.table.symbol id).isBuiltIn = (s.table.symbol id).isBuiltIn

lemma Stays.keeps (h : s.Stays s') : s.Keeps s' :=
  ⟨h.start, h.table.evolves, h.position, h.setting, h.sound, h.table.primes, h.table.builtIn⟩

lemma Keeps.trans (h : s.Keeps s') (h' : s'.Keeps s'') : s.Keeps s'' :=
  ⟨h.start, h.table.trans h'.table, h'.position.trans h.position, h'.setting.trans h.setting,
    h'.sound, h.primes.trans h'.primes h.table.size,
    fun id => (h'.builtIn id).trans (h.builtIn id)⟩

/-- A token with the parameters that hide variables there. -/
abbrev Label := Token × List SymbolId

/-- What a label says of its neighbour. -/
def Scoped (t : Table) (a b : Label) : Prop := a.1.symbol ∉ a.2 → Token.Linked t a.1 b.1

/-- What an item that is compiled does, with the labels of its tokens. -/
structure Crosses (s s' : Session) (ls : List Label) : Prop extends s.Keeps s' where
  shown : s.cursor.shown = ls.map (·.1) ++ s'.cursor.shown
  prior : s'.cursor.prior = (s.cursor.prior.toList ++ ls.map (·.1)).getLast?
  links : (s.cursor.prior.toList.map (·, []) ++ ls).IsChain (Scoped s'.table)

/-- The tokens that were passed on the way to a session. -/
def passed (s s' : Session) : List Token :=
  s.cursor.shown.take (s.cursor.shown.length - s'.cursor.shown.length)

lemma passed_eq (h : s.cursor.shown = ts ++ s'.cursor.shown) : s.passed s' = ts := by
  simp [passed, h]

/-- The tokens that were passed, all with the same parameters. -/
def labelled (s s' : Session) (ids : List SymbolId) : List Label := (s.passed s').map (·, ids)

lemma Trip.crosses (h : s.Trip s') : s.Crosses s' (s.labelled s' []) := by
  obtain ⟨ts, shown, prior, links⟩ := h.tokens
  rw [labelled, passed_eq shown]
  have tokens : (ts.map fun t => (t, ([] : List SymbolId))).map (·.1) = ts := by
    simp [Function.comp_def]
  refine ⟨h.toStays.keeps, by rwa [tokens], by rwa [tokens], ?_⟩
  rw [← List.map_append, List.isChain_map]
  exact links.imp fun _ _ linked _ => linked

lemma Crosses.trans (h : s.Crosses s' ls) (h' : s'.Crosses s'' ls') :
    s.Crosses s'' (ls ++ ls') := by
  have shown : s.cursor.shown = (ls ++ ls').map (·.1) ++ s''.cursor.shown := by
    rw [h.shown, h'.shown, List.map_append, List.append_assoc]
  refine ⟨h.toKeeps.trans h'.toKeeps, shown, ?_, ?_⟩
  · rw [h'.prior, h.prior, List.map_append, ← List.append_assoc]
    exact getLast?_resume _ _
  · obtain ⟨-, later, joint⟩ := List.isChain_append.mp h'.links
    rw [← List.append_assoc]
    refine List.isChain_append.mpr ⟨?_, later, fun x last y first => ?_⟩
    · -- the labels of the first part stand for tokens that the table holds
      have valid : ∀ x ∈ s.cursor.prior.toList.map (·, []) ++ ls, x.1.symbol < s'.table.size := by
        have mem : ∀ t ∈ ls.map (·.1), t ∈ s.cursor.shown := by
          rw [h.shown]
          exact fun t ht => List.mem_append_left _ ht
        intro x hx
        refine Nat.lt_of_lt_of_le (h.start.valid_of_mem mem x.1 ?_) h.table.size
        simpa using List.mem_map_of_mem (f := Prod.fst) hx
      exact h.links.imp_of_mem_imp fun a b ha hb links outside =>
        (links outside).evolves h'.table (valid a ha) (valid b hb)
    · have same : s'.cursor.prior = some x.1 := by
        have tokens : (s.cursor.prior.toList.map (·, []) ++ ls).map Prod.fst =
            s.cursor.prior.toList ++ ls.map (·.1) := by simp [Function.comp_def]
        rw [h.prior, ← tokens, List.getLast?_map, last]
        rfl
      exact fun _ => joint (x.1, []) (by simp [same]) y first (by simp)

/-- Tokens that all have the same parameters. -/
lemma Crosses.eq_labelled (h : s.Crosses s' ls)
    (all : ∀ x ∈ ls, x.2 = ids) : ls = s.labelled s' ids := by
  rw [labelled, passed_eq h.shown, List.map_map]
  refine (List.map_id ls).symm.trans (List.map_congr_left fun x mem => ?_)
  exact Prod.ext rfl (all x mem)

end Session

/-! ### Parameters -/

/-- A variable or a function with the key of a variable can stand in for it. -/
lemma Symbol.Regular.stands {s s' : Symbol} (h : s.Regular) (var : s.isVariable)
    (key : s'.key = s.key) (kind : s'.kind = .var {} ∨ ∃ f, s'.kind = .function f)
    (plain : IsPlain s'.python) : s'.Stands := by
  have marks : ∀ e ∈ marks ++ binaryOperators, ∀ use, e.symbol.kind ≠ .var use := by
    have all : ∀ e ∈ marks ++ binaryOperators, e.symbol.kind.bare ≠ .var {} := by decide
    exact fun e he use same => all e he (by rw [same]; rfl)
  have words : ∀ e ∈ keywords, e.symbol.kind.bare ≠ .var {} ∧ ¬e.symbol.isFunction := by decide
  refine ⟨⟨fun e he keyed same => ?_, fun e he same => ?_, ?_, ?_, fun _ => plain, ?_, ?_⟩, ?_,
    plain⟩
  · have mark := h.mark e he keyed (key ▸ same)
    obtain ⟨use, hk⟩ := isVariable_iff.mp var
    exact absurd (mark.symm.trans hk) (marks e he use)
  · rcases kind with kind | ⟨f, kind⟩
    · exact absurd (by rw [← same, kind]; rfl) (words e he).1
    · exact absurd (by rw [isFunction, ← same, kind]) (words e he).2
  all_goals rcases kind with kind | ⟨f, kind⟩ <;>
    simp [isPaired, isBinary, isExclusive, SymbolKind.joins, kind]

namespace Item

open Session

/-- The variables that parameters stand for, as they were, with their bare names. -/
def Held (t : Table) (params : List Parameter) : Prop :=
  ∀ p ∈ params, (t.symbol p.id).isVariable = true ∧ p.saved = t.symbol p.id ∧
    p.name = Name.python (Name.bare p.saved.key)

lemma held_ofToken {tokens : List Token} (h : ∀ x ∈ tokens, (t.symbol x.symbol).isVariable) :
    Held t (tokens.map (Parameter.ofToken t)) := by
  intro p mem
  obtain ⟨token, inside, rfl⟩ := List.mem_map.mp mem
  exact ⟨h token inside, rfl, rfl⟩

/-- The table while the body of a function is compiled. -/
def redirected (params : List Parameter) (t : Table) : Table :=
  params.foldl (fun table p => p.redirect table) t

/-- The table after it. -/
def restored (params : List Parameter) (t : Table) : Table :=
  params.foldl (fun table p => p.restore table) t

section Parameters

variable {t u : Table} {params : List Parameter} {id : SymbolId}

lemma redirect_swaps {p : Parameter} (proper : t.Proper)
    (var : (t.symbol p.id).isVariable) : t.Swaps (p.redirect t) :=
  .set var ((proper.regular p.id).stands var rfl (.inl rfl) (IsPlain.append (by decide) p.name))
    rfl (by simp)

lemma redirect_isVariable (p : Parameter) (var : (t.symbol id).isVariable) :
    ((p.redirect t).symbol id).isVariable := by
  rw [Parameter.redirect, Table.modify, Table.symbol_set]
  split
  · rfl
  · exact var

lemma swaps_redirected (proper : t.Proper)
    (vars : ∀ p ∈ params, (t.symbol p.id).isVariable) : t.Swaps (redirected params t) := by
  induction params generalizing t with
  | nil => exact .refl t
  | cons p rest ih =>
    have first := redirect_swaps proper (vars p List.mem_cons_self)
    exact first.trans (ih (first.proper proper) fun q mem =>
      redirect_isVariable p (vars q (List.mem_cons_of_mem _ mem)))

lemma redirected_isVariable (var : (t.symbol id).isVariable) :
    ((redirected params t).symbol id).isVariable := by
  induction params generalizing t with
  | nil => exact var
  | cons p rest ih => exact ih (redirect_isVariable p var)

lemma redirected_key : ((redirected params t).symbol id).key = (t.symbol id).key := by
  induction params generalizing t with
  | nil => rfl
  | cons p rest ih =>
    have step : ((p.redirect t).symbol id).key = (t.symbol id).key := by
      rw [Parameter.redirect, Table.modify, Table.symbol_set]
      split
      case isTrue same => rw [same.1]
      case isFalse => rfl
    exact ih.trans step

lemma redirected_symbol (outside : id ∉ params.map (·.id)) :
    (redirected params t).symbol id = t.symbol id := by
  induction params generalizing t with
  | nil => rfl
  | cons p rest ih =>
    rw [List.map_cons, List.mem_cons, not_or] at outside
    have step : (p.redirect t).symbol id = t.symbol id := by
      rw [Parameter.redirect, Table.modify, Table.symbol_set,
        if_neg fun same => outside.1 same.1.symm]
    exact (ih outside.2).trans step

lemma spelled_redirected (spelled : t.Spelled) (params : List Parameter) :
    (redirected params t).Spelled := by
  induction params generalizing t with
  | nil => exact spelled
  | cons p rest ih =>
    refine ih (t := p.redirect t) fun id => ?_
    rw [Parameter.redirect, Table.modify, Table.symbol_set]
    split
    · exact spelled_of_head (c := '_') (by simp) (by simp) (by decide)
    · exact spelled id

/-- Every parameter gets back what it was. -/
lemma restored_symbol (held : ∀ p ∈ params, p.saved = t.symbol p.id) (bound : id < u.size) :
    (restored params u).symbol id =
      if id ∈ params.map (·.id) then t.symbol id else u.symbol id := by
  induction params generalizing u with
  | nil => simp [restored]
  | cons p rest ih =>
    have step := ih (fun q mem => held q (List.mem_cons_of_mem _ mem))
      (u := p.restore u) (by simpa [Parameter.restore] using bound)
    refine step.trans ?_
    rw [Parameter.restore, symbol_set, held p List.mem_cons_self]
    by_cases same : p.id = id
    · subst same
      simp [bound]
    · have other : id ≠ p.id := fun e => same e.symm
      simp [same, other]

lemma swaps_restored (proper : t.Proper) (held : Held t params)
    (vars : ∀ p ∈ params, (u.symbol p.id).isVariable ∧
      (u.symbol p.id).key = (t.symbol p.id).key) : u.Swaps (restored params u) := by
  induction params generalizing u with
  | nil => exact .refl u
  | cons p rest ih =>
    obtain ⟨var, saved, -⟩ := held p List.mem_cons_self
    obtain ⟨var', key⟩ := vars p List.mem_cons_self
    obtain ⟨use, kind⟩ := isVariable_iff.mp var
    have stands : p.saved.Stands := by
      rw [saved]
      exact ⟨proper.regular _, proper.exclusive _, (proper.regular _).plain (by rw [kind]; rfl)⟩
    refine (Swaps.set var' stands (by rw [saved, key]) (by simp [saved, kind])).trans
      (ih (fun q mem => held q (List.mem_cons_of_mem _ mem)) fun q mem => ?_)
    rw [symbol_set]
    split
    case isTrue same =>
      rw [saved, same.1]
      exact ⟨same.1 ▸ var, rfl⟩
    case isFalse => exact vars q (List.mem_cons_of_mem _ mem)

lemma Held.lt_size (held : Held t params) : ∀ id ∈ params.map (·.id), id < t.size := by
  intro id mem
  obtain ⟨p, hp, rfl⟩ := List.mem_map.mp mem
  obtain ⟨use, kind⟩ := Symbol.isVariable_iff.mp (held p hp).1
  exact Table.lt_size (by simp [kind])

lemma Held.isVariable (held : Held t params) (proper : t.Proper)
    (g : (redirected params t).Grows u) : ∀ p ∈ params, (u.symbol p.id).isVariable ∧
      (u.symbol p.id).key = (t.symbol p.id).key := by
  intro p mem
  have bound := held.lt_size p.id (List.mem_map_of_mem mem)
  have swaps := swaps_redirected proper fun p mem => (held p mem).1
  have word := g.word p.id (swaps.size ▸ bound)
  rw [isVariable_of_word word, key_of_word word]
  exact ⟨redirected_isVariable (held p mem).1, redirected_key⟩

/-- Over the body of a function the table has only grown. -/
lemma grows_restored (proper : t.Proper) (held : Held t params)
    (g : (redirected params t).Grows u) : t.Grows (restored params u) := by
  have swaps := swaps_redirected proper fun p mem => (held p mem).1
  have back := swaps_restored proper held (held.isVariable proper g)
  have larger : t.size ≤ u.size := swaps.size ▸ g.size
  -- a parameter is what it was, and all else is as it was left
  have symbol : ∀ id, (restored params u).symbol id = t.symbol id ∨
      id ∉ params.map (·.id) ∧ (restored params u).symbol id = u.symbol id := by
    intro id
    rcases Nat.lt_or_ge id u.size with inside | beyond
    · rw [restored_symbol (fun p mem => (held p mem).2.1) inside]
      by_cases mem : id ∈ params.map (·.id)
      · exact .inl (if_pos mem)
      · exact .inr ⟨mem, if_neg mem⟩
    · rw [symbol_of_size_le (back.size ▸ beyond),
        symbol_of_size_le (Nat.le_trans larger beyond)]
      exact .inl rfl
  have fresh : ∀ id, t.size ≤ id → id < (restored params u).size →
      (restored params u).symbol id = u.symbol id := by
    intro id above below
    rw [restored_symbol (fun p mem => (held p mem).2.1) (back.size ▸ below),
      if_neg fun mem => absurd (held.lt_size _ mem) (Nat.not_lt.mpr above)]
  refine ⟨back.size ▸ larger, fun id bound => ?_, fun id bound => ?_, fun id above below => ?_,
    fun proper => back.proper (g.proper (swaps.proper proper)),
    ⟨fun id bound primed => ?_, fun id above below => ?_,
      back.orderly ∘ g.primes.orderly ∘ swaps.orderly⟩, fun id => ?_, fun spelled id => ?_,
    fun id => ?_⟩
  · rcases symbol id with same | ⟨outside, same⟩ <;> rw [same]
    rw [g.word id (swaps.size ▸ bound), redirected_symbol outside]
  · rcases symbol id with same | ⟨outside, same⟩ <;> rw [same]
    · exact .refl _
    · have learns := g.learns id (swaps.size ▸ bound)
      rwa [redirected_symbol outside] at learns
  · rw [fresh id above below]
    exact g.fresh id (swaps.size ▸ above) (back.size ▸ below)
  · rcases symbol id with same | ⟨outside, same⟩ <;> rw [same]
    · exact primed
    · exact g.primes.kept id (swaps.size ▸ bound) (by rwa [redirected_symbol outside])
  · rw [fresh id above below]
    exact g.primes.fresh id (swaps.size ▸ above) (back.size ▸ below)
  · rcases symbol id with same | ⟨outside, same⟩ <;> rw [same]
    rw [g.builtIn, redirected_symbol outside]
  · rcases symbol id with same | ⟨-, same⟩ <;> rw [same]
    · exact spelled id
    · exact g.spelled (spelled_redirected spelled params) id
  · rcases symbol id with same | ⟨outside, same⟩ <;> rw [same]
    rw [g.functions, redirected_symbol outside]

/-- What the neighbours of other variables say still holds after the body. -/
lemma linked_restored (held : Held t params) (h : Token.Linked u a b)
    (bound : a.symbol < u.size) (bound' : b.symbol < u.size)
    (outside : a.symbol ∉ params.map (·.id)) : Token.Linked (restored params u) a b := by
  have saved : ∀ p ∈ params, p.saved = t.symbol p.id := fun p mem => (held p mem).2.1
  have same : (restored params u).symbol a.symbol = u.symbol a.symbol := by
    rw [restored_symbol saved bound, if_neg outside]
  rw [Token.Linked, isArray, isScalar, same]
  by_cases inside : b.symbol ∈ params.map (·.id)
  · -- a parameter is a variable before and after
    obtain ⟨p, hp, name⟩ := List.mem_map.mp inside
    obtain ⟨use, kind⟩ := isVariable_iff.mp (held p hp).1
    rw [restored_symbol saved bound', if_pos inside, ← name, kind]
    simp [SymbolKind.isSubscript, SymbolKind.isAssign]
  · rw [restored_symbol saved bound', if_neg inside]
    exact h

end Parameters

/-! ### Functions -/

section Function

variable {s s' : Session} {params : List Parameter}

/-- Before a body lines are written and the parameters get other symbols. -/
lemma functionBody_run (method : String) (params : List Parameter) (s : Session) :
    ∃ s1 first, functionBody method params s = restoring action (closeBody first params) s1 ∧
      Alike { s with table := redirected params s.table } s1 := by
  let signature := "self" :: params.map Parameter.signature
  obtain ⟨_, s0, run, alike, -⟩ := (writes_emit (m := 0)
    (s!"def {method}(" ++ Text.join ", " signature ++ "):")).run s s.listing.depth rfl
  let opened := s0.listing.indent.line "_locals=AwkpyRuntimeVarOwner()"
  let listing := params.foldl (fun l p => l.line p.line) opened
  refine ⟨{ s0 with table := redirected params s0.table, listing }, opened.mark, ?_, ?_⟩
  · rw [functionBody]
    simp only [Bind.bind, EStateM.bind] at run ⊢
    rw [run]
    rfl
  · have place : listing.toPosition = s0.listing.indent.toPosition := by
      rw [Listing.foldl_toPosition _ _ fun _ _ => Listing.line_toPosition _ _,
        Listing.line_toPosition]
    exact ⟨by rw [alike.table], alike.setting, alike.current, alike.ahead, alike.prior,
      (congrArg Position.bucket place).trans alike.bucket, alike.comments⟩

/-- What follows a body, in whatever place it stands. -/
lemma stays_closed (sound : s.Sound) (held : Held s.table params)
    (before : Alike { s with table := redirected params s.table, listing := l } s1)
    (h : s1.Stays s2) (back : l'.toPosition = s.listing.toPosition) :
    s.Stays { closeBody first params s2 with listing := l' } := by
  have grows : (redirected params s.table).Grows s2.table := by
    have grows := h.table
    rwa [before.table] at grows
  have swapped := h.sound.swap
    (swaps_restored sound.proper held (held.isVariable sound.proper grows))
  exact ⟨sound, grows_restored sound.proper held grows, back, h.setting.trans before.setting,
    swapped.same rfl rfl⟩

lemma crosses_closed (sound : s.Sound)
    (held : Held s.table params) (opened : s.symbol.kind = .bracket .openBrace)
    (before : Alike { s with table := redirected params s.table, listing := l } s1)
    (h : s1.Trip s2) (back : l'.toPosition = s.listing.toPosition) :
    let s' : Session := { closeBody first params s2 with listing := l' }
    s.Crosses s' (s.labelled s' (params.map (·.id))) := by
  intro s'
  have stays : s.Stays s' := stays_closed sound held before h.toStays back
  obtain ⟨ts, shown, prior, links⟩ := h.tokens
  have shown' : s.cursor.shown = ts ++ s'.cursor.shown := by
    rw [Cursor.shown, Cursor.shown, before.current, before.ahead] at shown
    exact shown
  rw [labelled, passed_eq shown']
  have tokens : (ts.map fun t => (t, params.map (·.id))).map (·.1) = ts := by
    simp [Function.comp_def]
  rw [before.prior] at prior
  rw [Links, before.prior] at links
  obtain ⟨-, inside, -⟩ := List.isChain_append.mp links
  refine ⟨stays.keeps, by rwa [tokens], by rwa [tokens], List.isChain_append.mpr ⟨?_, ?_, ?_⟩⟩
  · cases s.cursor.prior <;> simp
  · -- in the body only the parameters are others
    rw [List.isChain_map]
    have valid : ∀ x ∈ ts, x.symbol < s2.table.size := fun x mem =>
      Nat.lt_of_lt_of_le (h.start.shown_sound
        (by rw [shown]; exact List.mem_append_left _ mem)).valid h.table.size
    exact inside.imp_of_mem_imp fun a b ha hb linked outside =>
      linked_restored held linked (valid a ha) (valid b hb) outside
  · -- the body begins with its brace
    intro x last y head _
    have first : y.1 = s.cursor.current := by
      cases ts with
      | nil => cases head
      | cons t rest =>
        rw [Cursor.shown, List.cons_append, List.cons.injEq] at shown'
        simp only [List.map_cons, List.head?_cons, Option.mem_some_iff] at head
        rw [← head, shown'.1]
    refine Token.linked_of_isSilent ?_
    rw [first, kind_of_word (stays.table.word _ sound.current.valid) opened (by simp)]
    rfl

/-- A function is compiled with its parameters hidden, and they come back. -/
lemma function_cases (method : String) (sound : s.Sound) (held : Held s.table params)
    (opened : s.symbol.kind = .bracket .openBrace) :
    (match inBucket .functions (functionBody method params) s with
      | .ok _ s' => s.Crosses s' (s.labelled s' (params.map (·.id)))
      | .error _ s' => s.Keeps s') ∧
    ∀ p ∈ params, (after (inBucket .functions (functionBody method params) s)).table.symbol p.id =
      s.table.symbol p.id := by
  let entered : Session := { s with listing := s.listing.enter .functions }
  obtain ⟨s1, first, run, before⟩ := functionBody_run method params entered
  have sound1 : s1.Sound := by
    have swapped : Sound { entered with table := redirected params s.table } :=
      (sound.swap (swaps_redirected sound.proper fun p mem => (held p mem).1)).same rfl rfl
    exact swapped.alike before
  have whole : inBucket .functions (functionBody method params) s =
      restoring (functionBody method params) (fun s' =>
        { s' with listing := s'.listing.leave s.listing.toPosition }) entered := rfl
  -- the symbols of the parameters, whatever comes of the body
  have symbols : ∀ {s2 : Session}, s1.Stays s2 → ∀ p ∈ params,
      (restored params s2.table).symbol p.id = s.table.symbol p.id := by
    intro s2 stays p mem
    have larger := stays.table.size
    rw [before.table] at larger
    have swaps := swaps_redirected sound.proper fun p mem => (held p mem).1
    have bound : p.id < s2.table.size := Nat.lt_of_lt_of_le
      (held.lt_size p.id (List.mem_map_of_mem mem)) (swaps.size ▸ larger)
    rw [restored_symbol (fun q hq => (held q hq).2.1) bound, if_pos (List.mem_map_of_mem mem)]
  rw [whole, restoring, run, restoring]
  have reached := travels_action.reaches sound1
  cases body : action s1 with
  | ok a s2 =>
    rw [body] at reached
    exact ⟨crosses_closed sound held opened before reached rfl, symbols reached.toStays⟩
  | error e s2 =>
    rw [body] at reached
    have back : ((closeBody first params s2).listing.leave s.listing.toPosition).toPosition =
      s.listing.toPosition := rfl
    exact ⟨(stays_closed sound held before reached back).keeps, symbols reached⟩

end Function

end Item

end AwkToPython
