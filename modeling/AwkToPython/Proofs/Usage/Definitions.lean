import AwkToPython.Proofs.Emission.Item
import AwkToPython.Proofs.Usage.Restoration
import Mathlib.Data.List.Forall2

/-!
# Calls and definitions

A call of a function is written where it is met, with the text that its name has
there, and the function may be defined before, later or in another source. A name
that is no function yet is noted, and in the end all that was noted has to be
functions. Here it is said which lines define them. In the body of a function a
parameter hides the function of its name, and what is called there is the parameter.
-/
namespace AwkToPython

variable {s : Symbol} {params : List Parameter}

open Compile Session List AwkToPython.Symbol Table Text Listing

/-! ### Lines that begin a definition -/

namespace Python

variable {line text : String} {ls : List String}

/-- The line begins the definition of a method; lines of a body are indented. -/
def isDefinition (line : String) : Bool := Text.startsWith "def " line

lemma isDefinition_iff : isDefinition line ↔ ∃ rest, line.toList = "def ".toList ++ rest := by
  rw [isDefinition, startsWith, isPrefixOf_iff_prefix]
  exact exists_congr fun rest => eq_comm

lemma isDefinition_outermost (h : isDefinition line) : isCode line ∧ width line = 0 := by
  obtain ⟨rest, same⟩ := isDefinition_iff.mp h
  simp [isCode, content, width, same]

lemma Laid.no_definition (h : Laid 1 ls) : ls.filter isDefinition = [] := by
  refine filter_eq_nil_iff.mpr fun line mem definition => ?_
  obtain ⟨code, outermost⟩ := isDefinition_outermost definition
  have deep := (h.nested.deep line (mem_filter.mpr ⟨mem, code⟩)).2
  omega

/-- Comments aside, the line of a name is the only one that begins a definition. -/
lemma Shows.definition (h : Shows 0 text ls) (begins : isDefinition text) :
    ∃ more, ls.filter isDefinition = [text ++ more] := by
  obtain ⟨rest, same⟩ := isDefinition_iff.mp begins
  obtain ⟨more, code⟩ := h.filter (by simp [startsCode, same])
  have begins' : isDefinition (text ++ more) :=
    isDefinition_iff.mpr ⟨rest ++ more.toList, by simp [same]⟩
  have both : ls.filter isDefinition = (ls.filter isCode).filter isDefinition := by
    rw [filter_filter]
    refine filter_congr fun line _ => ?_
    cases definition : isDefinition line with
    | false => rfl
    | true => simp [(isDefinition_outermost definition).1]
  refine ⟨more, ?_⟩
  rw [both, code]
  simp [indentation, begins']

/-- The line begins the definition of the method that a text names. -/
def Defines (text line : String) : Prop :=
  ∃ method rest, text = "self." ++ method ∧ line = "def " ++ method ++ "(" ++ rest

end Python

/-- The lines of the functions that begin a definition. -/
def Listing.definitions (l : Listing) : List String :=
  (l.linesOf .functions).toList.filter Python.isDefinition

/-! ### Functions of the program -/

/-- A function that the program defines. -/
def Symbol.isUser (s : Symbol) : Bool := s.isFunction && s.kind.isDefinable

lemma Symbol.isUser_of_word {s' : Symbol} (h : s'.word = s.word) : s'.isUser = s.isUser := by
  rw [isUser, isUser, isFunction_of_word h, ← SymbolKind.isDefinable_bare s'.kind, bare_of_word h,
    SymbolKind.isDefinable_bare]

lemma Symbol.isUser_of_isVariable (h : s.isVariable) : s.isUser = false := by
  cases kind : s.kind <;> simp_all [isUser, isFunction, isVariable, variableUse?]

namespace Table

variable {t t' : Table} {id : SymbolId}

lemma lt_size_of_isUser (h : (t.symbol id).isUser) : id < t.size :=
  lt_size fun kind => by simp [Symbol.isUser, isFunction, kind] at h

lemma Grows.isUser (h : t.Grows t') (id : SymbolId) :
    (t'.symbol id).isUser = (t.symbol id).isUser := by
  rcases Nat.lt_or_ge id t.size with inside | beyond
  · exact isUser_of_word (h.word id inside)
  · have none : (t.symbol id).isFunction = false := by
      rw [symbol_of_size_le beyond]
      rfl
    rw [Symbol.isUser, Symbol.isUser, h.functions id, none]
    rfl

end Table

namespace Session

variable {s s' : Session} {functions : List SymbolId}

/-- The functions of the program, in the order of their definitions. -/
structure Lists (s : Session) (functions : List SymbolId) : Prop where
  nodup : functions.Nodup
  mem_iff : ∀ id, id ∈ functions ↔ (s.table.symbol id).isUser = true
  lines : Forall₂ Python.Defines (functions.map fun id => (s.table.symbol id).python)
    s.listing.definitions

lemma Lists.same (h : s.Lists functions)
    (users : ∀ id, (s'.table.symbol id).isUser = (s.table.symbol id).isUser)
    (texts : ∀ id, (s.table.symbol id).isUser →
      (s'.table.symbol id).python = (s.table.symbol id).python)
    (definitions : s'.listing.definitions = s.listing.definitions) : s'.Lists functions := by
  refine ⟨h.nodup, fun id => by rw [users, h.mem_iff], ?_⟩
  have names : (functions.map fun id => (s'.table.symbol id).python) =
      functions.map fun id => (s.table.symbol id).python :=
    map_congr_left fun id mem => texts id ((h.mem_iff id).mp mem)
  rw [names, definitions]
  exact h.lines

lemma Lists.grows (h : s.Lists functions) (grows : s.table.Grows s'.table)
    (definitions : s'.listing.definitions = s.listing.definitions) : s'.Lists functions :=
  h.same grows.isUser (fun id user => python_of_word
    (grows.word id (lt_size_of_isUser user))) definitions

/-- A variable becomes a function, and a line begins its definition. -/
lemma Lists.define (h : s.Lists functions) {id : SymbolId} {symbol : Symbol} {line : String}
    (var : (s.table.symbol id).isVariable) (table : s'.table = s.table.set id symbol)
    (user : symbol.isUser) (definitions : s'.listing.definitions =
      s.listing.definitions ++ [line]) (defines : Python.Defines symbol.python line) :
    s'.Lists (functions ++ [id]) := by
  have inside : id < s.table.size := by
    obtain ⟨use, kind⟩ := isVariable_iff.mp var
    exact lt_size (by simp [kind])
  have unknown : id ∉ functions := by
    rw [h.mem_iff, isUser_of_isVariable var]
    simp
  have found : s'.table.symbol id = symbol := by
    rw [table, symbol_set, if_pos ⟨rfl, inside⟩]
  have others : ∀ other, other ≠ id → s'.table.symbol other = s.table.symbol other := by
    intro other ne
    rw [table, symbol_set, if_neg fun same => ne same.1.symm]
  refine ⟨nodup_append.mpr ⟨h.nodup, by simp, ?_⟩, fun other => ?_, ?_⟩
  · rintro a mem b last rfl
    exact unknown (mem_singleton.mp last ▸ mem)
  · by_cases same : other = id
    · subst same
      simp [found, user]
    · simp [same, others other same, h.mem_iff]
  · have names : (functions.map fun id => (s'.table.symbol id).python) =
        functions.map fun id => (s.table.symbol id).python :=
      map_congr_left fun other mem => by rw [others other fun same => unknown (same ▸ mem)]
    rw [map_append, names, definitions, map_singleton, found]
    exact rel_append h.lines (.cons defines .nil)

end Session

/-! ### Items -/

lemma Text.after?_append (lead rest : String) : after? lead (lead ++ rest) = some rest := by
  have chars : ∀ xs ys : List Char, xs.isPrefixOf? (xs ++ ys) = some ys := by
    intro xs ys
    induction xs with
    | nil => cases ys <;> rfl
    | cons x xs ih => simp [isPrefixOf?, ih]
  rw [after?, String.toList_append, chars]
  simp

lemma Symbol.Coined.attribute (h : s.Coined) (definable : s.kind.isDefinable) :
    ∃ method, s.python = "self." ++ method := by
  rcases h.named definable with ⟨space, bare, -, -, python⟩ | ⟨n, -, python⟩
  · rw [python, Namespace.pythonName, Namespace.pythonLead]
    split
    · exact ⟨Name.python bare, rfl⟩
    · exact ⟨space.name ++ "__" ++ Name.python bare, by simp only [String.append_assoc]⟩
  · exact ⟨s!"_range_{n}", by rw [python]; simp [toString, ← String.toList_inj]⟩

namespace Item

variable {s s' b : Session} {functions ids : List SymbolId}

/-- Over the body of a function the table grows, and one line begins a definition. -/
lemma function_ok (sound : s.Sound) (held : Held s.table params)
    (run : inBucket .functions (functionBody method params) s = .ok () s') :
    s.table.Grows s'.table ∧ ∃ more, s'.listing.definitions = s.listing.definitions ++
      ["def " ++ method ++ "(" ++ (join ", " ("self" :: params.map Parameter.signature) ++
        "):" ++ more)] := by
  let entered : Session := { s with listing := s.listing.enter .functions }
  have start : entered.Sound := sound.same rfl rfl
  obtain ⟨s1, ran, table, lines⟩ := inBucket_ok run
  constructor
  · obtain ⟨s2, first, step, before⟩ := functionBody_run method params entered
    have ready : s2.Sound :=
      (start.swap (swaps_redirected start.proper fun p mem => (held p mem).1)).alike before
    rw [step] at ran
    obtain ⟨s3, acted, rfl⟩ := restoring_ok ran
    have reached := travels_action.reaches ready
    rw [acted] at reached
    have grows : s2.table.Grows s3.table := reached.table
    rw [before.table] at grows
    rw [table]
    exact grows_restored sound.proper held grows
  · obtain ⟨hs, body, shows, laid, -, same⟩ := functionBody_extend start held ran
    have begins : Python.isDefinition (s!"def {method}(" ++
        join ", " ("self" :: params.map Parameter.signature) ++ "):") :=
      Python.isDefinition_iff.mpr ⟨_, by simp [toString]; rfl⟩
    obtain ⟨more, header⟩ := shows.definition begins
    refine ⟨more, ?_⟩
    have blank : Python.isDefinition (indentation 0) = false := by decide
    rw [definitions, lines _ same, if_pos rfl, filter_append, filter_append,
      filter_append, header, laid.no_definition]
    simp [definitions, blank, String.append_assoc, entered, enter, toString]

/-- The line that a definition adds has the parameters in their order. -/
lemma item_signature (sound : s.Sound) (kind : s.symbol.kind = .keyword .function)
    (run : item s = .ok () s') : ∃ method params s1 more, opening s = .ok (method, params) s1 ∧
      s.Keeps s1 ∧ Held s1.table params ∧ s1.table.Grows s'.table ∧
      s'.listing.definitions = s.listing.definitions ++ ["def " ++ method ++ "(" ++
        (join ", " ("self" :: params.map Parameter.signature) ++ "):" ++ more)] := by
  rcases opening_cases sound kind with ⟨e, s1, failed, -⟩ |
    ⟨method, params, s1, opened, crosses, held, -⟩
  · rw [item_of_function kind, definition_eq, bind_of_error failed] at run
    cases run
  · rw [item_of_opening kind opened] at run
    obtain ⟨-, -, -, listing, -⟩ := opening_ok opened
    obtain ⟨grows, more, definitions⟩ := function_ok crosses.sound held run
    rw [listing] at definitions
    exact ⟨method, params, s1, more, opened, crosses.toKeeps, held, grows, definitions⟩

lemma item_lists (good : s.table.Good) (sound : s.Sound) (lists : s.Lists functions)
    (run : item s = .ok () s') : ∃ more, s'.Lists (functions ++ more) := by
  by_cases kind : s.symbol.kind = .keyword .function
  · obtain ⟨method, params, s1, more, opened, -, -, grows, definitions⟩ :=
      item_signature sound kind run
    obtain ⟨id, var, table, -, (name : method = _)⟩ := opening_ok opened
    obtain ⟨own, python⟩ :=
      (good.coined id).attribute (isDefinable_of_isVariable var)
    rw [python, after?_append, Option.getD_some] at name
    -- the function, and then what is met in its body
    have defined : Session.Lists { s1 with listing := s'.listing } (functions ++ [id]) :=
      lists.define var table rfl definitions ⟨own, _, python, by rw [name]⟩
    exact ⟨[id], defined.grows grows rfl⟩
  · have reached := reaches_item sound kind
    rw [run] at reached
    obtain ⟨part, ls, -, lines⟩ := item_fills sound kind run
    refine ⟨[], ?_⟩
    rw [append_nil]
    refine lists.grows reached.table ?_
    rw [definitions, definitions, lines, if_neg (by simp), append_nil]

lemma items_lists (good : s.table.Good) (sound : s.Sound)
    (lists : s.Lists functions) (run : items fuel s = .ok () s') :
    ∃ more, s'.Lists (functions ++ more) := by
  induction fuel generalizing s functions with
  | zero => cases run
  | succ fuel ih =>
    have first : s.Trip (next s) := (Session.Trip.refl sound).pastTerminators
    have start : (next s).Lists functions := lists.grows first.table rfl
    rw [items_succ] at run
    split at run
    · cases run
      exact ⟨[], by rwa [append_nil]⟩
    · obtain ⟨_, s1, compiled, later⟩ := bind_ok.mp run
      have leaves := leaves_item first.sound
      rw [compiled] at leaves
      have good1 : (next s).table.Good := good.grows first.table
      obtain ⟨more, lists1⟩ := item_lists good1 first.sound start compiled
      obtain ⟨more', lists2⟩ := ih (leaves.table.good good1) leaves.sound lists1 later
      exact ⟨more ++ more', by rwa [← append_assoc]⟩

/-! ### Inside an item -/

lemma redirected_locals {id : SymbolId} (inside : id < t.size) (mem : id ∈ params.map (·.id)) :
    startsWith "_locals." ((redirected params t).symbol id).python := by
  induction params generalizing t with
  | nil => cases mem
  | cons p rest ih =>
    have size : (p.redirect t).size = t.size := by simp [Parameter.redirect, Table.modify]
    by_cases later : id ∈ rest.map (·.id)
    · exact ih (t := p.redirect t) (size ▸ inside) later
    · have first : p.id = id := by
        rw [map_cons, mem_cons] at mem
        exact (mem.resolve_right later).symm
      have own : (p.redirect t).symbol id =
          { t.symbol p.id with kind := .var {}, python := "_locals." ++ p.name } := by
        rw [Parameter.redirect, Table.modify, Table.symbol_set, if_pos ⟨first, first ▸ inside⟩]
      have same : (redirected (p :: rest) t).symbol id = (p.redirect t).symbol id :=
        redirected_symbol later
      rw [same, own, startsWith, isPrefixOf_iff_prefix]
      exact ⟨p.name.toList, by simp⟩

/-- What comes of the table behind the head of a function. -/
lemma Defines.evolves (h : Defines b params b')
    (sound : b.Sound) : b'.table.Evolves (after (item b)).table := by
  obtain ⟨kind, method, run⟩ := h
  rcases opening_cases sound kind with ⟨e, s1, failed, -⟩ |
    ⟨name, found, s1, opened, crosses, held, brace⟩
  · cases failed.symm.trans run
  · cases opened.symm.trans run
    obtain ⟨leaves, -⟩ := function_cases method crosses.sound held brace
    rw [item_of_opening kind run]
    cases body : inBucket .functions (functionBody method params) b' with
    | ok a s2 | error e s2 =>
      rw [body] at leaves
      exact leaves.table

/-- At every point of an item each symbol has the word it has between items, but
parameters are attributes of their owner. -/
lemma Point.words (h : Point b s ids) (sound : b.Sound) : ∃ t : Table, b.table.Evolves t ∧
    t.Evolves (after (Item.item b)).table ∧
    (∀ id < t.size, id ∉ ids → (s.table.symbol id).word = (t.symbol id).word) ∧
    ∀ id ∈ ids, (s.table.symbol id).isVariable ∧
      startsWith "_locals." (s.table.symbol id).python := by
  cases h with
  | item _ grows =>
    exact ⟨b.table, (Grows.refl _).evolves, (leaves_item sound).keeps.table,
      fun id inside _ => grows.word id inside, by simp⟩
  | @body b' params _ defines grows =>
    obtain ⟨evolves, held⟩ := defines.keeps sound
    have proper : b'.table.Proper := evolves.proper sound.proper
    have size := (swaps_redirected proper fun p mem => (held p mem).1).size
    refine ⟨b'.table, evolves, defines.evolves sound, fun id inside outside => ?_, fun id mem => ?_⟩
    · rw [grows.word id (size ▸ inside), redirected_symbol outside]
    · have inside := held.lt_size id mem
      have word := grows.word id (size ▸ inside)
      obtain ⟨p, hp, rfl⟩ := mem_map.mp mem
      refine ⟨(held.isVariable proper grows p hp).1, ?_⟩
      rw [python_of_word word]
      exact redirected_locals inside mem

end Item

namespace Table.Evolves

variable {t t' : Table} {id : SymbolId}

lemma python (h : t.Evolves t') (inside : id < t.size) :
    (t'.symbol id).python = (t.symbol id).python := by
  rcases h.keeps id inside with ⟨word, -⟩ | ⟨-, -, -, python⟩
  · exact python_of_word word
  · exact python

lemma isUser (h : t.Evolves t') (user : (t.symbol id).isUser) : (t'.symbol id).isUser := by
  rcases h.keeps id (lt_size_of_isUser user) with ⟨word, -⟩ | ⟨-, function, -⟩
  · rwa [isUser_of_word word]
  · rw [Symbol.isUser, Bool.and_eq_true] at user
    rw [Symbol.isUser, function, h.definable id user.2]
    rfl

end Table.Evolves

/-! ### Calls -/

namespace Session

variable {s s' : Session}

/-- What was noted as called is what the program may define. -/
def Noted (s : Session) : Prop :=
  ∀ e ∈ s.calls, (s.table.symbol e.1).kind.isDefinable = true

lemma Notes.all_noted (h : s.Notes s') (noted : s.Noted) : s'.Noted := fun e mem =>
  (h.noted e mem).elim (fun old => h.table.definable e.1 (noted e old)) id

end Session

namespace Expression

variable {s s' : Session} {f : Fragment} {token : Token} {parts : Parts}

/-- A call is the text of its name with the arguments in parentheses. -/
lemma userCall_text (run : userCall parts token s = .ok f s') : ∃ args : List Fragment,
    f.text = (s.table.symbol token.symbol).python ++
      ("(" ++ join ", " (args.map (·.text)) ++ ")") := by
  rw [userCall_run, userArguments, advance_bind] at run
  obtain ⟨args, s1, -, made⟩ := bind_ok.mp run
  cases made
  exact ⟨args, rfl⟩

lemma userCall_noted (var : (s.table.symbol token.symbol).isVariable)
    (run : userCall (reachWithin depth) token s = .ok f s') :
    (token.symbol, token.line) ∈ s'.calls := by
  rw [userCall_run] at run
  have adds := (Emits.adds (emits_userArguments (p := fun _ => True)
    (emits_reachWithin (p := fun _ => True) depth) fun _ _ => trivial)
    (s.called token).over_true run).1
  refine adds.notes.calls.subset ?_
  rw [Session.called, if_pos var]
  exact mem_append_right _ (mem_singleton_self _)

end Expression

/-! ### Runs -/

namespace Call

variable {s s' : Session} {functions : List SymbolId}

lemma lists_initial (options : Options) : Session.Lists { options } [] := by
  refine ⟨.nil, fun id => ?_, .nil⟩
  have none : (initial.symbol id).isUser = false :=
    initial_symbol (P := fun s => s.isUser = false) (by decide +kernel) id
  change id ∈ [] ↔ (initial.symbol id).isUser
  simp [none]

/-- A call that succeeds keeps account of its definitions and of what it calls. -/
lemma lists_run {call : Call} (good : s.table.Good) (lists : s.Lists functions)
    (noted : s.Noted) (run : call.run s = .ok () s') :
    (∃ more, s'.Lists (functions ++ more)) ∧ s'.Noted := by
  cases call with
  | preset assignment =>
    have listing := Compile.preset_listing run
    have evolves := (returns_run (.preset assignment) good).table
    rw [run] at evolves
    rw [Call.run] at run
    rcases Compile.preset_outcome assignment good with ⟨e, failed⟩ |
      ⟨name, value, space, bare, id, -, -, grows, -, ⟨e, failed⟩ | ⟨symbol, applied, step⟩⟩
    · cases failed.symm.trans run
    · cases failed.symm.trans run
    · cases step.symm.trans run
      obtain ⟨-, -, -, -, word, -⟩ := Compile.applied?_cases applied
      have words := word_set word
      have met : (Compile.met s space bare).Lists functions := lists.grows grows rfl
      refine ⟨⟨[], ?_⟩, fun e mem => evolves.definable e.1 (noted e mem)⟩
      rw [append_nil]
      exact met.same (fun id => isUser_of_word (words id))
        (fun id _ => python_of_word (words id)) rfl
  | source input =>
    rw [Call.run] at run
    rcases Compile.addSource_cases input good with
      ⟨s1, load, -, sound, step⟩ | ⟨-, step⟩ | ⟨e, s1, -, step, -⟩
    · have loads := Compile.loads_load input s
      rw [load] at loads
      rw [step] at run
      have grows : s.table.Grows s1.table := loads.table good
      have lists1 : s1.Lists functions :=
        lists.grows grows (congrArg definitions loads.listing)
      have noted1 : s1.Noted := fun e mem => grows.definable (noted e (loads.calls ▸ mem))
      have notes := (Item.lengthens_items (p := fun _ => True)
        (Compile.itemFuel s1) s1 s1.over_true).notes
      rw [run] at notes
      exact ⟨Item.items_lists (good.grows grows) sound lists1 run, notes.all_noted noted1⟩
    · cases step.symm.trans run
      exact ⟨⟨[], by rwa [append_nil]⟩, noted⟩
    · cases step.symm.trans run

lemma lists_last {calls : List Call} (good : s.table.Good) (lists : s.Lists functions)
    (noted : s.Noted) (compiled : ∀ step ∈ trace s calls, Compile.succeeds (step.2.run step.1)) :
    (∃ more, (last s calls).Lists (functions ++ more)) ∧ (last s calls).Noted := by
  induction calls generalizing s functions with
  | nil => exact ⟨⟨[], by rwa [append_nil]⟩, noted⟩
  | cons call calls ih =>
    have run := Compile.ok_after (compiled (s, call) mem_cons_self)
    obtain ⟨⟨more, lists1⟩, noted1⟩ := lists_run good lists noted run
    obtain ⟨⟨more', lists2⟩, noted2⟩ := ih ((returns_run call good).table.good good) lists1 noted1
      fun step mem => compiled step (mem_cons_of_mem _ mem)
    exact ⟨⟨more ++ more', by rwa [← append_assoc]⟩, noted2⟩

/-- In the end all that was noted is a function of the program. -/
lemma noted_mem (lists : s.Lists functions) (noted : s.Noted)
    (finished : s.finish = .ok text) : ∀ e ∈ s.calls, e.1 ∈ functions := by
  intro e mem
  rw [Session.finish] at finished
  split at finished
  · cases finished
  case h_2 complete =>
    have function := find?_eq_none.mp complete e mem
    rw [lists.mem_iff, Symbol.isUser, noted e mem]
    simpa using function

/-- If all calls succeed and the program is finished, then every function that a call
names is one of the program, whether it was defined before or later and in whatever
source, and the lines that begin a definition are those of these functions, one for each.
A call is written with the text of the function, but in the body of a function with a
parameter of its name what is called is the parameter. -/
theorem calls_have_definitions {options : Options} {calls : List Call} {text : String}
    (compiled : ∀ step ∈ trace { options } calls, Compile.succeeds (step.2.run step.1) = true)
    (finished : (last { options } calls).finish = .ok text) :
    let s := last { options } calls
    ∃ functions, s.Lists functions ∧
      (∀ e ∈ s.calls, e.1 ∈ functions) ∧
      ∀ step ∈ trace { options } calls, ∀ input, step.2 = .source input →
        ∀ b ∈ input.starts step.1, ∀ s1 ids, Item.Point b s1 ids → ∀ depth token f s2,
          token ∈ b.cursor.shown → (s1.table.symbol token.symbol).kind.isDefinable = true →
          Expression.userCall (Expression.reachWithin depth) token s1 = .ok f s2 →
          (∀ e ∈ s2.calls, e ∈ s.calls) →
          token.symbol ∈ functions ∧ ∃ (callee : String) (args : List Fragment),
            f.text = callee ++ ("(" ++ Text.join ", " (args.map (·.text)) ++ ")") ∧
            (token.symbol ∉ ids → callee = (s.table.symbol token.symbol).python) ∧
            (token.symbol ∈ ids → Text.startsWith "_locals." callee = true) := by
  intro s
  obtain ⟨⟨functions, lists⟩, noted⟩ :=
    lists_last Table.initial_good (lists_initial options) (List.forall_mem_nil _) compiled
  rw [List.nil_append] at lists
  have all := noted_mem lists noted finished
  refine ⟨functions, lists, all, ?_⟩
  rintro ⟨s0, _⟩ made input rfl b mem s1 ids point depth token f s2 shown definable run kept
  obtain ⟨good, later⟩ := returns_of_mem_trace Table.initial_good made
  obtain ⟨sound, keeps, -⟩ := Source.start_cases good mem
  obtain ⟨t, before, behind, words, hidden⟩ := point.words sound
  have evolves : t.Evolves s.table := behind.trans (keeps.table.trans later.table)
  have inside : token.symbol < t.size :=
    Nat.lt_of_lt_of_le (sound.shown_sound shown).valid before.size
  obtain ⟨args, written⟩ := Expression.userCall_text run
  refine ⟨?_, _, args, written, fun outside => ?_, fun mem => (hidden _ mem).2⟩
  · cases var : (s1.table.symbol token.symbol).isVariable with
    | true => exact all _ (kept _ (Expression.userCall_noted var run))
    | false =>
      -- what is no variable is a function by now, and no parameter
      have outside : token.symbol ∉ ids := fun mem => by
        rw [(hidden _ mem).1] at var
        cases var
      have user : (s1.table.symbol token.symbol).isUser = true := by
        cases kind : (s1.table.symbol token.symbol).kind <;>
          simp_all [Symbol.isUser, Symbol.isFunction, Symbol.isVariable, Symbol.variableUse?,
            SymbolKind.isDefinable]
      rw [Symbol.isUser_of_word (words _ inside outside)] at user
      exact (lists.mem_iff _).mpr (evolves.isUser user)
  · rw [Symbol.python_of_word (words _ inside outside), evolves.python inside]

/-- Two functions may have one text. -/
example :
    let calls := [.source (.program "function lib::f() \x7b \x7d\nfunction lib__f() \x7b \x7d")]
    (last {} calls).listing.definitions = ["def lib__f(self):", "def lib__f(self):"] := by
  decide +kernel

/-- A function that is called in one source and defined in the next. -/
def calledBefore : List Call :=
  [.source (.program "BEGIN \x7b f(1) \x7d"), .source (.program "function f(x) \x7b \x7d")]

theorem calls_have_definitions_later :
    let input := Source.program "BEGIN \x7b f(1) \x7d"
    let s := last {} calledBefore
    (∀ step ∈ trace {} calledBefore, Compile.succeeds (step.2.run step.1) = true) ∧
    ∃ text functions, s.finish = .ok text ∧ s.Lists functions ∧
      ∃ b ∈ input.starts {}, ∃ f s2,
        let token := b.past.past.cursor.current
        Expression.userCall (Expression.reachWithin 9) token b.past.past = .ok f s2 ∧
        token.symbol ∈ functions ∧ ∃ args : List Fragment,
          f.text = (s.table.symbol token.symbol).python ++
            ("(" ++ Text.join ", " (args.map (·.text)) ++ ")") := by
  intro input s
  have checked : (∀ step ∈ trace {} calledBefore, Compile.succeeds (step.2.run step.1) = true) ∧
      s.missingFunction? = none := by decide +kernel
  have finished : s.finish = .ok (Program.text s) := by
    rw [Session.finish, checked.2]
  obtain ⟨functions, lists, -, sites⟩ := calls_have_definitions checked.1 finished
  refine ⟨checked.1, _, functions, finished, lists, ?_⟩
  let call (b : Session) := Expression.userCall (Expression.reachWithin 9)
    b.past.past.cursor.current b.past.past
  have first : (input.starts {}).head?.any (fun b =>
      decide (b.past.past.cursor.current ∈ b.cursor.shown) &&
        (b.past.past.table.symbol b.past.past.cursor.current.symbol).kind.isDefinable &&
        Compile.succeeds (call b) && (after (call b)).calls.all (s.calls.contains ·)) = true := by
    decide +kernel
  cases starts : input.starts {} with
  | nil =>
    rw [starts] at first
    cases first
  | cons b rest =>
    have mem : b ∈ input.starts {} := starts ▸ List.mem_cons_self
    have sound := (Source.evolves_of_mem_starts Table.initial_good mem).1
    rw [starts, List.head?_cons, Option.any_some] at first
    simp only [Bool.and_eq_true, decide_eq_true_eq, List.all_eq_true, List.contains_iff_mem]
      at first
    obtain ⟨⟨⟨shown, definable⟩, succeeds⟩, kept⟩ := first
    obtain ⟨f, run⟩ := Compile.ok_of_succeeds succeeds
    obtain ⟨mem', callee, args, written, own, -⟩ := sites ({}, _) List.mem_cons_self input rfl b mem
      b.past.past [] (.item sound.advance.advance (.refl _)) 9 _ f _ shown definable run kept
    exact ⟨b, List.mem_cons_self, f, _, run, mem', args, own List.not_mem_nil ▸ written⟩

/-- In `function g(f) { return f(1) }` it is the parameter that is called, though a
function of its name is defined. -/
theorem parameter_is_called :
    let calls := [.source (.program
      "function g(f) \x7b return f(1) \x7d\nfunction f(x) \x7b return x \x7d")]
    let s := last {} calls
    (∀ step ∈ trace {} calls, Compile.succeeds (step.2.run step.1) = true) ∧
      s.missingFunction? = none ∧ s.calls.length = 1 ∧
      "    return _locals.f(1)" ∈ (s.listing.linesOf .functions).toList ∧
      s.listing.definitions =
        ["def g(self, f=AwkEmptyVarInstance):", "def f(self, x=AwkEmptyVarInstance):"] := by
  decide +kernel

end Call

end AwkToPython
