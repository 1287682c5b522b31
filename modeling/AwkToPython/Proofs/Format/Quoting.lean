import AwkToPython.Proofs.Expression.Quoted
import AwkToPython.Proofs.Format.Field
import AwkToPython.Proofs.Python.StringValue
import AwkToPython.Proofs.Usage.Restoration

/-!
# Which formats are compiled

The format of an output statement or of a call is compiled if its text begins and ends
with a quote, and left to the runtime with all arguments otherwise. Strings are always
compiled, and of the formats that are compiled all are strings or calls with a format
of their own, but for those with an operator outermost: a comparison of two strings
begins and ends with quotes, too.
-/
namespace AwkToPython

open Compile List Expression Literal

namespace Format

/-- The call behind a template. -/
def formatCall (doubled : Bool) (outputs : List String) : String :=
  if outputs.isEmpty && !doubled then "" else ".format(" ++ Text.join ", " outputs ++ ")"

lemma callText_eq (doubled : Bool) (template : String) (outputs : List String) :
    callText doubled template outputs = template ++ formatCall doubled outputs := by
  cases outputs with
  | nil => cases doubled <;> simp [callText, formatCall, Text.join]
  | cons output outputs => simp [callText, formatCall, String.append_assoc]

lemma isQuoted_literal (v : String) : isQuoted (python v) = true := by
  have last : (python v).toList.getLast? = some '"' := by
    rw [python, String.toList_ofList, getLast?_concat]
  have first : (python v).toList.head? = some '"' := by
    rw [python, String.toList_ofList]
    rfl
  have long : 2 ≤ (python v).length := by
    rw [← String.length_toList, python, String.toList_ofList]
    simp only [cons_append, length_cons, length_append]
    omega
  simp [isQuoted, first, last, long]

/-- The code of a format that is compiled begins with the quote of its template. -/
def isStatic (code : String) : Bool := code.toList.head? = some '"'

/-- What becomes of a format and its arguments, which are compiled from a session on. -/
structure Formats (b : Session) (format : Fragment) (rest : List Fragment) (code : String) :
    Prop where
  quoted : isStatic code = true ↔ isQuoted format.text = true
  literal : ∀ value, format.text = Literal.python value → isStatic code = true
  template : isStatic code = true →
    code = (compileLiteral format.text (rest.map (·.text))).code
  runtime : isStatic code = false →
    code = "self.sprintf(" ++ Text.join ", " ((format :: rest).map (·.text)) ++ ")"
  string : isStatic code = true → format.level = none → b.MakesString format.text

lemma isStatic_compile (format : String) (arguments : List String) :
    isStatic (compile (format :: arguments)).code = isQuoted format := by
  rw [compile]
  cases quoted : isQuoted format with
  | false =>
    rw [if_neg (by simp), isStatic, String.toList_append, String.toList_append]
    rfl
  | true =>
    obtain ⟨cs, same⟩ : ∃ cs, format.toList = '"' :: cs := by
      simp only [isQuoted, Bool.and_eq_true, decide_eq_true_eq] at quoted
      exact head?_eq_some_iff.mp quoted.1.2
    have first : pieces ('"' :: cs) = .plain '"' :: piecesWithin cs.length cs := rfl
    obtain ⟨more, slots, run⟩ : ∃ more slots,
        (pieces ('"' :: cs)).mapM Slots.piece { arguments } = ("\"" :: more, slots) := by
      rw [first, mapM_cons]
      exact ⟨_, _, rfl⟩
    rw [if_pos rfl, compileLiteral_code (same ▸ run), callText_eq, isStatic, String.join_cons,
      String.toList_append, String.toList_append]
    rfl

lemma formats_compile {format : Fragment} (settled : format.Settled b) (rest : List Fragment) :
    Formats b format rest (compile ((format :: rest).map (·.text))).code := by
  have static : isStatic (compile ((format :: rest).map (·.text))).code =
      isQuoted format.text := isStatic_compile _ _
  refine ⟨by rw [static], fun value same => ?_, fun here => ?_, fun here => ?_,
    fun here level => settled level (static ▸ here)⟩
  · rw [static, same]
    exact isQuoted_literal value
  · rw [map_cons, compile, if_pos (static ▸ here)]
  · rw [map_cons, compile, if_neg (by rw [← static, here]; exact Bool.false_ne_true)]

end Format

namespace Statement

open Format (Formats formats_compile)

variable {s s' : Session}

lemma settled_moreItems {context : Context} {fuel : Nat} {items found : List Fragment}
    (e : b.Effect s) (spelled : b.table.Spelled) (before : ∀ f ∈ items, f.Settled b)
    (run : moreItems skipNewlines (expression context) fuel items s = .ok found s') :
    ∀ f ∈ found, f.Settled b := by
  induction fuel generalizing items s with
  | zero => cases run
  | succ fuel ih =>
    rw [moreItems, atKind_bind] at run
    split at run
    case isTrue comma =>
      rw [advance_bind, skipNewlines_bind] at run
      obtain ⟨f, s1, made, run⟩ := bind_ok.mp run
      have passed := (e.advance (by simp [Symbol.isInner, of_decide_eq_true comma])).skipNewlines
      have read := reads_expression passed.sound made
      refine ih (passed.trans read.effect) (fun g mem => ?_) run
      rcases mem_append.mp mem with old | new
      · exact before g old
      · exact read.settled passed spelled trivial g new
    case isFalse =>
      cases run
      exact before

lemma settled_outputItems {found : List Fragment} (sound : s.Sound) (spelled : s.table.Spelled)
    (run : outputItems s = .ok found s') : ∀ f ∈ found, f.Settled s := by
  have more : ∀ {context : Context} {first : Fragment} {s1 : Session}, s.Effect s1 →
      first.Settled s → moreOutput context first s1 = .ok found s' →
      ∀ f ∈ found, f.Settled s := by
    intro context first s1 e settled run
    rw [moreOutput, remaining_bind] at run
    refine settled_moreItems e spelled (fun f mem => ?_) run
    rwa [mem_singleton.mp mem]
  have still : ∀ {ends : Bool} {s s' : Session}, atOutputEnd s = .ok ends s' → s = s' := by
    intro ends s s' looked
    rw [atOutputEnd, atStatementEnd_bind] at looked
    split at looked <;> cases looked <;> rfl
  rw [outputItems] at run
  obtain ⟨ends, s0, looked, inner⟩ := bind_ok.mp run
  obtain rfl := still looked
  split at inner
  · cases inner
    exact forall_mem_nil _
  · rw [atBracket_bind] at inner
    split at inner
    · obtain ⟨group, s1, made, inner⟩ := bind_ok.mp inner
      have read := reads_arguments faithful_compiler sound made
      have settled := read.settled (.refl sound) spelled trivial
      obtain ⟨ends', s2, looked, later⟩ := bind_ok.mp inner
      obtain rfl := still looked
      split at later
      · cases later
        exact settled
      · rcases group with _ | ⟨first, _ | _⟩
        · exact absurd later unexpected_ne_ok
        · obtain ⟨first', s3, made', later⟩ := bind_ok.mp later
          have read' := faithful_compiler _ _ _ _ read.effect.sound made'
          have settled' := read'.settled read.effect spelled (settled first mem_cons_self).grouped
          obtain ⟨_, s4, use, later⟩ := bind_ok.mp later
          obtain ⟨t, grows, rfl⟩ := useAsScalar_ok use
          exact more ((read.effect.trans read'.effect).grow grows)
            (settled' first' mem_cons_self) later
        · exact absurd later unexpected_ne_ok
    · obtain ⟨first, s1, made, inner⟩ := bind_ok.mp inner
      have read := reads_expression sound made
      exact more read.effect
        (read.settled (.refl sound) spelled trivial first mem_cons_self) inner

/-- An output statement with a format: its items, and the line that is written. -/
lemma printf_formats (sound : s.Sound) (spelled : s.table.Spelled)
    (run : print true s = .ok () s') : ∃ format rest code redirect s1 s2 s3,
      outputItems s.past = .ok (format :: rest) s1 ∧ redirection s1 = .ok redirect s2 ∧
      writeCall redirect ("print(" ++ code ++ ", end='')") s3 = .ok () s' ∧
      Formats s.past format rest code := by
  rw [print, advance_bind] at run
  obtain ⟨items, s1, made, later⟩ := bind_ok.mp run
  obtain ⟨redirect, s2, directed, later⟩ := bind_ok.mp later
  obtain ⟨call, s3, called, written⟩ := bind_ok.mp later
  have settled := settled_outputItems sound.advance spelled made
  rcases items with _ | ⟨format, rest⟩
  · exact absurd called (by simp [printfCall, bind_ok])
  · have step : printfCall (format :: rest) = (do
        let code ← formatted (format :: rest)
        return "print(" ++ code ++ ", end='')" : Compile String) := rfl
    rw [step] at called
    obtain ⟨code, s4, compiled, called⟩ := bind_ok.mp called
    obtain ⟨_, _, _, compiled⟩ := bind_ok.mp compiled
    cases compiled
    cases called
    exact ⟨format, rest, _, redirect, s1, s2, _, made, directed, written,
      formats_compile (settled format mem_cons_self) rest⟩

end Statement

namespace Expression

open Format (Formats formats_compile)

variable {s s' : Session} {f : Fragment} {context : Context}

/-- A call that formats its arguments. -/
lemma sprintf_formats {function : Function} {depth : Nat} (sound : s.Sound)
    (spelled : s.table.Spelled) (kind : s.symbol.kind = .function function)
    (strategy : function.strategy = .sprintf)
    (run : call (reachWithin depth) s.cursor.current function context s = .ok f s') :
    ∃ args s0 s1, Reads (.arguments { keepMissing := true }) s0 args s1 ∧
      f.text = (Format.compile (args.map (·.text))).code ∧
      ∀ format rest, args = format :: rest → Formats s format rest f.text := by
  have read := reads_call (leads_reachWithin depth)
    (reachWithin_sound depth).2 kind sound run
  cases read with
  | function e kind' library behind =>
    obtain ⟨table, cursor⟩ := requireLibrary_symbol library
    have inner : s.symbol.isInner = true := by simp [Symbol.isInner, kind]
    have opened := (Moves.ok inferInstance sound library).advance
      (by rw [Session.symbol, table, cursor]; exact inner)
    rw [kind] at kind'
    cases kind'
    cases behind with
    | sprintf e strategy' arguments run =>
      obtain ⟨_, _, _, run⟩ := bind_ok.mp run
      cases run
      refine ⟨_, _, _, arguments, rfl, ?_⟩
      rintro format rest rfl
      have settled := arguments.settled opened spelled trivial
      exact formats_compile (settled format mem_cons_self) rest
    | _ => simp_all
  | _ => simp_all

end Expression

namespace Call

open Format (Formats)

/-- Whatever has been compiled, and wherever an output statement or a call with a format
stands, also in the body of a function: the format is compiled just if its text begins
and ends with a quote. All strings are, and of the rest only calls with a format that
were compiled here and texts with an operator outermost. Any other format is left to the
runtime with all its arguments. -/
theorem formats_in_quotes_are_compiled (options : Options) (calls : List Call) (input : Source) :
    ∀ b ∈ input.starts (last { options } calls), ∀ s ids, Item.Point b s ids →
      (∀ s', Statement.print true s = .ok () s' → ∃ format rest code redirect s1 s2 s3,
        Statement.outputItems s.past = .ok (format :: rest) s1 ∧
        Statement.redirection s1 = .ok redirect s2 ∧
        Statement.writeCall redirect ("print(" ++ code ++ ", end='')") s3 = .ok () s' ∧
        Formats s.past format rest code) ∧
      ∀ depth function context f s', s.symbol.kind = .function function →
        function.strategy = .sprintf →
        Expression.call (Expression.reachWithin depth) s.cursor.current function context s =
          .ok f s' →
        ∃ args s0 s1, Expression.Reads (.arguments { keepMissing := true }) s0 args s1 ∧
          f.text = (Format.compile (args.map (·.text))).code ∧
          ∀ format rest, args = format :: rest → Formats s format rest f.text := by
  intro b mem s ids point
  obtain ⟨sound, evolves⟩ := Source.evolves_of_mem_starts (good_last options calls) mem
  have spelled := point.spelled sound (evolves.spelled (spelled_last options calls))
  refine ⟨fun s' run => Statement.printf_formats point.sound spelled run, ?_⟩
  intro depth function context f s' kind strategy run
  exact Expression.sprintf_formats point.sound spelled kind strategy run

/-- A format that is a variable, in the first statement of a section. -/
theorem formats_in_quotes_are_compiled_variable :
    let input := Source.program "BEGIN \x7b printf NR, NF \x7d"
    ∃ b ∈ input.starts {}, ∃ s', Statement.print true b.past.past = .ok () s' ∧
      ∃ format rest code redirect s1 s2 s3,
        Statement.outputItems b.past.past.past = .ok (format :: rest) s1 ∧
        Statement.redirection s1 = .ok redirect s2 ∧
        Statement.writeCall redirect ("print(" ++ code ++ ", end='')") s3 = .ok () s' ∧
        Formats b.past.past.past format rest code := by
  intro input
  have first : (input.starts {}).head?.any
      (fun b => succeeds (Statement.print true b.past.past)) = true := by decide +kernel
  cases starts : input.starts {} with
  | nil =>
    rw [starts] at first
    cases first
  | cons b rest =>
    have mem : b ∈ input.starts {} := starts ▸ List.mem_cons_self
    have sound := (Source.evolves_of_mem_starts Table.initial_good mem).1
    rw [starts] at first
    cases run : Statement.print true b.past.past with
    | error e s' =>
      rw [List.head?_cons, Option.any_some, run] at first
      cases first
    | ok a s' =>
      refine ⟨b, List.mem_cons_self, s', run, ?_⟩
      exact (formats_in_quotes_are_compiled {} [] input b mem b.past.past []
        (.item sound.advance.advance (.refl _))).1 s' run

/-- A comparison of two strings is taken for a string. -/
theorem comparison_in_quotes :
    let input := Source.program "BEGIN \x7b printf \"a\" == \"b\" \x7d"
    let s := after (addSource input {})
    succeeds (addSource input {}) = true ∧
      (s.listing.linesOf (.part .start)).toList = ["print(\"a\"==\"b\", end='')"] ∧
      ¬∃ value, "\"a\"==\"b\"" = Literal.python value := by
  intro input s
  refine ⟨by decide +kernel, by decide +kernel, ?_⟩
  rintro ⟨value, same⟩
  have read := Python.evaluate_literal value
  rw [← same, show Python.evaluate "\"a\"==\"b\"" = none by decide] at read
  cases read

end Call

end AwkToPython
