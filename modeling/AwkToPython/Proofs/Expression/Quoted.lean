import AwkToPython.Proofs.Expression.Effect

/-!
# Texts in quotes

A format is compiled where its text begins and ends with a quote. The texts of
strings do, and so may those of calls whose format was compiled. Of all other
expressions only those with an operator outermost can begin and end with quotes: every
other construct begins with a name or closes with a bracket.
-/
namespace AwkToPython

open Compile Text
open Format (isQuoted)

/-- The text is that of a string, or that of a call with a format, which was compiled
on the way from a session. -/
def Session.MakesString (b : Session) (text : String) : Prop :=
  (∃ value, text = Literal.python value) ∨ ∃ function context s f s', b.Effect s ∧
    s.symbol.kind = .function function ∧ function.strategy = .sprintf ∧
    Expression.Reads (.goal (.operand context)) s [f] s' ∧ text = f.text

namespace Text

/-- The text begins with another character than a quote. -/
def opensBare (text : String) : Bool := text.toList.head?.any (· ≠ '"')

/-- The text ends with another character than a quote. -/
def closesBare (text : String) : Bool := text.toList.getLast?.any (· ≠ '"')

lemma opensBare_append (h : opensBare a) (b : String) : opensBare (a ++ b) := by
  rw [opensBare] at h
  rw [opensBare, String.toList_append, List.head?_append]
  cases head : a.toList.head? with
  | none => simp [head] at h
  | some c => simpa [head] using h

lemma closesBare_append (a : String) (h : closesBare b) : closesBare (a ++ b) := by
  rw [closesBare] at h
  rw [closesBare, String.toList_append, List.getLast?_append]
  cases last : b.toList.getLast? with
  | none => simp [last] at h
  | some c => simpa [last] using h

end Text

namespace Fragment

variable {f : Fragment} {b : Session}

/-- A text in quotes without an operator outermost is a string. -/
def Settled (f : Fragment) (b : Session) : Prop :=
  f.level = none → isQuoted f.text = true → b.MakesString f.text

lemma settled_of_level {level : Nat} (h : f.level = some level) : f.Settled b := by
  intro none
  rw [h] at none
  cases none

lemma settled_of_opensBare (bare : opensBare f.text) : f.Settled b := by
  intro _ quoted
  simp only [isQuoted, Bool.and_eq_true, decide_eq_true_eq] at quoted
  simp [opensBare, quoted.1.2] at bare

lemma settled_of_closesBare (bare : closesBare f.text) : f.Settled b := by
  intro _ quoted
  simp only [isQuoted, Bool.and_eq_true, decide_eq_true_eq] at quoted
  simp [closesBare, quoted.2] at bare

lemma settled_of_opens (lead : String) (bare : opensBare lead)
    (same : f.text = lead ++ rest) : f.Settled b :=
  settled_of_opensBare (same ▸ opensBare_append bare rest)

lemma settled_of_closes (tail : String) (bare : closesBare tail)
    (same : f.text = before ++ tail) : f.Settled b :=
  settled_of_closesBare (same ▸ closesBare_append before bare)

lemma closesBare_parenthesised (text : String) : closesBare (parenthesised text) :=
  closesBare_append _ (by decide)

lemma Settled.grouped (h : f.Settled b) : f.grouped.Settled b := by
  cases level : f.level with
  | none =>
    have same : f.grouped.text = f.text := by simp [Fragment.grouped, level]
    rw [Settled, same]
    exact fun _ => h level
  | some n =>
    refine settled_of_closesBare ?_
    simpa [Fragment.grouped, level] using closesBare_parenthesised f.text

end Fragment

namespace Expression

open Fragment (settled_of_level settled_of_opensBare settled_of_closesBare settled_of_opens
  settled_of_closes closesBare_parenthesised)
open Text (closesBare_append)

section Symbols

variable {b s s' : Session}

lemma settled_symbol {f : Fragment} (spelled : s.table.Spelled)
    (begins : s.symbol.kind.beginsText) (other : s.symbol.kind ≠ .string)
    (same : f.text = s.symbol.python) : f.Settled b := by
  intro _ quoted
  have bare := (spelled s.cursor.current.symbol).unquoted begins other
  rw [← same] at bare
  simp [isQuoted, bare] at quoted

lemma settled_step (run : step g increment before s = .ok f s') : f.Settled b := by
  rcases target : g.target with _ | (id | ⟨base, index⟩ | index)
  all_goals simp only [step, target] at run
  case none => exact absurd run unexpected_ne_ok
  case some.var =>
    rw [line_bind] at run
    obtain ⟨_, s1, mark, run⟩ := bind_ok.mp run
    cases run
    exact settled_of_closes "')" (by decide) rfl
  case some.element =>
    cases run
    exact settled_of_closes ")" (by decide) rfl
  case some.field =>
    rw [updateField_ok run]
    exact settled_of_opens "field_" (by decide) rfl

lemma settled_substr (run : substr args s = .ok f s') : f.Settled b := by
  have sliced : ∀ subject first count, (Fragment.string (slice subject first count)).Settled b := by
    intro subject first count
    cases count with
    | none => exact settled_of_closes ":]" (by decide) rfl
    | some count => exact settled_of_closes "]" (by decide) rfl
  have called : ∀ text rest, (Fragment.string ("self._substr(" ++ text ++ rest)).Settled b :=
    fun _ rest => settled_of_opensBare
      (opensBare_append (opensBare_append (by decide) _) rest)
  unfold substr at run
  split at run
  case h_1 subject start =>
    cases first : signed64? start.text <;> simp only [first] at run <;> cases run
    · exact called _ _
    · exact sliced _ _ _
  case h_2 subject start count =>
    cases first : signed64? start.text <;> cases many : signed64? count.text <;>
      simp only [first, many] at run <;> cases run
    · exact called _ _
    · exact called _ _
    · exact called _ _
    · exact sliced _ _ _
  case h_3 => exact absurd run unexpected_ne_ok

lemma closesBare_intoText (t : Table) (target : Option Target) :
    closesBare (intoText t target) := by
  rcases target with _ | (id | ⟨base, index⟩ | index)
  · exact (by decide : closesBare intoRecord)
  · exact closesBare_append _ (by decide)
  · exact closesBare_append _ (by decide)
  · change closesBare (intoField index)
    rw [intoField]
    split
    · decide
    · exact closesBare_append _ (by decide)

end Symbols

/-- What has to be given for the fragments of a phrase to be settled. Nothing is said of
regexes, of what splits a string and of where a line is read from. A call with a format
is settled where its name stands. -/
def Phrase.Settles (b : Session) : Phrase → Prop
  | .goal (.rest left _ _) | .extension left _ _ => left.Settled b
  | .regex _ _ | .pieces _ | .separator _ | .getlineSource _ => False
  | .call function _ => function.strategy ≠ .sprintf
  | _ => True

/-- A text in quotes is that of a string, of a call with a format, or of an operator. -/
lemma Reads.settled (h : Reads phrase s fs s') {b : Session} (e0 : b.Effect s)
    (spelled : b.table.Spelled) (given : phrase.Settles b) : ∀ f ∈ fs, f.Settled b := by
  have one : ∀ {f : Fragment}, f.Settled b → ∀ g ∈ [f], g.Settled b := by
    intro f settled g mem
    rwa [List.mem_singleton.mp mem]
  have called : ∀ {python : String} {args : List Fragment},
      (Fragment.atom (python ++ argumentTexts args)).Settled b :=
    settled_of_closes _ (closesBare_parenthesised _) rfl
  induction h with
  | operation e first behind ih ih' =>
    exact ih' (e0.trans first.effect) (ih e0 trivial _ List.mem_cons_self)
  | stop e => exact one given
  | extend e first behind goes ih ih' =>
    exact ih' (e0.trans first.effect) (ih e0 given _ List.mem_cons_self)
  | subtraction e | arithmetic e | membership e | assignVariable e | assignElement e
  | assignField e | sign e => exact one (settled_of_level rfl)
  | concatenation e | lengthOf e => exact one (settled_of_closes ")" (by decide) rfl)
  | logical e here kind operand use use' done ih =>
    rcases done with ⟨-, -, rfl⟩ | ⟨-, run⟩
    · exact one (settled_of_level rfl)
    · rw [guarded_ok run]
      exact one (settled_of_opens "cond_" (by decide) rfl)
  | matching e =>
    refine one ?_
    refine settled_of_closesBare ?_
    change closesBare (if _ then _ else _)
    split <;> exact closesBare_append _ (by decide)
  | pipe e here kind word use source ih =>
    obtain ⟨t, grows, rfl⟩ := useAsScalar_ok use
    exact ih ((e0.advance (Awk.isInner_of_operatorAt here.1)).grow grows) trivial
  | conditional e here kind first colon second use use' use'' done ih ih' =>
    rcases done with ⟨-, -, rfl⟩ | ⟨-, run⟩
    · exact one (settled_of_closes ")" (by decide) rfl)
    · rw [choice_ok run]
      exact one (settled_of_opens "choice_" (by decide) rfl)
  | assignBy e here kind changes value use run ih =>
    rw [updateField_ok run]
    exact one (settled_of_opens "field_" (by decide) rfl)
  | negation e =>
    refine one ?_
    split
    · exact settled_of_closesBare (closesBare_parenthesised _)
    · exact settled_of_level rfl
  | stepBefore e kind operand run ih | stepAfter e operand kind run ih =>
    exact one (settled_step run)
  | plain e operand ih | getlineAlone e kind behind ih | argument e isArgument inner ih
  | whole e inner use ih | one e item ih | getlineTarget e kind operand ih => exact ih e0 trivial
  | arguments e mark items closed ih | substituted e mark inner ih =>
    exact ih (e0.advance (by simp [Symbol.isInner, mark])).skipNewlines trivial
  | number e kind | field e kind | name e kind =>
    exact one (settled_symbol (e0.table.spelled spelled) (by rw [kind]; rfl) (by simp [kind]) rfl)
  | string e kind => exact one fun _ _ => .inl ((e0.table.spelled spelled _).literal kind)
  | regexLiteral e =>
    exact one (settled_of_closes ".search(str(self._FLDS[0]))" (by decide) rfl)
  | computedField e => exact one (settled_of_closes "]" (by decide) rfl)
  | group e kind inner closed ih =>
    have opened := (e0.advance (by simp [Symbol.isInner, kind])).skipNewlines
    exact one (ih opened trivial _ List.mem_cons_self).grouped
  | tuple e => exact one (settled_of_closesBare (closesBare_parenthesised _))
  | @element use args context s s1 s2 e =>
    refine one ?_
    cases keep : context.keepMissing with
    | true => exact settled_of_closes ", \"\")" (by decide) rfl
    | false => exact settled_of_closes "]" (by decide) rfl
  | callLater e | user e | call e => exact one called
  | @function context f s s1 s' function e kind library behind ih =>
    by_cases strategy : function.strategy = .sprintf
    · exact one fun _ _ =>
        .inr ⟨_, _, s, f, s', e0, kind, strategy, .function e kind library behind, rfl⟩
    · exact ih (e0.trans (Moves.ok inferInstance e0.sound library)) strategy
  | @more afterItem context afterComma args f s s1 s2 e before comma item ih ih' =>
    have later : b.Effect (passLines afterComma s1.past) := by
      have passed := (e0.trans before.effect).advance (by simp [Symbol.isInner, comma])
      cases afterComma
      · exact passed
      · exact passed.skipNewlines
    intro g mem
    rcases List.mem_append.mp mem with mem | mem
    · exact ih e0 trivial g mem
    · exact ih' later trivial g mem
  | noArguments e | substitutedRecord e | noTarget e => exact List.forall_mem_nil _
  | lengthAlone e | lengthEmpty e => exact one (settled_of_opensBare (by decide))
  | matchCall e =>
    exact one (settled_of_closes _ (closesBare_append _ (b := ")") (by decide)) rfl)
  | split e strategy opened first comma var mark last closed done said ih ih' =>
    rcases done with ⟨rfl, -⟩ | ⟨-, rfl⟩ <;> exact one (settled_of_closes ")" (by decide) rfl)
  | substitute e => exact one (settled_of_opens "num_changed_" (by decide) rfl)
  | noSeparator e | separator e | regex e | literalRegex e | dynamicRegex e | piecesLiteral e
  | piecesBy e | fromCommand e | fromFile e | fromInput e => exact given.elim
  | method e => exact one (settled_of_closes "()" (by decide) rfl)
  | index e => exact one (settled_of_closes ")+1)" (by decide) rfl)
  | substr e strategy arguments run ih => exact one (settled_substr run)
  | sprintf e strategy => exact absurd strategy given
  | getline e => exact one (settled_of_closes _ (closesBare_intoText _ _) rfl)

end Expression

end AwkToPython
