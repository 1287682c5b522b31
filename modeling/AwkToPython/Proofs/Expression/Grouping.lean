import AwkToPython.Proofs.Expression.Simulation
import AwkToPython.Proofs.Token.Reading

/-!
# Expressions keep their grouping

An expression is compiled up to the first token that does not go on with it. If
the tokens that were read derive a tree, Python reads the text of the expression
as the image of that tree: no operator was given to other operands. All of them
are read where AWK would end the expression too, unless a negation is joined to an
operand before it: `NR !NF` is read as `NR`.
-/
namespace AwkToPython

open Expression Compile

namespace Awk

variable {ι : Type} {table : Table} {s s' : Session} {f left : Fragment} {context : Context}
  {limit : Nat} {ts k : List Token} {e : Expr ι}

/-! ### Where an expression stops -/

/-- Operations follow one another until nothing goes on. -/
lemma stops_after_rest (read : Reads phrase s fs s')
    (rest : phrase = .goal (.rest left context limit)) :
    continues s'.table s'.cursor.current context.printing limit = false := by
  induction read generalizing left with
  | stop _ stops =>
    cases rest
    exact stops
  | extend _ _ _ _ _ ih =>
    cases rest
    exact ih rfl
  | _ => cases rest

lemma stops_after_whole (read : Reads (.whole context) s [f] s') :
    continues s'.table s'.cursor.current context.printing anyLevel = false := by
  have stops : ∀ {s s' : Session}, Reads (.goal (.operation context anyLevel)) s [f] s' →
      continues s'.table s'.cursor.current context.printing anyLevel = false := by
    rintro s s' (⟨-, -, rest⟩ | _)
    exact stops_after_rest rest rfl
  cases read with
  | argument _ _ inner => exact stops inner
  | whole _ inner use =>
    obtain ⟨table', grown, rfl⟩ := useAsScalar_ok use
    have sound := inner.effect.sound
    exact (continues_of_grows grown sound.marked sound.current.valid
      sound.current.regular.paired).trans (stops inner)

/-- What stopped before the tokens that follow has not gone on with them. -/
lemma Overruns.not_stopped (follows : Follows table s')
    (stops : continues s'.table s'.cursor.current context.printing anyLevel = false)
    (shown : s'.cursor.shown = k) : ¬Overruns table context.printing anyLevel ts k s' := by
  rw [follows.continues_eq] at stops
  rcases shown with rfl
  rintro (⟨_, ⟨⟩, goes⟩ | ⟨_, -, -, _, ⟨⟩, opening, -⟩ | ⟨-, beyond⟩)
  · rw [stops] at goes
    cases goes
  · -- a parenthesis starts an operand that would be joined
    have below : Symbol.concatenationLevel < anyLevel := by decide
    simp [continues, operatorAt, opening, Symbol.startsOperand, below] at stops
  · exact absurd beyond (Nat.lt_irrefl _)

/-! ### Whole expressions -/

lemma Follows.start (sound : s.Sound) : Follows s.table s :=
  ⟨sound.marked, sound, .refl _, fun t mem =>
    (sound.tokens t (((Cursor.visible_sublist s.cursor.ahead).cons_cons _).subset mem)).valid⟩

lemma expression_settled (sound : s.Sound)
    (derives : Derives s.table (.operation context.printing false 19) ts e)
    (shown : s.cursor.shown = ts ++ k) (run : expression context s = .ok f s') :
    Settled s.table s e 19 context.printing anyLevel ts k f s' := by
  have simulated : Simulated s.table context.printing false 19 ts e := derives.followed sound.marked
  exact simulated.whole (Nat.le_refl _) (.start sound) shown (reads_expression sound run)

/-- An expression whose tokens derive a tree is compiled to the tree. -/
lemma expression_compiled (sound : s.Sound)
    (derives : Derives s.table (.operation context.printing false 19) ts e)
    (shown : s.cursor.shown = ts ++ s'.cursor.shown) (run : expression context s = .ok f s') :
    Compiled s s' e 19 f := by
  have read := reads_expression sound run
  have follows := (Follows.start sound).effect read.effect
  cases expression_settled sound derives shown run with
  | done compiled => exact compiled
  | overrun h => exact absurd h (Overruns.not_stopped follows (stops_after_whole read) rfl)
  | stuck h => exact absurd rfl h.shown_ne

end Awk

namespace Compile

variable {s s' : Session} {f : Fragment} {context : Context} {ts k : List Token}
  {tree : Awk.Expr Empty}

/-- If the tokens that an expression has read derive a tree, Python reads its text
as the image of the tree, and no line was written. They are all read if what
follows does not go on with them and no negation stands right behind an operand. -/
theorem expression_keeps_grouping (sound : s.Sound)
    (derives : Awk.Derives s.table (.operation context.printing false 19) ts tree)
    (shown : s.cursor.shown = ts ++ k) (run : expression context s = .ok f s') :
    (s'.cursor.shown = k → Python.read f.text = some tree.image ∧ s'.listing = s.listing) ∧
      (Awk.Ends s.table context.printing anyLevel ts k → Awk.Unjoined s.table ts →
        s'.cursor.shown = k) := by
  refine ⟨?_, fun ends unjoined => ?_⟩
  · rintro rfl
    have compiled := Awk.expression_compiled sound derives shown run
    obtain ⟨t, b, v, same, places, reads⟩ := compiled.places
    obtain ⟨rfl, rfl⟩ := places.translates.image same
    obtain ⟨ls, listing, written⟩ := places.written
    cases written
    refine ⟨reads.read_eq (Nat.le_trans compiled.tight (by decide)), ?_⟩
    rw [listing, Listing.extend_nil]
  · cases Awk.expression_settled sound derives shown run with
    | done _ shown => exact shown
    | overrun h => exact absurd ends h.not_ends
    | stuck h => exact absurd unjoined h.not_unjoined

lemma isMark_ofWord : ∀ key ∈ ["!", "==", "-", "^", "&&", "||", "?", ":", "(", ",", ")"],
    Awk.IsMark key (Token.ofWord key) := by
  unfold Awk.IsMark
  decide

/-- `NR` and `NF` are operands at every level. -/
lemma counter_derives (level : Nat) : ∀ name ∈ ["NR", "NF"], Awk.Derives Table.initial
    (.operation false false level) [Token.ofWord name] (.var "self" name : Awk.Expr ι) := by
  have known : ∀ name ∈ ["NR", "NF"],
      (Table.initial.symbol (Token.ofWord name).symbol).isVariable = true ∧
      (Table.initial.symbol (Token.ofWord name).symbol).python = "self" ++ "." ++ name ∧
      Python.IsName "self" ∧ Python.IsName name := by decide
  intro name mem
  obtain ⟨kind, python, owner, own⟩ := known name mem
  exact (Awk.Derives.var ⟨kind, python, owner, own⟩).looser (Nat.zero_le _)

/-- An expression ends before a semicolon. -/
lemma ends_semicolon (ts k : List Token) :
    Awk.Ends Table.initial false anyLevel ts (Token.ofWord ";" :: k) := by
  constructor
  · rintro _ ⟨⟩
    decide
  · rintro ⟨_, -, -, _, ⟨⟩, opening, -⟩
    exact absurd opening (by decide)

/-- `! NR == - NF ^ NR` compares a negation with a signed power. -/
theorem expression_keeps_grouping_signed :
    let s := Session.ofWords ["!", "NR", "==", "-", "NF", "^", "NR", ";"]
    let s' := after (expression {} s)
    let ts := ["!", "NR", "==", "-", "NF", "^", "NR"].map Token.ofWord
    let k := [Token.ofWord ";", Token.endOfInput 1]
    let tree : Awk.Expr Empty := .binary .equal (.not (.var "self" "NR"))
      (.sign true (.binary .power (.var "self" "NF") (.var "self" "NR")))
    s.Sound ∧ Awk.Derives s.table (.operation false false 19) ts tree ∧
      s.cursor.shown = ts ++ k ∧ Awk.Ends s.table false anyLevel ts k ∧ Awk.Unjoined s.table ts ∧
      ∃ f, expression {} s = .ok f s' ∧ s'.cursor.shown = k ∧
        Python.read f.text = some tree.image ∧ s'.listing = s.listing := by
  intro s s' ts k tree
  have sound : s.Sound := Session.ofWords_sound _
  have negation : Awk.Derives s.table (.operation false false Awk.Operator.equal.left)
      [Token.ofWord "!", Token.ofWord "NR"] (.not (.var "self" "NR") : Awk.Expr Empty) :=
    (Awk.Derives.not (isMark_ofWord "!" (by decide)) (counter_derives 5 "NR" (by decide))).looser
      (by decide)
  have power : Awk.Derives s.table (.operation false false Awk.Operator.power.level)
      ([Token.ofWord "NF"] ++ Token.ofWord "^" :: [Token.ofWord "NR"])
      (.binary .power (.var "self" "NF") (.var "self" "NR") : Awk.Expr Empty) :=
    .binary (by decide) (isMark_ofWord "^" (by decide)) (by simp)
      (counter_derives _ "NF" (by decide)) (counter_derives _ "NR" (by decide))
  have signed : Awk.Derives s.table (.operation false false Awk.Operator.equal.right)
      (Token.ofWord "-" :: [Token.ofWord "NF", Token.ofWord "^", Token.ofWord "NR"])
      (.sign true (.binary .power (.var "self" "NF") (.var "self" "NR")) : Awk.Expr Empty) :=
    (Awk.Derives.sign
      (show Awk.IsMark (Awk.Expr.signText true) _ from isMark_ofWord "-" (by decide))
      (power.looser (by decide))).looser (by decide)
  have compared : Awk.Derives s.table (.operation false false Awk.Operator.equal.level) ts tree :=
    .binary (by decide) (isMark_ofWord "==" (by decide)) (by simp) negation signed
  have derives := compared.looser (show Awk.Operator.equal.level ≤ 19 by decide)
  obtain ⟨f, run⟩ := ok_of_succeeds (show succeeds (expression {} s) = true by decide +kernel)
  have shown : s.cursor.shown = ts ++ k := by decide +kernel
  have ends : Awk.Ends s.table false anyLevel ts k := ends_semicolon ts _
  have unjoined : Awk.Unjoined s.table ts := by
    unfold Awk.Unjoined
    decide +kernel
  have keeps := expression_keeps_grouping sound derives shown run
  have stopped := keeps.2 ends unjoined
  exact ⟨sound, derives, shown, ends, unjoined, f, run, stopped, keeps.1 stopped⟩

/-- `NR !NF` joins a negation to an operand, but only the operand is read. -/
theorem joined_negation_not_read :
    let s := Session.ofWords ["NR", "!", "NF", ";"]
    let s' := after (expression {} s)
    let ts := ["NR", "!", "NF"].map Token.ofWord
    let k := [Token.ofWord ";", Token.endOfInput 1]
    let tree : Awk.Expr Empty := .concat (.var "self" "NR") (.not (.var "self" "NF"))
    s.Sound ∧ Awk.Derives s.table (.operation false false 19) ts tree ∧
      s.cursor.shown = ts ++ k ∧ Awk.Ends s.table false anyLevel ts k ∧
      ∃ f, expression {} s = .ok f s' ∧ s'.cursor.shown ≠ k ∧
        Python.read f.text ≠ some tree.image := by
  intro s s' ts k tree
  have negation : Awk.Derives s.table (.operation false false 7)
      [Token.ofWord "!", Token.ofWord "NF"] (.not (.var "self" "NF") : Awk.Expr Empty) :=
    (Awk.Derives.not (isMark_ofWord "!" (by decide)) (counter_derives 5 "NF" (by decide))).looser
      (by decide)
  have joined : Awk.Derives s.table (.operation false false 8)
      ([Token.ofWord "NR"] ++ [Token.ofWord "!", Token.ofWord "NF"]) tree := by
    refine .concat (counter_derives 8 "NR" (by decide)) negation ?_ ?_
    · rintro _ ⟨⟩
      decide
    · rintro ⟨_, -, -, _, ⟨⟩, opening, -⟩
      exact absurd opening (by decide)
  have given : ((expression {}).run' s).map (·.text) = some "self.NR" := by decide +kernel
  have read : Python.read "self.NR" = some (.attribute (.name "self") "NR") := by decide +kernel
  obtain ⟨f, run⟩ := ok_of_succeeds (show succeeds (expression {} s) = true by decide +kernel)
  refine ⟨Session.ofWords_sound _, joined.looser (by decide), by decide +kernel,
    ends_semicolon ts _, f, run, by decide +kernel, ?_⟩
  rw [run'_ok run] at given
  have text : f.text = "self.NR" := Option.some.inj given
  rw [text, read]
  simp [tree, Awk.Expr.image]

end Compile

end AwkToPython
