import AwkToPython.Proofs.Expression.Tree
import AwkToPython.Proofs.Python.Block

/-!
# Python code for a tree

An expression becomes a value and a block that runs before it. The block is empty
unless there are substitutions: each of them is a statement, and the number of
replacements it leaves in a temporary takes its place. Statements of a part that
AWK may not evaluate stand in a branch, and the value of the whole is stored in a
temporary then.
-/
namespace AwkToPython.Awk

open Python (Block)

/-- The statements of a substitution: one that substitutes and, if it changed a
field, one that sets the field. -/
structure Substitution where
  first : String
  count : String
  call : String
  behind : Option String
deriving DecidableEq, Repr

def Substitution.block (c : Substitution) : Block Python.Expr :=
  .line (.unpack c.first c.count c.call)
    (match c.behind with
      | none => .done
      | some text => .line (.plain text) .done)

namespace Temporary

def cond (n : Nat) : String := s!"cond_{n}"

def choice (n : Nat) : String := s!"choice_{n}"

def count (n : Nat) : String := s!"num_changed_{n}"

end Temporary

open Temporary

/-- The right side of a conjunction or a disjunction runs unless the left one
decides. -/
def guardBlock (n : Nat) (conjunction : Bool) (left : Python.Expr) (inner : Block Python.Expr)
    (right : Python.Expr) : Block Python.Expr :=
  .line (.store (cond n) left)
    (.when (if conjunction then .isSet (cond n) else .isUnset (cond n))
      (inner ++ .line (.store (cond n) right) .done) .done)

def branchBlock (n : Nat) (test : Python.Expr) (thenBlock : Block Python.Expr) (yes : Python.Expr)
    (elseBlock : Block Python.Expr) (no : Python.Expr) : Block Python.Expr :=
  .choose (.holds test) (thenBlock ++ .line (.store (choice n) yes) .done)
    (elseBlock ++ .line (.store (choice n) no) .done) .done

/-- The block and the value of a tree, with the temporaries numbered from one
bound to the other. -/
inductive Translates :
    Nat → Nat → Expr Substitution → Block Python.Expr → Python.Expr → Prop where
  | var (owner name : String) :
      Translates n n (.var owner name) .done (.attribute (.name owner) name)
  | number (digits : List Char) : Translates n n (.number digits) .done (Expr.numberImage digits)
  | string (value : String) : Translates n n (.string value) .done (.string (Literal.python value))
  | field (index : Nat) : Translates n n (.field index) .done (Expr.fieldImage index)
  | sign (minus : Bool) (h : Translates n m e b v) :
      Translates n m (.sign minus e) b (.unary (Expr.signText minus) v)
  | not (h : Translates n m e b v) : Translates n m (.not e) b (.unary "not" v)
  | binary {op : Operator} (left : Translates n m l b v) (right : Translates m p r b' v')
      (plain : op.isLogical = true → b' = .done) :
      Translates n p (.binary op l r) (b ++ b') (.binary op.python v v')
  | guarded {op : Operator} (logical : op.isLogical = true) (left : Translates n m l b v)
      (right : Translates m p r b' v') (hoisted : b' ≠ .done) :
      Translates n (p + 1) (.binary op l r) (b ++ guardBlock (p + 1) (op = .and) v b' v')
        (.name (cond (p + 1)))
  | concat (left : Translates n m l b v) (right : Translates m p r b' v') :
      Translates n p (.concat l r) (b ++ b')
        (.binary "+" (Expr.asString l.isString v) (Expr.asString r.isString v'))
  | choose (first : Translates n m test b v) (second : Translates m p yes .done v')
      (third : Translates p q no .done v'') :
      Translates n q (.choose test yes no) b (.choose v' v v'')
  | chosen (first : Translates n m test b v) (second : Translates m p yes b' v')
      (third : Translates p q no b'' v'') (hoisted : b' ≠ .done ∨ b'' ≠ .done) :
      Translates n (q + 1) (.choose test yes no) (b ++ branchBlock (q + 1) v b' v' b'' v'')
        (.name (choice (q + 1)))
  | call {label : Substitution} (first : Translates n m pattern b v)
      (second : Translates m p replacement b' v') (third : Translates p q target b'' v'')
      (counted : label.count = count (q + 1)) :
      Translates n (q + 1) (.call label pattern replacement target) (b ++ b' ++ b'' ++ label.block)
        (.name (count (q + 1)))

variable {m n : Nat} {e : Expr Substitution} {b : Block Python.Expr} {v : Python.Expr}

lemma Translates.le (h : Translates n m e b v) : n ≤ m := by
  induction h with
  | var | number | string | field => exact Nat.le_refl _
  | sign _ _ ih | not _ ih => exact ih
  | binary _ _ _ left right | concat _ _ left right => exact Nat.le_trans left right
  | guarded _ _ _ _ left right | choose _ _ _ first second third
  | chosen _ _ _ _ first second third | call _ _ _ _ first second third => omega

/-- Without substitutions nothing runs before the value, which is the image of the
tree. -/
lemma Translates.image (h : Translates n m e b v) {tree : Expr Empty}
    (same : e.erase = tree.erase) :
    b = .done ∧ v = tree.image := by
  induction h generalizing tree with
  | var | number | string | field =>
    cases tree with
    | call label => exact label.elim
    | _ => simp_all [Expr.erase, Expr.image]
  | sign minus _ ih =>
    cases tree with
    | sign =>
      simp only [Expr.erase, Expr.sign.injEq] at same
      obtain ⟨rfl, rfl⟩ := ih same.2
      exact ⟨rfl, by rw [same.1, Expr.image]⟩
    | call label => exact label.elim
    | _ => cases same
  | not _ ih =>
    cases tree with
    | not =>
      obtain ⟨rfl, rfl⟩ := ih (Expr.not.inj same)
      exact ⟨rfl, rfl⟩
    | call label => exact label.elim
    | _ => cases same
  | binary _ _ _ left right =>
    cases tree with
    | binary =>
      simp only [Expr.erase, Expr.binary.injEq] at same
      obtain ⟨rfl, rfl⟩ := left same.2.1
      obtain ⟨rfl, rfl⟩ := right same.2.2
      exact ⟨rfl, by rw [same.1, Expr.image]⟩
    | call label => exact label.elim
    | _ => cases same
  | guarded _ _ _ hoisted left right =>
    cases tree with
    | binary =>
      simp only [Expr.erase, Expr.binary.injEq] at same
      exact absurd (right same.2.2).1 hoisted
    | call label => exact label.elim
    | _ => cases same
  | @concat _ _ l _ _ _ r _ _ _ _ left right =>
    cases tree with
    | concat l' r' =>
      simp only [Expr.erase, Expr.concat.injEq] at same
      obtain ⟨rfl, rfl⟩ := left same.1
      obtain ⟨rfl, rfl⟩ := right same.2
      have strings : l.isString = l'.isString ∧ r.isString = r'.isString := by
        rw [← Expr.isString_erase l, ← Expr.isString_erase r, same.1, same.2]
        simp
      exact ⟨rfl, by rw [strings.1, strings.2, Expr.image]⟩
    | call label => exact label.elim
    | _ => cases same
  | choose _ _ _ first second third =>
    cases tree with
    | choose =>
      simp only [Expr.erase, Expr.choose.injEq] at same
      obtain ⟨rfl, rfl⟩ := first same.1
      obtain ⟨-, rfl⟩ := second same.2.1
      obtain ⟨-, rfl⟩ := third same.2.2
      exact ⟨rfl, rfl⟩
    | call label => exact label.elim
    | _ => cases same
  | chosen _ _ _ hoisted first second third =>
    cases tree with
    | choose =>
      simp only [Expr.erase, Expr.choose.injEq] at same
      have done := And.intro (second same.2.1).1 (third same.2.2).1
      rcases hoisted with hoisted | hoisted
      · exact absurd done.1 hoisted
      · exact absurd done.2 hoisted
    | call label => exact label.elim
    | _ => cases same
  | call =>
    cases tree with
    | call label => exact label.elim
    | _ => cases same

end AwkToPython.Awk
