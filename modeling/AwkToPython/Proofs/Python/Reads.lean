import AwkToPython.Fragment
import AwkToPython.Proofs.Python.Literal
import AwkToPython.Proofs.Python.Parse

/-!
# Reading texts that are put together

`Reads level text e` says that Python reads the text as `e` wherever an operand
of that level may stand. There is one rule for each form in which an expression
is written.
-/
namespace AwkToPython.Python

def Reads (level : Nat) (text : String) (e : Expr) : Prop :=
  ∃ ws, Spells text.toList ws ∧ Accepts level ws e

namespace Reads

variable {level : Nat} {text text' : String} {e e' : Expr}

lemma mono (h : Reads level text e) (le : level ≤ level') : Reads level' text e := by
  obtain ⟨ws, spells, accepts⟩ := h
  exact ⟨ws, spells, accepts.mono le⟩

lemma read_eq (h : Reads level text e) (le : level ≤ chooseLevel) : read text = some e := by
  obtain ⟨ws, spells, accepts⟩ := h
  have words : lex text.toList = ws := by
    have := spells.lex [] closes_nil
    rw [List.append_nil] at this
    rw [this]
    simp [lex]
  exact Accepts.read_eq (words ▸ accepts.mono le)

lemma name (h : IsName text) : Reads 0 text (.name text) :=
  ⟨_, .name h, .name text⟩

lemma member (h : IsName owner) (h' : IsName text) :
    Reads 0 (owner ++ "." ++ text) (.attribute (.name owner) text) := by
  refine ⟨_, ?_, .member owner text⟩
  have := Spells.member h h'
  simpa using this

lemma field (n : Nat) : Reads 0 s!"self._FLDS[{n}]"
    (.subscript (.attribute (.name "self") "_FLDS") (.number (toString n))) :=
  ⟨_, spells_field n, .element "self" "_FLDS" (toString n)⟩

lemma string (value : String) : Reads 0 (Literal.python value) (.string (Literal.python value)) :=
  ⟨_, spells_string value, .string _⟩

lemma number (h : IsNumber digits) : Reads 0 (String.ofList (Literal.unsignedNumber digits))
      (.number (String.ofList (Literal.unsignedNumber digits))) := by
  refine ⟨_, ?_, .number _⟩
  rw [String.toList_ofList]
  exact h.spells

lemma parens (h : Reads chooseLevel text e) : Reads 0 (Fragment.parenthesised text) e := by
  obtain ⟨ws, spells, accepts⟩ := h
  refine ⟨_, ?_, accepts.parens⟩
  simpa [Fragment.parenthesised] using spells.parens

lemma call (h : Reads chooseLevel text e) (h' : IsName function) :
    Reads 0 (function ++ "(" ++ text ++ ")") (.call (.name function) e) := by
  obtain ⟨ws, spells, accepts⟩ := h
  refine ⟨_, ?_, accepts.call function⟩
  simpa using spells.call h'

lemma sign (h : Reads signLevel text e) (hop : op = "+" ∨ op = "-") :
    Reads signLevel (op ++ text) (.unary op e) := by
  obtain ⟨ws, spells, accepts⟩ := h
  refine ⟨_, ?_, accepts.unary (.inl ⟨?_, rfl⟩)⟩
  · rcases hop with rfl | rfl
    · simpa using spells.sign (d := '+') (by decide)
    · simpa using spells.sign (d := '-') (by decide)
  · rcases hop with rfl | rfl <;> rfl

lemma negation (h : Reads notLevel text e) : Reads notLevel ("not " ++ text) (.unary "not" e) := by
  obtain ⟨ws, spells, accepts⟩ := h
  refine ⟨_, ?_, accepts.unary (.inr ⟨rfl, rfl⟩)⟩
  simpa using spells.negation

/-- A binary operator; `between` is how it is written. -/
lemma binary (h : Reads left text e) (h' : Reads right text' e') (joint : (between, op) ∈ joints)
    (found : operator? op = some (own, right)) (le : left ≤ own) (power : 4 ≤ left → 6 ≤ own)
    (plain : own = comparisonLevel → left < own) :
    Reads own (text ++ between ++ text') (.binary op e e') := by
  obtain ⟨ws, spells, accepts⟩ := h
  obtain ⟨ws', spells', accepts'⟩ := h'
  refine ⟨_, ?_, accepts.binary found accepts' le power plain⟩
  simpa using spells.joint spells' joint

lemma choose (h : Reads 18 text e) (ht : Reads 18 text' test) (hn : Reads chooseLevel no other) :
    Reads chooseLevel (text ++ " if " ++ text' ++ " else " ++ no) (.choose e test other) := by
  obtain ⟨ws, spells, accepts⟩ := h
  obtain ⟨ws', spells', accepts'⟩ := ht
  obtain ⟨ws'', spells'', accepts''⟩ := hn
  refine ⟨_, ?_, accepts.choose accepts' accepts''⟩
  simpa using spells.choose spells' spells''

end Reads

end AwkToPython.Python
