import AwkToPython.Literal.PythonString
import AwkToPython.Text.Lines
import Mathlib.Tactic.Lemma

/-!
# Values of Python strings

A string between double quotes is evaluated character by character up to its
closing quote. Of Python's escapes those are evaluated that literals are written
with. A literal evaluates to the value that it was written for, and it ends at its
last quote.
-/
namespace AwkToPython.Python

def hexDigit? (c : Char) : Option Nat :=
  if '0' ≤ c && c ≤ '9' then some (c.toNat - '0'.toNat)
  else if 'a' ≤ c && c ≤ 'f' then some (c.toNat - 'a'.toNat + 10)
  else if 'A' ≤ c && c ≤ 'F' then some (c.toNat - 'A'.toNat + 10)
  else none

/-- The character that two hexadecimal digits stand for. -/
def hexChar? (high low : Char) : Option Char := do
  return Char.ofNat (16 * (← hexDigit? high) + (← hexDigit? low))

/-- The character that an escape of one letter stands for. -/
def escaped? (letter : Char) : Option Char :=
  [('\\', '\\'), ('"', '"'), ('n', '\n'), ('t', '\t'), ('r', '\r')].lookup letter

/-- A character before what is evaluated behind it. -/
def before (c : Option Char) (found : Option (List Char × List Char)) :
    Option (List Char × List Char) :=
  c.bind fun c => found.map fun found => (c :: found.1, found.2)

/-- The value of a string behind its opening quote, and the text behind its closing
one. No string goes on in the next line. -/
def stringValue? : List Char → Option (List Char × List Char)
  | [] => none
  | '"' :: rest => some ([], rest)
  | '\n' :: _ => none
  | '\r' :: _ => none
  | '\\' :: 'x' :: high :: low :: rest => before (hexChar? high low) (stringValue? rest)
  | '\\' :: letter :: rest => before (escaped? letter) (stringValue? rest)
  | ['\\'] => none
  | c :: rest => before (some c) (stringValue? rest)

/-- The value of a text that is one string and nothing else. -/
def evaluate (text : String) : Option String :=
  match Text.after? "\"" text with
  | some body =>
    match stringValue? body.toList with
    | some (value, []) => some (String.ofList value)
    | _ => none
  | none => none

lemma stringValue?_escape (other : letter ≠ 'x') (rest : List Char) :
    stringValue? ('\\' :: letter :: rest) = before (escaped? letter) (stringValue? rest) := by
  rw [stringValue?.eq_def]
  split <;> grind

lemma stringValue?_code (high low : Char) (rest : List Char) :
    stringValue? ('\\' :: 'x' :: high :: low :: rest) =
      before (hexChar? high low) (stringValue? rest) := by
  rw [stringValue?]

lemma stringValue?_plain (quote : c ≠ '"') (line : c ≠ '\n') (feed : c ≠ '\r')
    (slash : c ≠ '\\') (rest : List Char) :
    stringValue? (c :: rest) = before (some c) (stringValue? rest) := by
  rw [stringValue?.eq_def]
  split <;> simp_all

lemma hexDigit?_digitChar : ∀ n < 16, hexDigit? (Nat.digitChar n) = some n := by decide

lemma hexChar?_digits (small : c.toNat < 256) :
    hexChar? (Nat.digitChar (c.toNat / 16)) (Nat.digitChar (c.toNat % 16)) = some c := by
  rw [hexChar?, hexDigit?_digitChar _ (by omega), hexDigit?_digitChar _ (by omega)]
  change some (Char.ofNat (16 * (c.toNat / 16) + c.toNat % 16)) = some c
  rw [Nat.div_add_mod, Char.ofNat_toNat]

lemma stringValue?_quotedChar (c : Char) (rest : List Char) :
    stringValue? (Literal.quotedChar c ++ rest) = before (some c) (stringValue? rest) := by
  unfold Literal.quotedChar
  split
  · exact stringValue?_escape (by decide) rest
  · exact stringValue?_escape (by decide) rest
  · exact stringValue?_escape (by decide) rest
  · exact stringValue?_escape (by decide) rest
  · exact stringValue?_escape (by decide) rest
  case h_6 slash quote line tab feed =>
    split
    case isTrue control =>
      have small : c.toNat < 256 := by
        rw [Bool.or_eq_true, decide_eq_true_eq, decide_eq_true_eq] at control
        omega
      rw [← hexChar?_digits small]
      exact stringValue?_code _ _ rest
    case isFalse => exact stringValue?_plain quote line feed slash rest

lemma stringValue?_quoted (cs rest : List Char) :
    stringValue? (cs.flatMap Literal.quotedChar ++ '"' :: rest) = some (cs, rest) := by
  induction cs with
  | nil => simp [stringValue?]
  | cons c cs ih =>
    rw [List.flatMap_cons, List.append_assoc, stringValue?_quotedChar, ih]
    rfl

lemma evaluate_literal (value : String) : evaluate (Literal.python value) = some value := by
  have body : Text.after? "\"" (Literal.python value) =
      some (String.ofList (value.toList.flatMap Literal.quotedChar ++ ['"'])) := by
    simp only [Text.after?, Literal.python, String.toList_ofList]
    rfl
  rw [evaluate, body]
  dsimp only
  rw [String.toList_ofList, stringValue?_quoted]
  exact congrArg some String.ofList_toList

end AwkToPython.Python
