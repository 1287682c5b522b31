import AwkToPython.Literal.Replacement
import Mathlib.Tactic.Lemma

/-!
# What a replacement template expands to

A replacement is scanned from the left in both languages, but what is special differs.
The template of an AWK replacement expands to the text that AWK puts in, whatever was
matched. Expansion fails at a backslash that begins none of the two escapes, such as a
numbered group: no template has one.
-/
namespace AwkToPython

/-- What a Python template stands for where `matched` was found. -/
def Python.expand? (matched : List Char) : List Char → Option (List Char)
  | [] => some []
  | '\\' :: '\\' :: rest => (expand? matched rest).map ('\\' :: ·)
  | '\\' :: 'g' :: '<' :: '0' :: '>' :: rest => (expand? matched rest).map (matched ++ ·)
  | '\\' :: _ => none
  | c :: rest => (expand? matched rest).map (c :: ·)

/-- What an AWK replacement stands for where `matched` was found. -/
def Awk.replaced (matched : List Char) : List Char → List Char
  | [] => []
  | '\\' :: '&' :: rest => '&' :: replaced matched rest
  | '\\' :: '\\' :: rest => '\\' :: replaced matched rest
  | '&' :: rest => matched ++ replaced matched rest
  | c :: rest => c :: replaced matched rest

namespace Literal

variable {matched : List Char}

lemma expand?_cons (plain : c ≠ '\\') (rest : List Char) :
    Python.expand? matched (c :: rest) = (Python.expand? matched rest).map (c :: ·) := by
  simp [Python.expand?, plain]

/-- A backslash before anything but an ampersand or a backslash. -/
lemma replaced_backslash (mark : ∀ more, rest ≠ '&' :: more)
    (slash : ∀ more, rest ≠ '\\' :: more) :
    Awk.replaced matched ('\\' :: rest) = '\\' :: Awk.replaced matched rest := by
  rw [Awk.replaced]
  · exact fun more _ same => mark more same
  · exact fun more _ same => slash more same
  · simp

lemma replaced_cons (rest : List Char) (slash : c ≠ '\\') (mark : c ≠ '&') :
    Awk.replaced matched (c :: rest) = c :: Awk.replaced matched rest := by
  rw [Awk.replaced]
  · exact fun _ same => absurd same slash
  · exact fun _ same => absurd same slash
  · exact mark

lemma expand?_templateChars (matched cs : List Char) :
    Python.expand? matched (templateChars cs) = some (Awk.replaced matched cs) := by
  fun_induction templateChars cs with
  | case1 => rfl
  | case2 rest ih => rw [expand?_cons (by decide), ih, Awk.replaced]; rfl
  | case3 rest ih | case5 rest ih => rw [Python.expand?, ih, Awk.replaced]; rfl
  | case4 rest mark slash ih =>
    rw [Python.expand?, ih, replaced_backslash mark slash]
    rfl
  | case6 c rest _ _ slash mark ih =>
    rw [expand?_cons slash, ih, replaced_cons rest slash mark]
    rfl

/-- The template expands to what AWK puts in: it is a template, and none of its
backslashes begins another escape. -/
theorem template_expands (value matched : String) :
    (Python.expand? matched.toList (template value).toList).map String.ofList =
      some (String.ofList (Awk.replaced matched.toList value.toList)) := by
  rw [template, String.toList_ofList, expand?_templateChars, Option.map_some]

end Literal

end AwkToPython
