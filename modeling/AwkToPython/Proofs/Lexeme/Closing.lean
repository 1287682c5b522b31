import AwkToPython.Proofs.Token.StringLiteral

/-!
# Where literals end

A literal is measured from the front, escape by escape and, in a regex, bracket by
bracket. Whether it is still open is then asked of its last characters alone. Both
readings agree: a literal is open just if the end of the line ended it.
-/
namespace AwkToPython

open List Literal AwkToPython.Span

namespace Lexeme

/-- The inside of a literal before `after`: no bare delimiter is in it. In a regex a
complete bracket expression may hold any character, and a bracket that nothing closes is
an ordinary one. -/
inductive Body (delimiter : Char) : List Char → List Char → Prop where
  | nil {after} : Body delimiter [] after
  | plain {c cs after} : c ≠ delimiter → c ≠ '\\' → (delimiter = '/' → c ≠ '[') →
      Body delimiter cs after → Body delimiter (c :: cs) after
  | escape {c cs after} : Body delimiter cs after → Body delimiter ('\\' :: c :: cs) after
  | bracket {inside cs after} : delimiter = '/' → ']' ∉ inside → Body delimiter cs after →
      Body delimiter ('[' :: (inside ++ ']' :: cs)) after
  | unclosed {cs after} : delimiter = '/' → ']' ∉ cs ++ after → Body delimiter cs after →
      Body delimiter ('[' :: cs) after

abbrev IsDelimiter (c : Char) : Prop := c = '"' ∨ c = '\'' ∨ c = '/'

/-- A bare delimiter ends the literal. -/
def EndsAtDelimiter (literal rest : List Char) : Prop :=
  ∃ d body, IsDelimiter d ∧ literal = d :: (body ++ [d]) ∧ Body d body (d :: rest)

/-- The end of the line ends the literal, behind a lone backslash perhaps. -/
def EndsWithLine (literal rest : List Char) : Prop :=
  ∃ d body tail, IsDelimiter d ∧ literal = d :: (body ++ tail) ∧ Body d body tail ∧
    (tail = [] ∨ tail = ['\\']) ∧ rest = []

variable {d : Char} {cs body after : List Char}

namespace Body

lemma endsEscaped_bracket (escaped : Bool) (inside cs : List Char) :
    endsEscaped escaped (inside ++ ']' :: cs) = endsEscaped false cs := by
  simp [endsEscaped_append, endsEscaped]

/-- Nothing behind the inside of a literal is escaped. -/
lemma bare (h : Body d body after) : endsEscaped false body = false := by
  induction h with
  | nil => rfl
  | plain _ slash _ _ ih => simpa [endsEscaped, slash] using ih
  | escape _ ih | unclosed _ _ _ ih => simpa [endsEscaped] using ih
  | bracket _ _ _ ih => rw [endsEscaped, endsEscaped_bracket, ih]

lemma concat_cases (front : List Char) {c : Char} (same : front ++ c :: cs = before ++ [d]) :
    before = front ∧ c = d ∨ ∃ cs', cs = cs' ++ [d] ∧ before = front ++ c :: cs' := by
  cases cs using reverseRecOn with
  | nil =>
    obtain ⟨rfl, last⟩ := append_inj' same rfl
    exact .inl ⟨rfl, (cons.inj last).1⟩
  | append_singleton cs e =>
    have parts : (front ++ c :: cs) ++ [e] = before ++ [d] := by simpa using same
    obtain ⟨rfl, last⟩ := append_inj' parts rfl
    exact .inr ⟨cs, by rw [last], rfl⟩

/-- A delimiter inside is escaped if it is the last character. -/
lemma last_escaped (h : Body d body after) (delimiter : IsDelimiter d) :
    ∀ before, body = before ++ [d] → endsEscaped false before = true := by
  have other : d ≠ ']' ∧ d ≠ '[' := by rcases delimiter with rfl | rfl | rfl <;> decide
  induction h with
  | nil => simp
  | plain different slash _ _ ih =>
    intro before same
    rcases concat_cases [] same with ⟨-, last⟩ | ⟨cs', behind, rfl⟩
    · exact absurd last different
    · simpa [endsEscaped, slash] using ih cs' behind
  | escape _ ih =>
    intro before same
    rcases concat_cases ['\\'] same with ⟨rfl, -⟩ | ⟨cs', behind, rfl⟩
    · rfl
    · simpa [endsEscaped] using ih cs' behind
  | @bracket inside _ _ _ _ _ ih =>
    intro before same
    rcases concat_cases ('[' :: inside) same with ⟨-, last⟩ | ⟨cs', behind, rfl⟩
    · exact absurd last.symm other.1
    · simpa [endsEscaped, endsEscaped_bracket] using ih cs' behind
  | unclosed _ _ _ ih =>
    intro before same
    rcases concat_cases [] same with ⟨-, last⟩ | ⟨cs', behind, rfl⟩
    · exact absurd last.symm other.2
    · simpa [endsEscaped] using ih cs' behind

end Body

lemma isOpen_of_endsWithLine (h : EndsWithLine literal rest) : isOpen literal = true := by
  obtain ⟨d, body, tail, delimiter, rfl, inside, tails, -⟩ := h
  have found : d = '"' || d = '\'' || d = '/' := by simpa [or_assoc] using delimiter
  by_cases last : (body ++ tail).getLast? = some d
  · rcases tails with rfl | rfl
    · obtain ⟨front, same⟩ := getLast?_eq_some_iff.mp last
      rw [same, isOpen_delimited delimiter]
      exact inside.last_escaped delimiter front (by simpa using same)
    · rw [getLast?_concat] at last
      cases last
      exact absurd delimiter (by decide)
  · rw [isOpen, if_pos found, if_neg last]

lemma isOpen_of_endsAtDelimiter (h : EndsAtDelimiter literal rest) : isOpen literal = false := by
  obtain ⟨d, body, delimiter, rfl, inside⟩ := h
  rw [isOpen_delimited delimiter, inside.bare]

/-! ### Lengths -/

/-- A scan of `n` characters takes the inside of a literal and what ends it. -/
def Ends (d : Char) (cs : List Char) (n : Nat) : Prop :=
  ∃ body tail rest, cs = body ++ (tail ++ rest) ∧ n = body.length + tail.length ∧
    Body d body (tail ++ rest) ∧ (tail = [d] ∨ (tail = [] ∨ tail = ['\\']) ∧ rest = [])

lemma Ends.literal (h : Ends d cs n) (delimiter : IsDelimiter d) :
    EndsAtDelimiter (d :: cs.take n) (cs.drop n) ∨ EndsWithLine (d :: cs.take n) (cs.drop n) := by
  obtain ⟨body, tail, rest, rfl, rfl, inside, tails⟩ := h
  rw [← length_append, ← append_assoc, take_left, drop_left]
  rcases tails with rfl | ⟨tails, rfl⟩
  · exact .inl ⟨d, body, delimiter, rfl, inside⟩
  · exact .inr ⟨d, body, tail, delimiter, rfl, by simpa using inside, tails, rfl⟩

lemma Ends.cons (h : Ends d cs n) (lead : List Char)
    (step : ∀ {body after}, cs = body ++ after → Body d body after → Body d (lead ++ body) after) :
    Ends d (lead ++ cs) (lead.length + n) := by
  obtain ⟨body, tail, rest, rfl, rfl, inside, tails⟩ := h
  refine ⟨lead ++ body, tail, rest, (append_assoc ..).symm, ?_, step rfl inside, tails⟩
  rw [length_append, Nat.add_assoc]

lemma ends_here (rest : List Char) : Ends d (d :: rest) 1 :=
  ⟨[], [d], rest, rfl, rfl, .nil, .inl rfl⟩

lemma ends_nil : Ends d [] 0 := ⟨[], [], [], rfl, rfl, .nil, .inr ⟨.inl rfl, rfl⟩⟩

lemma ends_slash : Ends d ['\\'] 1 := ⟨[], ['\\'], [], rfl, rfl, .nil, .inr ⟨.inr rfl, rfl⟩⟩

lemma ends_quotedLength (quote : d ≠ '/') (cs : List Char) : Ends d cs (quotedLength d cs) := by
  induction cs using quotedLength.induct d with
  | case1 => exact ends_nil
  | case2 => exact ends_slash
  | case3 c rest ih =>
    rw [quotedLength]
    exact ih.cons ['\\', c] fun _ inside => .escape inside
  | case4 rest last escape =>
    rw [quotedLength, if_pos rfl]
    · exact ends_here rest
    · exact last
    · exact escape
  | case5 c rest last escape other ih =>
    have slash : c ≠ '\\' := by
      rintro rfl
      cases rest with
      | nil => exact last rfl rfl
      | cons e rest => exact escape e rest rfl rfl
    rw [quotedLength, if_neg other]
    · exact ih.cons [c] fun _ inside => .plain other slash (fun same => absurd same quote) inside
    · exact last
    · exact escape

/-- Inside a bracket expression everything up to its end is taken. -/
lemma regexLength_bracket (free : ']' ∉ inside) (cs : List Char) :
    regexLength true (inside ++ ']' :: cs) = inside.length + 1 + regexLength false cs := by
  induction inside with
  | nil =>
    rw [nil_append, regexLength.eq_def]
    simp
  | cons c inside ih =>
    rw [mem_cons, not_or] at free
    rw [cons_append, regexLength.eq_def]
    dsimp only
    rw [if_pos rfl, decide_eq_true (Ne.symm free.1), ih free.2, length_cons]
    omega

lemma ends_regexLength (cs : List Char) : Ends '/' cs (regexLength false cs) := by
  induction length : cs.length using Nat.strong_induction_on generalizing cs with
  | _ n ih =>
  subst length
  cases cs with
  | nil => exact ends_nil
  | cons c cs =>
    have next := ih cs.length (by simp) cs rfl
    rw [regexLength.eq_def]
    dsimp only
    rw [if_neg Bool.false_ne_true]
    by_cases slash : c = '/'
    · subst slash
      exact ends_here cs
    rw [if_neg slash]
    by_cases escape : c = '\\'
    · subst escape
      cases cs with
      | nil => exact ends_slash
      | cons e rest =>
        have behind := ih rest.length (by rw [length_cons, length_cons]; omega) rest rfl
        exact behind.cons ['\\', e] fun _ inside => .escape inside
    rw [if_neg escape]
    by_cases bracket : c = '['
    · subst bracket
      rw [if_pos rfl, contains_eq_mem]
      by_cases closed : ']' ∈ cs
      · obtain ⟨inside, rest, rfl, free⟩ := eq_append_cons_of_mem closed
        have behind := ih rest.length (by simp; omega) rest rfl
        rw [decide_eq_true closed, regexLength_bracket free]
        have step := behind.cons ('[' :: (inside ++ [']'])) fun _ body => by
          simpa using Body.bracket rfl free body
        have length (k : Nat) : 1 + (inside.length + 1 + k) =
            ('[' :: (inside ++ [']'])).length + k := by
          simp
          omega
        rw [length]
        simpa using step
      · rw [decide_eq_false closed]
        exact next.cons ['['] fun same inside => .unclosed rfl (same ▸ closed) inside
    · rw [if_neg bracket]
      exact next.cons [c] fun _ inside => .plain slash escape (fun _ => bracket) inside

/-- A literal is open just if its line ends before a delimiter closes it. -/
theorem isOpen_iff_endsWithLine {first : Bool} {c : Char} {span : Span}
    (found : front? first c cs = some span) (shape : span.shape = .quoted ∨ span.shape = .regex) :
    ∃ lead literal rest, c :: cs = lead ++ literal ++ rest ∧
      splitLead span.shape (c :: cs.take span.more) = (lead, literal) ∧
      (isOpen literal = true ↔ EndsWithLine literal rest) ∧
      (isOpen literal = false ↔ EndsAtDelimiter literal rest) := by
  obtain ⟨form, more⟩ := span
  have agree {literal rest : List Char}
      (ends : EndsAtDelimiter literal rest ∨ EndsWithLine literal rest) :
      (isOpen literal = true ↔ EndsWithLine literal rest) ∧
        (isOpen literal = false ↔ EndsAtDelimiter literal rest) := by
    rcases ends with closed | unclosed
    · have shut := isOpen_of_endsAtDelimiter closed
      exact ⟨⟨by simp [shut], isOpen_of_endsWithLine⟩, fun _ => closed, fun _ => shut⟩
    · have opened := isOpen_of_endsWithLine unclosed
      exact ⟨⟨fun _ => unclosed, fun _ => opened⟩, by simp [opened], isOpen_of_endsAtDelimiter⟩
  rcases front?_cases found with ⟨rfl, -⟩ | ⟨rfl, quote, rfl⟩ |
    ⟨rfl, lead, body, free, whole, rfl⟩ | ⟨rfl, -⟩
  · simp at shape
  · have delimiter : IsDelimiter c := by tauto
    have ends := (ends_quotedLength (by rintro rfl; simp at quote) cs).literal delimiter
    exact ⟨[], _, _, by simp, by simp [splitLead], agree ends⟩
  · have ends := (ends_regexLength body).literal (.inr (.inr rfl))
    refine ⟨lead, _, _, ?_, splitLead_regex free whole _, agree ends⟩
    simp [whole]
  · simp at shape

/-- An escaped slash does not close a regex, and a slash in a bracket expression does not. -/
theorem isOpen_iff_endsWithLine_bracket :
    ∃ literal rest, literal = "/[/]\\/".toList ∧ EndsWithLine literal rest := by
  have found : front? false '~' "/[/]\\/".toList = some ⟨.regex, 6⟩ := by decide
  obtain ⟨lead, literal, rest, -, split, ends, -⟩ := isOpen_iff_endsWithLine found (.inr rfl)
  cases split
  exact ⟨_, rest, rfl, ends.mp (by decide)⟩

end Lexeme

end AwkToPython
