import AwkToPython.Proofs.Token.Stitching

/-!
# Regexes as raw strings

In a raw string a backslash keeps the quote behind it from closing the literal and
stays in the text itself. Whether a quote closes depends on the parity of the run of
backslashes before it, the added one included.
-/
namespace AwkToPython

open List

namespace Literal

variable {odd : Bool} {cs : List Char}

/-- The content of a raw literal and the text behind its closing quote. A literal ends
on its own line. -/
def rawString? (escaped : Bool) : List Char → Option (List Char × List Char)
  | [] => none
  | c :: rest =>
    if c = '\n' || c = '\r' then none
    else if c = '"' && !escaped then some ([], rest)
    else (rawString? (c = '\\' && !escaped) rest).map fun parts => (c :: parts.1, parts.2)

/-- A backslash before each quote that has an even run of backslashes before it. -/
def quotesGuarded (cs : List Char) : List Char :=
  cs.zipIdx.flatMap fun place =>
    if place.1 = '"' ∧ slashes (cs.take place.2) % 2 = 0 then ['\\', '"'] else [place.1]

lemma endsEscaped_iff (cs : List Char) : endsEscaped false cs = true ↔ slashes cs % 2 = 1 := by
  rw [endsEscaped_eq, decide_eq_true_eq, slashes]

/-- The state of the scan is the parity of the run before it. -/
lemma guardQuotes_eq_zipIdx (before cs : List Char) :
    guardQuotes (endsEscaped false before) cs =
      (cs.zipIdx before.length).flatMap fun place =>
        if place.1 = '"' ∧ slashes ((before ++ cs).take place.2) % 2 = 0 then ['\\', '"']
        else [place.1] := by
  induction cs generalizing before with
  | nil => rfl
  | cons c cs ih =>
    have step := ih (before ++ [c])
    rw [endsEscaped_append, length_append, append_assoc] at step
    have parity := endsEscaped_iff before
    rw [zipIdx_cons, flatMap_cons, take_left]
    by_cases bare : c = '"' ∧ slashes before % 2 = 0
    · obtain ⟨rfl, even⟩ := bare
      have free : endsEscaped false before = false := by
        rw [← Bool.not_eq_true, parity]
        omega
      rw [guardQuotes, if_pos (by simp [free]), if_pos ⟨rfl, even⟩]
      exact congrArg ('\\' :: '"' :: ·) step
    · have kept : ¬ (c = '"' && !endsEscaped false before) := by
        intro free
        rw [Bool.and_eq_true, decide_eq_true_eq, Bool.not_eq_true', ← Bool.not_eq_true,
          parity] at free
        exact bare ⟨free.1, by omega⟩
      rw [guardQuotes, if_neg kept, if_neg bare]
      exact congrArg (c :: ·) step

lemma guardQuotes_eq (cs : List Char) : guardQuotes false cs = quotesGuarded cs :=
  guardQuotes_eq_zipIdx [] cs

/-- Guarding leaves no quote bare and the parity behind the text as it was. -/
lemma guardQuotes_closed (odd : Bool) (cs : List Char) :
    hasBareQuote odd (guardQuotes odd cs) = false := by
  induction cs generalizing odd with
  | nil => rfl
  | cons c cs ih =>
    rw [guardQuotes]
    split
    · have free : odd = false := by simp_all
      simpa [hasBareQuote, free] using ih false
    · rename_i kept
      rw [hasBareQuote, Bool.eq_false_iff.mpr kept, ih]
      rfl

lemma guardQuotes_of_closed (closed : hasBareQuote odd cs = false) : guardQuotes odd cs = cs := by
  induction cs generalizing odd with
  | nil => rfl
  | cons c cs ih =>
    rw [hasBareQuote, Bool.or_eq_false_iff] at closed
    rw [guardQuotes, if_neg (by simp [closed.1]), ih closed.2]

lemma odd_of_closed {before after : List Char}
    (closed : hasBareQuote false (before ++ '"' :: after) = false) : slashes before % 2 = 1 := by
  rw [hasBareQuote_append, Bool.or_eq_false_iff, hasBareQuote] at closed
  have escaped := (Bool.or_eq_false_iff.mp closed.2).1
  exact (endsEscaped_iff before).mp (by simpa using escaped)

/-- Without a bare quote a text goes on up to the quote behind it. -/
lemma rawString?_of_closed (closed : hasBareQuote odd cs = false)
    (ends : endsEscaped odd cs = false) (oneLine : ∀ c ∈ cs, c ≠ '\n' ∧ c ≠ '\r')
    (rest : List Char) : rawString? odd (cs ++ '"' :: rest) = some (cs, rest) := by
  induction cs generalizing odd with
  | nil =>
    rw [endsEscaped] at ends
    simp [rawString?, ends]
  | cons c cs ih =>
    rw [hasBareQuote, Bool.or_eq_false_iff] at closed
    rw [forall_mem_cons] at oneLine
    rw [cons_append, rawString?, if_neg (by simp [oneLine.1]), if_neg (by simp [closed.1]),
      ih closed.2 ends oneLine.2]
    rfl

lemma endsEscaped_concat (cs : List Char) (other : c ≠ '\\') :
    endsEscaped false (cs ++ [c]) = false := by
  rw [endsEscaped_append, endsEscaped, endsEscaped, decide_eq_false other, Bool.false_and]

/-- A guarded text in parentheses. -/
lemma group_closed (cs : List Char) :
    hasBareQuote false ("(?:".toList ++ guardQuotes false cs ++ ")".toList) = false := by
  have lead : hasBareQuote false "(?:".toList = false ∧
      endsEscaped false "(?:".toList = false := by decide
  rw [hasBareQuote_append, hasBareQuote_append, lead.1, lead.2, guardQuotes_closed]
  rfl

lemma group_oneLine (oneLine : ∀ c ∈ cs, c ≠ '\n' ∧ c ≠ '\r') :
    ∀ c ∈ "(?:".toList ++ guardQuotes false cs ++ ")".toList, c ≠ '\n' ∧ c ≠ '\r' := by
  have fixed : ∀ c ∈ "(?:)\\".toList, c ≠ '\n' ∧ c ≠ '\r' := by simp
  intro c mem
  rw [mem_append, mem_append] at mem
  rcases mem with (lead | inside) | last
  · exact fixed c (mem_append_left [')', '\\'] lead)
  · rcases mem_guardQuotes inside with rfl | inside
    · exact fixed _ (by decide)
    · exact oneLine c inside
  · exact fixed c (mem_append_right "(?:".toList (mem_append_left ['\\'] last))

/-- The initialiser of a regex is one raw literal, which no quote of the regex closes.
It holds the regex with a backslash more before each bare quote. -/
theorem regex_literal_closes_at_its_end (t : Table) (body : String)
    (oneLine : ∀ c ∈ body.toList, c ≠ '\n' ∧ c ≠ '\r') :
    (∃ content, content = "(?:".toList ++ quotesGuarded body.toList ++ ")".toList ∧
      ((t.regex body).2.symbol (t.regex body).1).initial =
        "re.compile(r\"" ++ String.ofList content ++ "\")" ∧
      rawString? false (content ++ "\")".toList) = some (content, ")".toList) ∧
      ∀ before after, content = before ++ '"' :: after → slashes before % 2 = 1) ∧
    ∀ cs, guardQuotes false (guardQuotes false cs) = guardQuotes false cs := by
  refine ⟨⟨_, rfl, ?_⟩, fun cs => guardQuotes_of_closed (guardQuotes_closed false cs)⟩
  rw [← guardQuotes_eq]
  have closed := group_closed body.toList
  refine ⟨?_, ?_, ?_⟩
  · rw [show (t.regex body).1 = t.size from rfl, (Table.gains_regex t body).new]
    apply String.toList_injective
    simp [compiledRegex]
  · exact rawString?_of_closed closed (endsEscaped_concat _ (by decide)) (group_oneLine oneLine) _
  · intro before after same
    exact odd_of_closed (same ▸ closed)

/-- A quote alone. -/
theorem regex_literal_closes_after_quote :
    rawString? false "(?:\\\")\")".toList = some ("(?:\\\")".toList, ")".toList) := by
  obtain ⟨⟨content, rfl, -, read, -⟩, -⟩ :=
    regex_literal_closes_at_its_end { entries := #[], index := [] } "\"" (by simp)
  exact read

end Literal

end AwkToPython
