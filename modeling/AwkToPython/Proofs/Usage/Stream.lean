import AwkToPython.Proofs.Lexeme.Scanner
import AwkToPython.Proofs.Usage.Interning
import AwkToPython.Proofs.Usage.Loading

/-!
# Streams of tokens

A text is scanned to its end or to a fault, in moves that stay inside its lines. If
it can be read, its tokens are closed by a line end and the end tokens, and no end
token stands before those.
-/
namespace AwkToPython

/-! ### The last lexeme -/

namespace Lexeme

/-- What a scan can end with. -/
def isLast : Lexeme → Bool
  | .lineEnd _ | .fault _ _ => true
  | _ => false

lemma scanLine_last (number pos : Nat) (first spaced : Bool) (rest : List Char)
    (later : List (List Char)) :
    ∃ l ∈ (scanLine number pos first spaced rest later).getLast?, l.isLast = true := by
  fun_induction scanLine number pos first spaced rest later with
  | case1 | case6 | case8 => exact ⟨_, rfl, rfl⟩
  | case2 number pos first spaced line later ih
  | case7 number pos first spaced c cs later place blank joined span found text comment ih =>
    obtain ⟨l, last, closes⟩ := ih
    exact ⟨l, List.mem_getLast?_cons last, closes⟩
  | case3 number pos first spaced c cs later blank ih
  | case4 number pos first spaced c cs blank joined ih
  | case5 number pos first spaced c cs blank joined line later ih
  | case9 number pos first spaced c cs blank joined span found text word parts isOpen line
      later ih =>
    exact ih
  | case10 number pos first spaced c cs later blank joined span found text word parts closed ih =>
    obtain ⟨l, last, closes⟩ := ih
    exact ⟨l, List.mem_getLast?_append_of_mem_getLast? last, closes⟩

lemma scan_last (some_ : Text.lines source.toList ≠ []) :
    ∃ l ∈ (scan source).getLast?, l.isLast = true := by
  rw [scan]
  split
  case h_1 none => exact absurd none some_
  case h_2 line later _ => exact scanLine_last 1 0 true true (Text.trim line) later

end Lexeme

namespace Reading

/-- What is read to the end of a line ends with its token. -/
lemma lexemes_last {load : String → Read Unit}
    (last : l ∈ ls.getLast?) (closes : l.isLast = true)
    (run : lexemes load pending ls r = .ok () r') :
    ∃ place, r'.tokens.back? =
      some { symbol := Table.newline, place, spaced := true, role := .newline } := by
  induction ls generalizing pending r with
  | nil => cases last
  | cons first rest ih =>
    obtain ⟨pending', r1, step, run⟩ := lexemes_cons_ok run
    cases rest with
    | cons second rest => exact ih (by simpa using last) run
    | nil =>
      cases last
      cases run
      cases first with
      | lineEnd place =>
        cases pending with
        | some directive => cases step
        | none =>
          cases step
          exact ⟨place, by simp⟩
      | fault fault place => cases step
      | _ => cases closes

end Reading

/-! ### The end of a stream -/

lemma Reading.Made.ne_endOfInput
    (made : Made known t l token) (unkeyed : ∀ key, t.find? key ≠ some Table.endOfInput)
    (some_ : 0 < known.table.size) : token.symbol ≠ Table.endOfInput := by
  cases made with
  | name named found | literal other found =>
    rintro rfl
    exact unkeyed _ found
  | regex other slash unknown bound key | comment bound key => exact Nat.ne_of_gt some_
  | lineEnd => exact show Table.newline ≠ Table.endOfInput by decide

namespace Vocabulary

variable {v : Vocabulary} {library : Library} {source : String} {ts : List Token}

lemma entries_last (read : (v.tokens library source).1 = .ok ts)
    (some_ : Text.lines source.toList ≠ []) : ∃ place,
    ((v.entries library source).map (·.token)).getLast? =
      some { symbol := Table.newline, place, spaced := true, role := .newline } := by
  have logs := Reading.logged_source library (Reading.depthBound library) source v.opening
  rw [Compile.tokens_run] at read
  split at read
  · cases read
  · rename_i r run
    obtain ⟨l, last, closes⟩ := Lexeme.scan_last some_
    obtain ⟨place, back⟩ := Reading.lexemes_last last closes run
    rw [run] at logs
    have tokens : r.tokens.toList = (v.entries library source).map (·.token) := logs.tokens
    exact ⟨place, by rw [← tokens, Array.getLast?_toList, back]⟩

lemma ne_endOfInput_of_entry (unkeyed : ∀ key, v.table.find? key ≠ some Table.endOfInput)
    (some_ : 0 < v.table.size) (mem : e ∈ v.entries library source) :
    e.token.symbol ≠ Table.endOfInput := by
  have logs := Reading.logged_source library (Reading.depthBound library) source v.opening
  obtain ⟨before, made⟩ := logs.made e mem
  exact made.ne_endOfInput (logs.keeps.unkeyed some_ unkeyed) (Nat.lt_of_lt_of_le some_ before.size)

/-- Whatever was done with a table before, no key leads to the end of input. -/
lemma unkeyed_after (registry : Registry) (files : SourceFiles) (steps : List Step)
    (key : String) : (after { registry, files } steps).table.find? key ≠ some Table.endOfInput := by
  have all : ∀ e ∈ Table.initial.index, e.2 ≠ Table.endOfInput := by decide +kernel
  refine (retains_after _ steps).unkeyed (Nat.lt_trans (by decide) Table.initial_good.size)
    (fun key found => ?_) key
  exact all _ (Table.mem_of_find found) rfl

end Vocabulary

/-! ### From a text to its stream -/

/-- Every text is scanned to an end in moves that stay in its lines, and each move
comes to a later line or further in its line. Where it can be read, whatever the table
held before, its tokens end with the end of a line and three end tokens. -/
theorem lexing_stays_in_the_text (source : String) :
    (∀ line later, Text.lines source.toList = line :: later →
      let start : Scanner := { number := 1, line := Text.trim line, later }
      start.Runs (Lexeme.scan source) ∧
      ∀ s, Relation.ReflTransGen (fun s next => ∃ found, s.move = some (.go found next)) start s →
        s.move ≠ none ∧ ∀ found next, s.move = some (.go found next) → s.Advances next) ∧
    (∀ v library, (Vocabulary.tokens v library source).1 ≠ .error .exhausted) ∧
    ∀ registry files steps library ts,
      ((Vocabulary.after { registry, files } steps).tokens library source).1 = .ok ts →
      ∃ body line, ts = body ++ List.replicate 3 (Token.endOfInput line) ∧
        (∀ t ∈ body, t.symbol ≠ Table.endOfInput) ∧
        (Text.lines source.toList ≠ [] → ∃ place, body.getLast? =
          some { symbol := Table.newline, place, spaced := true, role := .newline }) := by
  refine ⟨fun line later lines => ?_, fun v library => v.tokens_ne_exhausted library source,
    fun registry files steps library ts read => ?_⟩
  · have runs := Scanner.runs_scanLine 1 0 true true (Text.trim line) later [] rfl
    have scanned : Lexeme.scan source = Lexeme.scanLine 1 0 true true (Text.trim line) later := by
      rw [Lexeme.scan, lines]
    rw [scanned]
    exact ⟨runs, fun s reached => ⟨runs.move_ne_none reached, fun _ _ => Scanner.advances_of_move⟩⟩
  · have retains := Vocabulary.retains_after { registry, files } steps
    have some_ : 0 < (Vocabulary.after { registry, files } steps).table.size :=
      Nat.lt_of_lt_of_le (show 0 < Table.initial.size by decide) retains.size
    obtain ⟨line, same⟩ := (Vocabulary.tokens_entries _ library source).2.2 ts read
    refine ⟨_, line, same, fun t mem => ?_, Vocabulary.entries_last read⟩
    obtain ⟨e, from_, rfl⟩ := List.mem_map.mp mem
    exact Vocabulary.ne_endOfInput_of_entry
      (Vocabulary.unkeyed_after registry files steps) some_ from_

end AwkToPython
