import AwkToPython.Proofs.CommandLine.Canonical
import Mathlib.Data.List.Basic

/-!
# The first operand

The first argument that is no option gives the program, unless the options before it
have named one. Which of them do is asked of the words alone, so a library whose path
spells an option counts as a program too.
-/
namespace AwkToPython.CommandLine

open List ValueOption

variable {argument : String} {rest : List String}

/-- Whether an option with its value is taken for a program. -/
def IsNaming (pair : String × String) : Prop :=
  pair.1 = "-e" ∨ pair.1 = "-f" ∨ pair.1 = "-i" ∧ (pair.2 = "-e" ∨ pair.2 = "-f")

namespace Request

/-- Options that have their values, and what they add to the share of the compiler. -/
inductive Options : List String → List (String × String) → Prop where
  | nil : Options [] []
  | debug {args pairs} : Options args pairs → Options ("-d" :: args) pairs
  | attached {argument option value args pairs} :
      ValueOption.find? Setting.options argument = some (option, value) → value ≠ "" →
      Options args pairs → Options (argument :: args) ((option.make value).pairs ++ pairs)
  | apart {argument option value args pairs} :
      ValueOption.find? Setting.options argument = some (option, "") → Options args pairs →
      Options (argument :: value :: args) ((option.make value).pairs ++ pairs)

variable {r r' : Request} {args : List String}

lemma hasProgram_iff (r : Request) : r.hasProgram = true ↔ ∃ pair ∈ r.pairs, IsNaming pair := by
  have naming (source : Source) : IsNaming (Contribution.sourcePair source) ↔
      ∃ argument ∈ Contribution.ofSource source, argument = "-e" ∨ argument = "-f" := by
    cases source <;> simp [IsNaming, Contribution.sourcePair, Contribution.ofSource]
  simp only [hasProgram, sourceArguments, any_eq_true, mem_flatMap, pairs, mem_map,
    Bool.or_eq_true, decide_eq_true_eq]
  grind

/-- The arguments that are asked for before the options with values. -/
def fixedWords : List String := ["--help", "-h", "--version", "--", "-Wr", "-d"]

lemma sort_option (found : find? Setting.options argument = some (option, value)) (r : Request)
    (rest : List String) :
    sort r none (argument :: rest) =
      if value = "" then sort r (some option) rest
      else (do sort (← r.apply (option.make value)) none rest) := by
  have none : ∀ word ∈ fixedWords, find? Setting.options word = none := by decide
  have other : argument ∉ fixedWords := by
    intro mem
    rw [none argument mem] at found
    cases found
  simp only [fixedWords, mem_cons, not_mem_nil, or_false, not_or] at other
  simp [sort, other, found]

/-- An argument without a dash begins with the word of no option. -/
lemma find?_eq_none (operand : isUnknownOption argument = false) :
    ValueOption.find? Setting.options argument = none := by
  have words : ∀ word ∈ Setting.options.map (·.word), ∃ letter, word.toList = ['-', letter] := by
    simp [Setting.options, Contribution.options, ValueOption.map]
  rw [ValueOption.find?, findSome?_eq_none_iff]
  intro option mem
  obtain ⟨letter, word⟩ := words option.word (mem_map_of_mem mem)
  rw [Text.after?, word, Option.map_map, Option.map_eq_none_iff]
  cases front : ['-', letter].isPrefixOf? argument.toList with
  | none => rfl
  | some rest =>
    have whole : argument.toList = '-' :: letter :: rest :=
      (isPrefixOf?_eq_some_iff_append_eq.mp front).symm
    have longer : argument ≠ "-" := by
      rintro rfl
      cases whole
    simp [isUnknownOption, Text.startsWith, whole, longer] at operand

lemma sort_operand (operand : isUnknownOption argument = false)
    (r : Request) (rest : List String) :
    sort r none (argument :: rest) = .ok (r.operand argument rest) := by
  have unknown : ∀ word ∈ fixedWords, isUnknownOption word = true := by decide
  have other : argument ∉ fixedWords := by
    intro mem
    rw [unknown argument mem] at operand
    cases operand
  simp only [fixedWords, mem_cons, not_mem_nil, or_false, not_or] at other
  simp [sort, other, find?_eq_none operand, operand]

lemma sort_options {front : List String} {pairs : List (String × String)}
    (h : Options front pairs) (run : sort r none (front ++ rest) = .ok r') :
    ∃ r1, r1.pairs = r.pairs ++ pairs ∧ sort r1 none rest = .ok r' := by
  induction h generalizing r with
  | nil => exact ⟨r, (append_nil _).symm, run⟩
  | debug _ ih => exact ih (r := { r with debug := true }) run
  | attached found value _ ih =>
    rw [cons_append, sort_option found, if_neg value] at run
    obtain ⟨r1, step, run⟩ := bind_apply run
    obtain ⟨r2, behind, run⟩ := ih run
    exact ⟨r2, by rw [behind, (apply_ok step).2.1, append_assoc], run⟩
  | apart found _ ih =>
    rw [cons_append, sort_option found, if_pos rfl] at run
    obtain ⟨r1, step, run⟩ := bind_apply run
    obtain ⟨r2, behind, run⟩ := ih run
    exact ⟨r2, by rw [behind, (apply_ok step).2.1, append_assoc], run⟩

/-- A command line that runs has a pair that is taken for a program. The first operand
goes to the generated program if such a pair stands before it, and else is the program. -/
theorem first_operand_follows_named_program (h : ofArguments args = .ok r) (mode : r.mode = .run) :
    r.sourceArguments = r.pairs.flatMap (fun pair => [pair.1, pair.2]) ∧
    (∃ pair ∈ r.pairs, IsNaming pair) ∧
    ∀ front pairs operand rest, args = front ++ operand :: rest → Options front pairs →
      isUnknownOption operand = false →
      (∃ pair ∈ pairs, IsNaming pair) ∧ r.pairs = pairs ∧ r.arguments = operand :: rest ∨
      (¬ ∃ pair ∈ pairs, IsNaming pair) ∧ r.pairs = pairs ++ [("-e", operand)] ∧
        r.arguments = rest := by
  obtain ⟨run, given⟩ := ofArguments_eq_ok h
  refine ⟨sourceArguments_eq r, (hasProgram_iff r).mp (by simpa [mode] using given), ?_⟩
  rintro front pairs argument rest rfl options operand
  obtain ⟨r1, same, run⟩ := sort_options options run
  rw [sort_operand operand] at run
  cases run
  have same : r1.pairs = pairs := same
  subst same
  rw [← hasProgram_iff, Request.operand]
  split
  case isTrue program => exact .inl ⟨program, rfl, rfl⟩
  case isFalse program => exact .inr ⟨program, map_append .., rfl⟩

/-- A library whose path spells an option is no program but counts as one: the program
that follows it is handed on as an argument, and none is left to run. -/
theorem library_counts_as_program : ∃ r, ofArguments ["-i", "-e", "x"] = .ok r ∧ r.mode = .run ∧
    r.pairs = [("-i", "-e")] ∧ r.arguments = ["x"] ∧
    ¬ ∃ pair ∈ r.pairs, pair.1 = "-e" ∨ pair.1 = "-f" := by
  refine ⟨{ sources := [.included "-e"], arguments := ["x"] }, rfl, rfl, rfl, rfl, ?_⟩
  simp [pairs, Contribution.sourcePair]

/-- A program behind a library, and an argument behind a program. -/
theorem first_operand_follows_named_program_library :
    ∃ r, ofArguments ["-i", "a", "x", "y"] = .ok r ∧ r.arguments = ["y"] := by
  have h : ofArguments ["-i", "a", "x", "y"] =
    .ok { sources := [.included "a", .program "x"], arguments := ["y"] } := rfl
  have found : find? Setting.options "-i" =
    some (⟨"-i", fun path => .contribution (.source (.included path))⟩, "") := rfl
  have options : Options ["-i", "a"] [("-i", "a")] := Options.apart found .nil
  obtain ⟨-, -, split⟩ := first_operand_follows_named_program h rfl
  rcases split _ _ "x" ["y"] rfl options (by decide) with ⟨naming, -⟩ | ⟨-, -, rest⟩
  · simp [IsNaming] at naming
  · exact ⟨_, h, rest⟩

end Request

end AwkToPython.CommandLine
