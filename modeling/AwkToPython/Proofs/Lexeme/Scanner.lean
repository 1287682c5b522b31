import AwkToPython.Proofs.Lexeme.Solid
import Mathlib.Logic.Relation

/-!
# Scanning by positions

Columns count bytes, so a line is scanned by a position in bytes at which it is cut.
A cut inside a character or behind the end of the line fails. A scanner makes all
its cuts openly; it finds the lexemes that scanning finds, and no cut fails. Each
move brings it to a later line or further on in its line.
-/
namespace AwkToPython

variable {c : Char} {cs : List Char} {span : Span} {found more : List Lexeme}

open List Text AwkToPython.Span

namespace Text

/-- Cut a text after a number of bytes. There is no cut inside a character or
behind the end. -/
def cutBytes : Nat → List Char → Option (List Char × List Char)
  | 0, cs => some ([], cs)
  | _ + 1, [] => none
  | n + 1, c :: cs =>
    if c.utf8Size ≤ n + 1 then
      (cutBytes (n + 1 - c.utf8Size) cs).map fun parts => (c :: parts.1, parts.2)
    else none

lemma cutBytes_append (before behind : List Char) :
    cutBytes (byteLength before) (before ++ behind) = some (before, behind) := by
  induction before with
  | nil => rw [byteLength, nil_append, cutBytes]
  | cons c cs ih =>
    have size := c.utf8Size_pos
    obtain ⟨n, same⟩ : ∃ n, byteLength (c :: cs) = n + 1 := by
      rw [byteLength]
      exact ⟨c.utf8Size + byteLength cs - 1, by omega⟩
    have whole : c.utf8Size + byteLength cs = n + 1 := same
    have left : n + 1 - c.utf8Size = byteLength cs := by omega
    rw [same, cons_append, cutBytes, if_pos (by omega), left, ih]
    rfl

lemma of_cutBytes (cut : cutBytes n cs = some (before, behind)) :
    cs = before ++ behind ∧ byteLength before = n := by
  induction cs generalizing n before with
  | nil =>
    cases n with
    | zero =>
      cases cut
      exact ⟨rfl, rfl⟩
    | succ n => cases cut
  | cons c cs ih =>
    cases n with
    | zero =>
      cases cut
      exact ⟨rfl, rfl⟩
    | succ n =>
      rw [cutBytes] at cut
      split at cut
      case isTrue fits =>
        obtain ⟨⟨first, second⟩, inner, same⟩ := Option.map_eq_some_iff.mp cut
        cases same
        obtain ⟨rfl, length⟩ := ih inner
        refine ⟨rfl, ?_⟩
        rw [byteLength, length]
        omega
      case isFalse => cases cut

end Text

/-- The number of bytes that a span takes of a text, if it lies in the text. -/
def Span.bytes? (span : Span) (cs : List Char) : Option Nat :=
  if span.more < cs.length then some (byteLength (cs.take (span.more + 1))) else none

lemma Span.bytes?_eq (inside : span.more ≤ cs.length) :
    span.bytes? (c :: cs) = some (byteLength (c :: cs.take span.more)) := by
  rw [bytes?, if_pos (by rw [length_cons]; omega), take_succ_cons]

/-- Where scanning is: the number of a line, the line, the bytes of it that are
done, and the lines after it. -/
structure Scanner where
  number : Nat
  line : List Char
  pos : Nat := 0
  first : Bool := true
  spaced : Bool := true
  later : List (List Char)

namespace Scanner

/-- A scanner stops or goes on; either way with the lexemes it found. -/
inductive Move where
  | stop (found : List Lexeme)
  | go (found : List Lexeme) (next : Scanner)

open Lexeme

/-- The move of a scanner whose line is cut where it is. -/
def moveAt (s : Scanner) (before rest : List Char) : Option Move :=
  let place : Place := ⟨s.number, s.pos + 1⟩
  match rest, s.later with
  | [], [] => some (.stop [.lineEnd place])
  | [], line :: later =>
    some (.go [.lineEnd place] { number := s.number + 1, line := trim line, later })
  | c :: cs, later =>
    if isBlank c then some (.go [] { s with pos := s.pos + c.utf8Size, spaced := true })
    else if c = '\\' && cs.isEmpty then
      match later with
      | [] => some (.go [] { s with number := s.number + 1, line := [], pos := 0, spaced := true })
      | line :: later =>
        some (.go []
          { s with number := s.number + 1, line := trim line, pos := 0, spaced := true, later })
    else
      match Span.front? s.first c cs with
      | none => do
        let text ← match Span.skipped? (c :: cs) with
          | some skipped => do
            let (skipped, _) ← cutBytes (byteLength skipped) (c :: cs)
            some (trimEnd skipped)
          | none => some (c :: cs)
        some (.stop [.fault (.unrecognised (String.ofList text)) place])
      | some span => do
        let length ← span.bytes? (c :: cs)
        let (text, _) ← cutBytes length (c :: cs)
        if span.shape = .comment then
          some (.go [.comment (String.ofList text) place s.spaced s.first]
            { s with pos := byteLength s.line })
        else
          let parts := splitLead span.shape text
          if span.shape ≠ .plain && isOpen parts.2 then
            match later with
            | [] => some (.stop [.fault (openFault parts.2) place])
            | line :: later =>
              some (.go [] { s with
                number := s.number + 1, line := before ++ continued text ++ line, later })
          else
            some (.go (words s.number s.pos s.spaced parts.1 parts.2)
              { s with pos := s.pos + length, first := false, spaced := false })

/-- The next move, unless a cut fails. -/
def move (s : Scanner) : Option Move := do
  let (before, rest) ← cutBytes s.pos s.line
  s.moveAt before rest

/-- A later line, or further on in the same line. -/
def Advances (s s' : Scanner) : Prop :=
  s.number < s'.number ∨
    s'.number = s.number ∧ s'.line = s.line ∧ s.pos < s'.pos ∧ s'.pos ≤ byteLength s'.line

/-- A run that stops, with all lexemes it found. -/
inductive Runs : Scanner → List Lexeme → Prop
  | stop {s found} (move : s.move = some (.stop found)) : Runs s found
  | go {s found next more} (move : s.move = some (.go found next)) (rest : Runs next more) :
    Runs s (found ++ more)

variable {s next : Scanner} {before rest : List Char}

lemma move_eq (line : s.line = before ++ rest) (pos : s.pos = byteLength before) :
    s.move = s.moveAt before rest := by
  rw [move, line, pos, cutBytes_append]
  rfl

lemma moveAt_unknown (blank : isBlank c = false)
    (joined : (c = '\\' && cs.isEmpty) = false) (unknown : front? s.first c cs = none) :
    s.moveAt before (c :: cs) = some (.stop [.fault (.unrecognised (String.ofList
      (match skipped? (c :: cs) with
        | some skipped => trimEnd skipped
        | none => c :: cs))) ⟨s.number, s.pos + 1⟩]) := by
  rw [moveAt]
  simp only [blank, joined, unknown, Bool.false_eq_true, if_false]
  cases found : skipped? (c :: cs) with
  | none => rfl
  | some skipped =>
    obtain ⟨behind, same⟩ := skipped?_prefix found
    have cut := cutBytes_append skipped behind
    rw [same] at cut
    simp only [cut, Option.bind_eq_bind, Option.bind_some]

lemma moveAt_span (blank : isBlank c = false)
    (joined : (c = '\\' && cs.isEmpty) = false) (found : front? s.first c cs = some span) :
    s.moveAt before (c :: cs) =
      if span.shape = .comment then
        some (.go [.comment (String.ofList (c :: cs.take span.more)) ⟨s.number, s.pos + 1⟩ s.spaced
          s.first] { s with pos := byteLength s.line })
      else
        let text := c :: cs.take span.more
        let parts := splitLead span.shape text
        if span.shape ≠ .plain && isOpen parts.2 then
          match s.later with
          | [] => some (.stop [.fault (openFault parts.2) ⟨s.number, s.pos + 1⟩])
          | line :: later =>
            some (.go [] { s with
              number := s.number + 1, line := before ++ continued text ++ line, later })
        else
          some (.go (words s.number s.pos s.spaced parts.1 parts.2)
            { s with pos := s.pos + byteLength text, first := false, spaced := false }) := by
  have cut := cutBytes_append (c :: cs.take span.more) (cs.drop span.more)
  rw [cons_append, take_append_drop] at cut
  rw [moveAt]
  simp only [blank, joined, found, bytes?_eq (more_le found), cut, Bool.false_eq_true,
    if_false, Option.bind_eq_bind, Option.bind_some]

lemma advances_of_move (go : s.move = some (.go found next)) : s.Advances next := by
  obtain ⟨⟨before, rest⟩, cut, go⟩ := Option.bind_eq_some_iff.mp go
  obtain ⟨line, pos⟩ := of_cutBytes cut
  change s.moveAt before rest = some (.go found next) at go
  cases rest with
  | nil =>
    rw [moveAt.eq_def] at go
    cases later : s.later with
    | nil => simp [later] at go
    | cons line later' =>
      simp only [later, Option.some.injEq, Move.go.injEq] at go
      obtain ⟨-, rfl⟩ := go
      exact .inl (Nat.lt_succ_self _)
  | cons c cs =>
    have size := c.utf8Size_pos
    have whole : byteLength s.line = s.pos + (c.utf8Size + byteLength cs) := by
      rw [line, byteLength_append, pos, byteLength]
    cases blank : isBlank c with
    | true =>
      simp only [moveAt, blank, if_true, Option.some.injEq, Move.go.injEq] at go
      obtain ⟨-, rfl⟩ := go
      exact .inr ⟨rfl, rfl, by simp only; omega, by simp only; omega⟩
    | false =>
      cases joined : (c = '\\' && cs.isEmpty) with
      | true =>
        cases later : s.later <;>
        · simp only [moveAt, blank, joined, later, Bool.false_eq_true, if_false, if_true,
            Option.some.injEq, Move.go.injEq] at go
          obtain ⟨-, rfl⟩ := go
          exact .inl (Nat.lt_succ_self _)
      | false =>
        cases front : front? s.first c cs with
        | none =>
          rw [moveAt_unknown blank joined front] at go
          cases go
        | some span =>
          rw [moveAt_span blank joined front] at go
          have taken : byteLength (c :: cs.take span.more) ≤ c.utf8Size + byteLength cs := by
            have parts := byteLength_append (cs.take span.more) (cs.drop span.more)
            rw [take_append_drop] at parts
            rw [byteLength]
            omega
          have some_ : 0 < byteLength (c :: cs.take span.more) := by
            rw [byteLength]
            omega
          split at go
          · cases go
            exact .inr ⟨rfl, rfl, by simp only; omega, Nat.le_refl _⟩
          · dsimp only at go
            split at go
            · split at go <;> cases go
              exact .inl (Nat.lt_succ_self _)
            · cases go
              exact .inr ⟨rfl, rfl, by simp only; omega, by simp only; omega⟩

lemma Runs.skip (move : s.move = some (.go [] next))
    (rest : Runs next more) : Runs s more := .go move rest

lemma Runs.cons (move : s.move = some (.go [l] next))
    (rest : Runs next more) : Runs s (l :: more) := .go move rest

lemma runs_scanLine (number pos : Nat) (first spaced : Bool) (rest : List Char)
    (later : List (List Char)) (before : List Char) (at_ : pos = byteLength before) :
    Runs ⟨number, before ++ rest, pos, first, spaced, later⟩
      (scanLine number pos first spaced rest later) := by
  fun_induction scanLine number pos first spaced rest later generalizing before with
  | case1 number pos first spaced =>
    refine .stop ?_
    rw [move_eq rfl at_]
    rfl
  | case2 number pos first spaced line later ih =>
    refine .cons ?_ (ih [] rfl)
    rw [move_eq rfl at_]
    rfl
  | case3 number pos first spaced c cs later blank ih =>
    refine .skip ?_ (ih (before ++ [c]) (by simp [at_, byteLength]))
    rw [move_eq rfl at_, moveAt, if_pos blank, append_assoc]
    rfl
  | case4 number pos first spaced c cs blank joined ih
  | case5 number pos first spaced c cs blank joined line later ih =>
    refine .skip ?_ (ih [] rfl)
    rw [move_eq rfl at_, moveAt, if_neg blank, if_pos joined]
    rfl
  | case6 number pos first spaced c cs later place blank joined unknown text =>
    exact .stop ((move_eq rfl at_).trans
      (moveAt_unknown (by simpa using blank) (by simpa using joined) unknown))
  | case7 number pos first spaced c cs later place blank joined span found text comment ih =>
    refine .cons ?_ (ih (before ++ c :: cs) (by rw [byteLength_append, at_]))
    rw [move_eq rfl at_, moveAt_span (by simpa using blank) (by simpa using joined) found,
      if_pos comment, append_nil, byteLength_append, ← at_]
  | case8 number pos first spaced c cs place blank joined span found text word parts isOpen =>
    refine .stop ?_
    rw [move_eq rfl at_, moveAt_span (by simpa using blank) (by simpa using joined) found,
      if_neg word, if_pos isOpen]
  | case9 number pos first spaced c cs blank joined span found text word parts isOpen line
      later ih =>
    refine .skip ?_ (ih before at_)
    rw [move_eq rfl at_, moveAt_span (by simpa using blank) (by simpa using joined) found,
      if_neg word, if_pos isOpen]
    dsimp only
    rw [append_assoc]
  | case10 number pos first spaced c cs later blank joined span found text word parts closed ih =>
    refine .go ?_ (ih (before ++ text) (by rw [byteLength_append, at_]))
    rw [move_eq rfl at_, moveAt_span (by simpa using blank) (by simpa using joined) found,
      if_neg word, if_neg closed, append_assoc]
    simp only [text, cons_append, take_append_drop]
    rfl

/-- In a run that stops, no cut fails. -/
lemma Runs.move_ne_none (runs : Runs s found)
    (reached : Relation.ReflTransGen (fun s next => ∃ ls, s.move = some (.go ls next)) s s') :
    s'.move ≠ none := by
  induction reached using Relation.ReflTransGen.head_induction_on generalizing found with
  | refl => cases runs <;> simp [*]
  | head step _ ih =>
    obtain ⟨ls, go⟩ := step
    cases runs with
    | stop stops => simp [go] at stops
    | go goes rest =>
      rw [goes] at go
      cases go
      exact ih rest

end Scanner

end AwkToPython
