import AwkToPython.Proofs.Listing

/-!
# Blocks of Python statements and their lines

A block is the abstract form of lines at one level of indentation, with the
deeper blocks under them. `Written` says which lines spell a block: comments may
stand on lines of their own and behind a statement, and mean nothing. How an
expression is read from its text is left open: `reads` is a parameter.
-/
namespace AwkToPython.Python

open Listing

variable {text : String} {depth : Nat} {ls : List String}

/-- Statements on one line. -/
inductive Simple (ε : Type) where
  /-- Any statement, of which only the text is known. -/
  | plain (text : String)
  | store (name : String) (value : ε)
  /-- Two values are taken from one call. -/
  | unpack (first second call : String)
  | setFlag (name : String) (value : Bool)
  | pass
  | breakLoop
  | continueLoop
  | yieldTrue

/-- Tests of branches and loops. -/
inductive Test (ε : Type) where
  | always
  | holds (value : ε)
  | fails (value : ε)
  | isSet (name : String)
  | isUnset (name : String)
  | isSetOr (name : String) (value : ε)

/-- A statement is followed by the rest of its block. -/
inductive Block (ε : Type) where
  | done
  | line (statement : Simple ε) (rest : Block ε)
  | when (test : Test ε) (yes rest : Block ε)
  | choose (test : Test ε) (yes no rest : Block ε)
  | loop (test : Test ε) (body rest : Block ε)
  /-- A loop over something that is evaluated once. -/
  | each (head : String) (body rest : Block ε)
  /-- A generator and, right after it, the loop over it. -/
  | drive (number : Nat) (generator body rest : Block ε)

namespace Block

variable {ε : Type}

def append : Block ε → Block ε → Block ε
  | done, b => b
  | line s rest, b => line s (rest.append b)
  | .when t yes rest, b => .when t yes (rest.append b)
  | choose t yes no rest, b => choose t yes no (rest.append b)
  | loop t body rest, b => loop t body (rest.append b)
  | each h body rest, b => each h body (rest.append b)
  | drive n g body rest, b => drive n g body (rest.append b)

instance : Append (Block ε) := ⟨append⟩

def isDone : Block ε → Bool
  | done => true
  | _ => false

@[simp] lemma done_append (b : Block ε) : done ++ b = b := rfl

@[simp] lemma line_append (s : Simple ε) (rest b : Block ε) :
    line s rest ++ b = line s (rest ++ b) := rfl

@[simp] lemma when_append (t : Test ε) (yes rest b : Block ε) :
    Block.when t yes rest ++ b = .when t yes (rest ++ b) := rfl

@[simp] lemma choose_append (t : Test ε) (yes no rest b : Block ε) :
    choose t yes no rest ++ b = choose t yes no (rest ++ b) := rfl

@[simp] lemma loop_append (t : Test ε) (body rest b : Block ε) :
    loop t body rest ++ b = loop t body (rest ++ b) := rfl

@[simp] lemma each_append (h : String) (body rest b : Block ε) :
    each h body rest ++ b = each h body (rest ++ b) := rfl

@[simp] lemma drive_append (n : Nat) (g body rest b : Block ε) :
    drive n g body rest ++ b = drive n g body (rest ++ b) := rfl

@[simp] lemma append_done (b : Block ε) : b ++ done = b := by
  induction b with
  | done => rfl
  | line s rest ih => rw [line_append, ih]
  | when t yes rest _ ih => rw [when_append, ih]
  | choose t yes no rest _ _ ih => rw [choose_append, ih]
  | loop t body rest _ ih => rw [loop_append, ih]
  | each h body rest _ ih => rw [each_append, ih]
  | drive n g body rest _ _ ih => rw [drive_append, ih]

lemma append_assoc (a b c : Block ε) : a ++ b ++ c = a ++ (b ++ c) := by
  induction a with
  | done => rfl
  | line s rest ih | when t yes rest _ ih | choose t yes no rest _ _ ih | loop t body rest _ ih
  | each h body rest _ ih | drive n g body rest _ _ ih => simp [ih]

@[simp] lemma isDone_append (a b : Block ε) : (a ++ b).isDone = (a.isDone && b.isDone) := by
  cases a <;> rfl

lemma isDone_append_line (a : Block ε) (s : Simple ε) (rest : Block ε) :
    (a ++ line s rest).isDone = false := by
  rw [isDone_append]
  exact Bool.and_false _

end Block

/-- The text of a comment. -/
def IsComment (text : String) : Prop := text.toList.head? = some '#'

/-- The lines of one statement: comments before it, then its own line, with
comments behind it. -/
def Shows (depth : Nat) (text : String) (ls : List String) : Prop :=
  ∃ own behind : List String, (∀ c ∈ own, IsComment c) ∧ (∀ c ∈ behind, IsComment c) ∧
    ls = own.map (indentation depth ++ ·) ++
      [indentation depth ++ text ++ String.join (behind.map ("  " ++ ·))]

lemma Shows.ne_nil (h : Shows depth text ls) : ls ≠ [] := by
  obtain ⟨own, behind, _, _, rfl⟩ := h
  simp

lemma Shows.deeper (h : Shows depth text ls)
    (levels : Nat) : Shows (levels + depth) text (Listing.deeper levels ls) := by
  obtain ⟨own, behind, hown, hbehind, rfl⟩ := h
  refine ⟨own, behind, hown, hbehind, ?_⟩
  simp [Listing.deeper, Listing.indentation_add, String.append_assoc]

/-- A line without comments, some levels deeper than where it is put. -/
lemma Shows.bare (depth levels : Nat) (h : spelled = indentation levels ++ text) :
    Shows (depth + levels) text [indentation depth ++ spelled] :=
  ⟨[], [], by simp, by simp, by simp [h, indentation_add, String.append_assoc]⟩

section Written

variable {ε : Type} (reads : ε → String → Prop)

/-- The texts of a statement on one line. -/
inductive Simple.Spelled : Simple ε → String → Prop where
  | plain (text : String) : Spelled (.plain text) text
  | store (name : String) {value : ε} {text : String} (h : reads value text) :
      Spelled (.store name value) (name ++ "=" ++ text)
  | unpack (first second call : String) :
      Spelled (.unpack first second call) (first ++ ", " ++ second ++ " = " ++ call)
  | setFlag (name : String) (value : Bool) :
      Spelled (.setFlag name value) (name ++ (if value then "=True" else "=False"))
  | pass : Spelled .pass "pass"
  | breakLoop : Spelled .breakLoop "break"
  | continueLoop : Spelled .continueLoop "continue"
  | yieldTrue : Spelled .yieldTrue "yield True"

/-- The texts of a test. -/
inductive Test.Spelled : Test ε → String → Prop where
  | always : Spelled .always "True"
  | holds {value : ε} {text : String} (h : reads value text) : Spelled (.holds value) text
  | fails {value : ε} {text : String} (h : reads value text) :
      Spelled (.fails value) ("not (" ++ text ++ ")")
  | isSet (name : String) : Spelled (.isSet name) name
  | isUnset (name : String) : Spelled (.isUnset name) ("not " ++ name)
  | isSetOr (name : String) {value : ε} {text : String} (h : reads value text) :
      Spelled (.isSetOr name value) (name ++ " or (" ++ text ++ ")")

/-- The lines of a block at a depth. -/
inductive Written : Nat → Block ε → List String → Prop where
  | done : Written d .done []
  | line {s : Simple ε} {text : String} {ls ls' : List String} (spelled : s.Spelled reads text)
      (shows : Shows d text ls) (tail : Written d rest ls') : Written d (.line s rest) (ls ++ ls')
  | when {t : Test ε} {text : String} {ls ys ls' : List String} (spelled : t.Spelled reads text)
      (shows : Shows d ("if " ++ text ++ ":") ls) (inner : Written (d + 1) yes ys)
      (tail : Written d rest ls') : Written d (.when t yes rest) (ls ++ ys ++ ls')
  | choose {t : Test ε} {text : String} {ls ys es ns ls' : List String}
      (spelled : t.Spelled reads text) (shows : Shows d ("if " ++ text ++ ":") ls)
      (inner : Written (d + 1) yes ys) (other : Shows d "else:" es)
      (innerNo : Written (d + 1) no ns) (tail : Written d rest ls') :
      Written d (.choose t yes no rest) (ls ++ ys ++ es ++ ns ++ ls')
  | loop {t : Test ε} {text : String} {ls bs ls' : List String} (spelled : t.Spelled reads text)
      (shows : Shows d ("while " ++ text ++ ":") ls) (inner : Written (d + 1) body bs)
      (tail : Written d rest ls') : Written d (.loop t body rest) (ls ++ bs ++ ls')
  | each {head : String} {ls bs ls' : List String} (shows : Shows d ("for " ++ head ++ ":") ls)
      (inner : Written (d + 1) body bs) (tail : Written d rest ls') :
      Written d (.each head body rest) (ls ++ bs ++ ls')
  | drive {n : Nat} {ls gs fs bs ls' : List String}
      (shows : Shows d s!"def _generator__{n}():" ls) (first : Written (d + 1) generator gs)
      (head : Shows d s!"for _dummy__{n} in _generator__{n}():" fs)
      (inner : Written (d + 1) body bs) (tail : Written d rest ls') :
      Written d (.drive n generator body rest) (ls ++ gs ++ fs ++ bs ++ ls')

variable {reads}

namespace Written

variable {d : Nat} {b : Block ε} {ls : List String}

lemma append (h : Written reads d b ls)
    (h' : Written reads d b' ls') : Written reads d (b ++ b') (ls ++ ls') := by
  induction h with
  | done => exact h'
  | line spelled shows _ ih =>
    rw [List.append_assoc]
    exact .line spelled shows (ih h')
  | «when» spelled shows inner _ _ ih =>
    rw [List.append_assoc]
    exact .when spelled shows inner (ih h')
  | choose spelled shows inner other innerNo _ _ _ ih =>
    rw [List.append_assoc]
    exact .choose spelled shows inner other innerNo (ih h')
  | loop spelled shows inner _ _ ih =>
    rw [List.append_assoc]
    exact .loop spelled shows inner (ih h')
  | each shows inner _ _ ih =>
    rw [List.append_assoc]
    exact .each shows inner (ih h')
  | drive shows first head inner _ _ _ ih =>
    rw [List.append_assoc]
    exact .drive shows first head inner (ih h')

lemma deeper (h : Written reads d b ls)
    (levels : Nat) : Written reads (levels + d) b (Listing.deeper levels ls) := by
  have split : ∀ a b : List String,
      Listing.deeper levels (a ++ b) = Listing.deeper levels a ++ Listing.deeper levels b := by
    simp [Listing.deeper]
  induction h with
  | done => exact .done
  | line spelled shows _ ih =>
    rw [split]
    exact .line spelled (shows.deeper levels) ih
  | «when» spelled shows _ _ inner ih =>
    rw [split, split]
    exact .when spelled (shows.deeper levels) inner ih
  | choose spelled shows _ other _ _ inner innerNo ih =>
    rw [split, split, split, split]
    exact .choose spelled (shows.deeper levels) inner (other.deeper levels) innerNo ih
  | loop spelled shows _ _ inner ih =>
    rw [split, split]
    exact .loop spelled (shows.deeper levels) inner ih
  | each shows _ _ inner ih =>
    rw [split, split]
    exact .each (shows.deeper levels) inner ih
  | drive shows _ head _ _ first inner ih =>
    rw [split, split, split, split]
    exact .drive (shows.deeper levels) first (head.deeper levels) inner ih

lemma single (spelled : s.Spelled reads text) (shows : Shows d text ls) :
    Written reads d (.line s .done) ls := by
  have h : Written reads d (.line s .done) (ls ++ []) := .line spelled shows .done
  rwa [List.append_nil] at h

/-- The body of a branch: lines that were written outside of it, and one more. -/
lemma under {last : List String}
    (h : Written reads d b ls) (spelled : s.Spelled reads text) (shows : Shows (d + 1) text last) :
    Written reads (d + 1) (b ++ .line s .done) (Listing.deeper 1 ls ++ last) :=
  (Nat.add_comm 1 d ▸ h.deeper 1).append (single spelled shows)

lemma isEmpty_eq (h : Written reads d b ls) : ls.isEmpty = b.isDone := by
  cases h with
  | done => rfl
  | line _ shows _ | «when» _ shows _ _ | choose _ shows _ _ _ _ | loop _ shows _ _
  | each shows _ _ | drive shows _ _ _ _ => simp [shows.ne_nil, Block.isDone]

end Written

end Written

end AwkToPython.Python
