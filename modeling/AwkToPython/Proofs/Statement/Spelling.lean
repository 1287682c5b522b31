import AwkToPython.Proofs.Expression.Effect
import AwkToPython.Statement.Compound
import Mathlib.Data.List.Infix

/-!
# The tokens of a statement

The grammar of statements over the kinds of tokens, and what it says of braces.
Every rule is about a stretch of the compiler's run, from one session to another:
its parts are passed one after the other, and each test, each part of the head of a
loop and each simple statement is compiled from the session that its turn comes at.
An `else` belongs to the last branch that can have it. One rule is not AWK's: a
closing brace right before `else` may be passed by a branch inside the block that
it closes. The grammar counts how often that happens, and the braces of a
statement balance exactly if it never does.
-/
namespace AwkToPython

open Python (Block Written)

/-! ### Statements as trees

The leaves hold what the compiler of expressions gives: a test is a condition in
Python and the lines that do its work before it is looked at. -/

namespace Awk

/-- A condition and the lines that run before it each time. -/
structure Test where
  lines : Block String
  text : String

inductive Code where
  | skip
  /-- Nothing, where Python has to be told so. -/
  | pass
  /-- A statement that holds no other, as the lines written for it. -/
  | simple (lines : Block String)
  | breakLoop
  | continueLoop
  | seq (first second : Code)
  /-- Statements between braces. -/
  | block (code : Code)
  | branch (test : Test) (yes : Code)
  | branchElse (test : Test) (yes no : Code)
  | whileLoop (test : Test) (body : Code)
  | doLoop (number : Nat) (body : Code) (test : Test)
  /-- A loop over the keys of an array. -/
  | forEach (head : String) (body : Code)
  /-- A loop with a start and a step; without a test it never ends by itself. -/
  | forLoop (number : Nat) (start : Block String) (test : Option Test) (step : Block String)
      (body : Code)

namespace Code

/-- The flag that marks the first pass of a loop with its test at the end. -/
def flag (number : Nat) : String := s!"do_first_{number}"

/-- Leave the loop unless the test holds. -/
def exitUnless (test : Test) (rest : Block String) : Block String :=
  test.lines ++ .when (.fails test.text) (.line .breakLoop .done) rest

/-- The loop of a generator: each pass yields and then steps. -/
def steps (test : Option Test) (step : Block String) : Block String :=
  match test with
  | none => .loop .always (.line .yieldTrue step) .done
  | some test =>
    if test.lines.isDone then .loop (.holds test.text) (.line .yieldTrue step) .done
    else .loop .always (exitUnless test (.line .yieldTrue step)) .done

/-- The Python block of a statement. -/
def desugar : Code → Block String
  | skip => .done
  | pass => .line .pass .done
  | simple lines => lines
  | breakLoop => .line .breakLoop .done
  | continueLoop => .line .continueLoop .done
  | seq first second => first.desugar ++ second.desugar
  | block code => code.desugar
  | branch test yes => test.lines ++ .when (.holds test.text) yes.desugar .done
  | branchElse test yes no => test.lines ++ .choose (.holds test.text) yes.desugar no.desugar .done
  | whileLoop test body =>
    if test.lines.isDone then .loop (.holds test.text) body.desugar .done
    else .loop .always (exitUnless test body.desugar) .done
  | doLoop number body test =>
    let pass := .line (.setFlag (flag number) false) body.desugar
    .line (.setFlag (flag number) true)
      (if test.lines.isDone then .loop (.isSetOr (flag number) test.text) pass .done
      else .loop .always (.when (.isUnset (flag number)) (exitUnless test .done) pass) .done)
  | forEach head body => .each head body.desugar .done
  | forLoop number start test step body =>
    start ++ .drive number (steps test step) body.desugar .done

/-- Whether the end of a statement is that of a branch that has no `else`, so that
an `else` after it would belong to that branch. -/
def loose : Code → Bool
  | seq first _ => first.loose
  | branch _ _ => true
  | branchElse _ _ no => no.loose
  | whileLoop _ body => body.loose
  | forEach _ body => body.loose
  | forLoop _ _ _ _ body => body.loose
  | _ => false

/-- The flags lie between two numbers, and those of an inner loop behind that of
the outer one. -/
def Fresh (low high : Nat) : Code → Prop
  | seq first second => first.Fresh low high ∧ second.Fresh low high
  | block code => code.Fresh low high
  | branch _ yes => yes.Fresh low high
  | branchElse _ yes no => yes.Fresh low high ∧ no.Fresh low high
  | whileLoop _ body => body.Fresh low high
  | doLoop number body _ => low < number ∧ number ≤ high ∧ body.Fresh number high
  | forEach _ body => body.Fresh low high
  | forLoop _ _ _ _ body => body.Fresh low high
  | _ => True

lemma Fresh.mono {code : Code} (h : code.Fresh low high)
    (below : low' ≤ low) (above : high ≤ high') : code.Fresh low' high' := by
  induction code generalizing low low' with
  | seq first second ih ih' | branchElse test yes no ih ih' => exact ⟨ih h.1 below, ih' h.2 below⟩
  | block code ih | branch test yes ih | whileLoop test body ih | forEach head body ih
  | forLoop number start test step body ih => exact ih h below
  | doLoop number body test ih =>
    exact ⟨Nat.lt_of_le_of_lt below h.1, Nat.le_trans h.2.1 above, ih h.2.2 (Nat.le_refl _)⟩
  | _ => trivial

/-- Every body has a statement. -/
def Filled : Code → Prop
  | seq first second => first.Filled ∧ second.Filled
  | block code => code.Filled
  | branch _ yes => yes.desugar.isDone = false ∧ yes.Filled
  | branchElse _ yes no =>
    (yes.desugar.isDone = false ∧ yes.Filled) ∧ no.desugar.isDone = false ∧ no.Filled
  | whileLoop _ body => body.desugar.isDone = false ∧ body.Filled
  | doLoop _ body _ => body.Filled
  | forEach _ body => body.desugar.isDone = false ∧ body.Filled
  | forLoop _ _ _ _ body => body.desugar.isDone = false ∧ body.Filled
  | _ => True

end Code

end Awk

/-! ### The grammar -/

variable {test : Test}

variable {a b : List SymbolKind}

open List SymbolKind Compile

variable {ks : List SymbolKind} {n : Nat} {k : SymbolKind}

namespace Session

/-- The kinds of tokens, without what is known of variables. -/
def kinds (s : Session) (ts : List Token) : List SymbolKind :=
  ts.map fun t => (s.table.symbol t.symbol).kind.bare

/-- From one session to the other, tokens of these kinds are passed. -/
structure Passed (s s' : Session) (ks : List SymbolKind) : Prop where
  start : s.Sound
  shown : ∃ ts, s.cursor.shown = ts ++ s'.cursor.shown ∧ s.kinds ts = ks
  table : s.table.Grows s'.table
  temporaries : s.temporaries ≤ s'.temporaries
  sound : s'.Sound

/-- From one session to the other, the lines of a block are written, some levels
deeper than the current one. -/
def Wrote (levels : Nat) (s s' : Session) (b : Block String) : Prop :=
  ∃ ls, s'.listing = s.listing.extend ls ∧ Written Eq (s.listing.depth + levels) b ls

end Session

namespace SymbolKind

def newline : SymbolKind := .terminator true true

def semicolon : SymbolKind := .terminator true false

def isOpenBrace : SymbolKind → Bool
  | .bracket .openBrace => true
  | _ => false

def isCloseBrace : SymbolKind → Bool
  | .terminator consumed _ => !consumed
  | _ => false

lemma bare_eq_keyword {k : SymbolKind} : k.bare = .keyword word ↔ k = .keyword word := by
  cases k <;> simp [bare]

/-- A kind that can stand in a statement that holds no other and stays in its loop. -/
def isFlat : SymbolKind → Bool
  | .bracket .openBrace | .elseWord | .heading _ | .comment _ | .endOfInput => false
  | .keyword word =>
    !(word = .branch || word = .whileLoop || word = .doLoop || word = .forLoop ||
      word = .breakLoop || word = .continueLoop)
  | .terminator consumed _ => consumed
  | _ => true

end SymbolKind

namespace Awk

open SymbolKind (newline semicolon)

/-- An expression compiled from one session to the other: the kinds of the tokens
that are passed, the lines written for it and the fragment it leaves. -/
structure Gives (x : Compile Fragment) (s s' : Session) (ks : List SymbolKind)
    (lines : Block String) (f : Fragment) : Prop where
  run : x s = .ok f s'
  passed : s.Passed s' ks
  wrote : s.Wrote 0 s' lines
  straight : lines.Straight

/-- The test is the condition that is compiled. -/
def Test.From (test : Test) (s s' : Session) (ks : List SymbolKind) : Prop :=
  ∃ f, Gives Compile.condition s s' ks test.lines f ∧ f.text = test.text

/-- The line of a part whose work is not done yet. -/
def ownLine (f : Fragment) : Block String :=
  if f.hoisted then .done else .line (.plain f.text) .done

/-- A part of the head of a loop, which may be left out. -/
inductive PartFrom : Block String → Session → Session → List SymbolKind → Prop where
  | absent : PartFrom .done s s []
  | given {ks : List SymbolKind} (h : Gives (Compile.expression {}) s s' ks lines f) :
      PartFrom (lines ++ ownLine f) s s' ks

inductive TestFrom : Option Test → Session → Session → List SymbolKind → Prop where
  | absent : TestFrom none s s []
  | given {test : Test} {ks : List SymbolKind} (h : test.From s s' ks) :
      TestFrom (some test) s s' ks

def Newlines (ks : List SymbolKind) : Prop := ∀ k ∈ ks, k = newline

def Separators (ks : List SymbolKind) : Prop :=
  ∀ k ∈ ks, ∃ collapsed, k = .terminator true collapsed

/-- A test between parentheses. -/
inductive Head (test : Test) (s s' : Session) : List SymbolKind → Prop where
  | mk {s1 s2 : Session} {before ks behind : List SymbolKind} (first : Newlines before)
      (opening : s.Passed s1 (.bracket .openParen :: before)) (h : test.From s1 s2 ks)
      (last : Newlines behind) (closing : s2.Passed s' (behind ++ [.bracket .closeParen])) :
      Head test s s' (.bracket .openParen :: before ++ ks ++ behind ++ [.bracket .closeParen])

/-- The end of a simple statement, which may take a terminator with it. -/
inductive Ending : List SymbolKind → Prop where
  | none : Ending []
  | taken (collapsed : Bool) : Ending [.terminator true collapsed]

/-- The head of a loop over keys that stands ahead, as Python has it. -/
def keysHead (s : Session) : String :=
  let python := fun n => (s.table.symbol (s.cursor.peek n).symbol).python
  s!"{python 1} in list({python 3})"

/-- Where tokens of statements stand. -/
inductive Shape where
  | statement
  | sequence
  | body

/-- The spellings of a statement that is compiled from one session to another. A
simple statement is one that is compiled alike whatever compiles the statements
inside it. The number counts the closing braces that a branch has taken before its
`else` and that close a block around it. -/
inductive Code.Spelled : Shape → Code → Session → Session → List SymbolKind → Nat → Prop where
  | nil {s : Session} : Spelled .sequence .skip s s [] 0
  | separators {code : Code} {s s1 s' : Session} {seps ks : List SymbolKind} {n : Nat}
      (all : Separators seps) (p : s.Passed s1 seps) (h : Spelled .sequence code s1 s' ks n) :
      Spelled .sequence code s s' (seps ++ ks) n
  | cons {first second : Code} {s s1 s' : Session} {ks ks' : List SymbolKind} {m n : Nat}
      (h : Spelled .statement first s s1 ks m) (h' : Spelled .sequence second s1 s' ks' n) :
      Spelled .sequence (.seq first second) s s' (ks ++ ks') (m + n)
  | pass {shape : Shape} {code : Code} {s s1 s' : Session} {ks : List SymbolKind} {n : Nat}
      (inside : shape ≠ .statement) (h : Spelled shape code s s1 ks n) (p : s1.Passed s' []) :
      Spelled shape (.seq code .pass) s s' ks n
  | lines {code : Code} {s s1 s' : Session} {before ks : List SymbolKind} {n : Nat}
      (all : Newlines before) (p : s.Passed s1 before) (h : Spelled .body code s1 s' ks n) :
      Spelled .body code s s' (before ++ ks) n
  | empty {s s' : Session} (p : s.Passed s' [semicolon]) : Spelled .body .skip s s' [semicolon] 0
  | body {code : Code} {s s1 s' : Session} {ks : List SymbolKind} {n : Nat}
      (h : Spelled .statement code s s1 ks n) (p : s1.Passed s' []) : Spelled .body code s s' ks n
  | simple {lines : Block String} {s s' : Session} {ks : List SymbolKind}
      (run : ∀ inner, Statement.statement inner s = .ok () s') (p : s.Passed s' ks)
      (wrote : s.Wrote 0 s' lines) (flat : ∀ k ∈ ks, k.isFlat = true) (some : ks ≠ [])
      (straight : lines.Straight) : Spelled .statement (.simple lines) s s' ks 0
  | breakLoop {s s' : Session} {tail : List SymbolKind}
      (p : s.Passed s' (.keyword .breakLoop :: tail)) (ending : Ending tail) :
      Spelled .statement .breakLoop s s' (.keyword .breakLoop :: tail) 0
  | continueLoop {s s' : Session} {tail : List SymbolKind}
      (p : s.Passed s' (.keyword .continueLoop :: tail)) (ending : Ending tail) :
      Spelled .statement .continueLoop s s' (.keyword .continueLoop :: tail) 0
  | block {code : Code} {s s1 s2 s' : Session} {ks : List SymbolKind} {n : Nat} (collapsed : Bool)
      (p : s.Passed s1 [.bracket .openBrace]) (h : Spelled .sequence code s1 s2 ks n)
      (p' : s2.Passed s' [.terminator false collapsed]) : Spelled .statement (.block code) s s'
        (.bracket .openBrace :: ks ++ [.terminator false collapsed]) n
  | branch {test : Test} {yes : Code} {s s1 s2 s' : Session} {head ks : List SymbolKind} {n : Nat}
      (p : s.Passed s1 [.keyword .branch]) (h : Head test s1 s2 head)
      (hy : Spelled .body yes s2 s' ks n) :
      Spelled .statement (.branch test yes) s s' (.keyword .branch :: head ++ ks) n
  | branchElse {test : Test} {yes no : Code} {s s1 s2 s3 s4 s' : Session}
      {head ks ending ks' : List SymbolKind} {m n : Nat} (p : s.Passed s1 [.keyword .branch])
      (h : Head test s1 s2 head) (hy : Spelled .body yes s2 s3 ks m) (closed : yes.loose = false)
      (he : Ending ending) (p' : s3.Passed s4 (ending ++ [.elseWord]))
      (hn : Spelled .body no s4 s' ks' n) : Spelled .statement (.branchElse test yes no) s s'
        (.keyword .branch :: head ++ ks ++ ending ++ .elseWord :: ks') (m + n)
  | branchTaking {test : Test} {yes no : Code} {s s1 s2 s3 s4 s' : Session}
      {head ks ks' : List SymbolKind} {m n : Nat} (collapsed : Bool)
      (p : s.Passed s1 [.keyword .branch]) (h : Head test s1 s2 head)
      (hy : Spelled .body yes s2 s3 ks m) (closed : yes.loose = false)
      (p' : s3.Passed s4 [.terminator false collapsed, .elseWord])
      (hn : Spelled .body no s4 s' ks' n) : Spelled .statement (.branchElse test yes no) s s'
        (.keyword .branch :: head ++ ks ++ .terminator false collapsed :: .elseWord :: ks')
        (m + n + 1)
  | whileLoop {test : Test} {code : Code} {s s1 s2 s' : Session} {head ks : List SymbolKind}
      {n : Nat} (p : s.Passed s1 [.keyword .whileLoop]) (h : Head test s1 s2 head)
      (hb : Spelled .body code s2 s' ks n) :
      Spelled .statement (.whileLoop test code) s s' (.keyword .whileLoop :: head ++ ks) n
  | doLoop {test : Test} {code : Code} {s s1 s2 s3 s4 s' : Session}
      {head ks between tail : List SymbolKind} {n : Nat} (number : Nat)
      (p : s.Passed s1 [.keyword .doLoop]) (hb : Spelled .body code s1 s2 ks n)
      (hs : Separators between) (p' : s2.Passed s3 (between ++ [.keyword .whileLoop]))
      (h : Head test s3 s4 head) (ending : Ending tail) (last : s4.Passed s' tail) :
      Spelled .statement (.doLoop number code test) s s'
        (.keyword .doLoop :: ks ++ between ++ .keyword .whileLoop :: head ++ tail) n
  | forEach {code : Code} {s s1 s2 s' : Session} {ks : List SymbolKind} {n : Nat}
      (p : s.Passed s1 [.keyword .forLoop])
      (p' : s1.Passed s2 [.bracket .openParen, .var {}, .binary .membership, .var {},
        .bracket .closeParen]) (hb : Spelled .body code s2 s' ks n) :
      Spelled .statement (.forEach (keysHead s1) code) s s'
        ([.keyword .forLoop, .bracket .openParen, .var {}, .binary .membership, .var {},
          .bracket .closeParen] ++ ks) n
  | forLoop {code : Code} {start step : Block String} {test : Option Test}
      {s s1 s2 s3 s4 s5 s6 s7 s' : Session}
      {before first between second behind third last ks : List SymbolKind} {n : Nat} (number : Nat)
      (p1 : s.Passed s1 (.keyword .forLoop :: .bracket .openParen :: before))
      (h1 : Newlines before) (hs : PartFrom start s1 s2 first)
      (p2 : s2.Passed s3 (semicolon :: between)) (h2 : Newlines between)
      (ht : TestFrom test s3 s4 second) (p3 : s4.Passed s5 (semicolon :: behind))
      (h3 : Newlines behind) (hp : PartFrom step s5 s6 third)
      (p4 : s6.Passed s7 (last ++ [.bracket .closeParen])) (h4 : Newlines last)
      (hb : Spelled .body code s7 s' ks n) :
      Spelled .statement (.forLoop number start test step code) s s'
        (.keyword .forLoop :: .bracket .openParen :: before ++ first ++ semicolon :: between ++
          second ++ semicolon :: behind ++ third ++ last ++ .bracket .closeParen :: ks) n

end Awk

/-! ### Braces -/

def opens (ks : List SymbolKind) : Nat := ks.countP isOpenBrace

def closes (ks : List SymbolKind) : Nat := ks.countP isCloseBrace

/-- Every prefix has at least as many opening braces as closing ones, and the
whole has equally many. -/
def Balanced (ks : List SymbolKind) : Prop :=
  (∀ p, p <+: ks → closes p ≤ opens p) ∧ closes ks = opens ks

lemma closes_append (a b : List SymbolKind) : closes (a ++ b) = closes a + closes b :=
  countP_append

lemma opens_append (a b : List SymbolKind) : opens (a ++ b) = opens a + opens b :=
  countP_append

lemma balanced_nil : Balanced [] := by
  refine ⟨fun p hp => ?_, rfl⟩
  rw [prefix_nil.mp hp]
  exact Nat.le_refl _

lemma Balanced.append (ha : Balanced a) (hb : Balanced b) : Balanced (a ++ b) := by
  refine ⟨fun p hp => ?_, by rw [closes_append, opens_append, ha.2, hb.2]⟩
  rcases prefix_or_prefix_of_prefix hp (prefix_append a b) with inner | ⟨q, rfl⟩
  · exact ha.1 p inner
  · have hq := hb.1 q ((prefix_append_right_inj a).mp hp)
    rw [closes_append, opens_append, ha.2]
    omega

lemma balanced_of_none
    (h : ∀ k ∈ ks, k.isOpenBrace = false ∧ k.isCloseBrace = false) : Balanced ks := by
  have none : ∀ p, p <+: ks → closes p = 0 ∧ opens p = 0 := fun p hp =>
    ⟨countP_eq_zero.mpr fun k hk => by simp [(h k (hp.mem hk)).2],
      countP_eq_zero.mpr fun k hk => by simp [(h k (hp.mem hk)).1]⟩
  refine ⟨fun p hp => ?_, ?_⟩
  · rw [(none p hp).1]
    exact Nat.zero_le _
  · rw [(none ks (prefix_refl _)).1, (none ks (prefix_refl _)).2]

lemma Balanced.braces (h : Balanced ks) (collapsed : Bool) :
    Balanced (.bracket .openBrace :: ks ++ [.terminator false collapsed]) := by
  have total : ∀ p, opens (.bracket .openBrace :: p) = opens p + 1 ∧
      closes (.bracket .openBrace :: p) = closes p := by
    simp [opens, closes, countP_cons, isOpenBrace, isCloseBrace]
  have last : opens (ks ++ [.terminator false collapsed]) = opens ks ∧
      closes (ks ++ [.terminator false collapsed]) = closes ks + 1 := by
    simp [opens, closes, isOpenBrace, isCloseBrace]
  refine ⟨fun p hp => ?_, ?_⟩
  · rcases prefix_cons_iff.mp hp with rfl | ⟨q, rfl, hq⟩
    · exact Nat.le_refl _
    · rw [(total q).1, (total q).2]
      rcases prefix_concat_iff.mp hq with rfl | inner
      · rw [last.1, last.2, h.2]
      · have := h.1 q inner
        omega
  · rw [cons_append, (total _).1, (total _).2, last.1, last.2, h.2]

lemma SymbolKind.noBrace_of_isFlat (h : k.isFlat) :
    k.isOpenBrace = false ∧ k.isCloseBrace = false := by
  cases k with
  | bracket b => cases b <;> simp_all [isFlat, isOpenBrace, isCloseBrace]
  | terminator consumed collapsed => cases consumed <;> simp_all [isFlat, isOpenBrace, isCloseBrace]
  | _ => exact ⟨rfl, rfl⟩

lemma Symbol.isFlat_of_isInner {s : Symbol} (h : s.isInner) : s.kind.bare.isFlat := by
  cases hk : s.kind with
  | bracket b => cases b <;> simp_all [isInner, bare, isFlat]
  | keyword word => cases word <;> simp_all [isInner, bare, isFlat]
  | terminator consumed collapsed =>
    cases consumed <;> simp_all [isInner, bare, isFlat]
  | _ => simp_all [isInner, bare, isFlat]

namespace Awk

open SymbolKind (newline semicolon)

variable {s s' : Session}

lemma Gives.flat (moves : Moves x) (h : Gives x s s' ks lines f) : ∀ k ∈ ks, k.isFlat := by
  obtain ⟨ts, shown, rfl⟩ := h.passed.shown
  obtain ⟨ts', shown', inner⟩ := (moves.ok h.passed.start h.run).shown
  have same : ts = ts' := append_cancel_right (shown.symm.trans shown')
  intro k hk
  obtain ⟨t, ht, rfl⟩ := mem_map.mp hk
  exact Symbol.isFlat_of_isInner (inner t (same ▸ ht))

lemma PartFrom.flat {b : Block String} (h : PartFrom b s s' ks) : ∀ k ∈ ks, k.isFlat := by
  cases h with
  | absent => simp
  | given h => exact h.flat (moves_expression {})

lemma Test.From.flat (h : test.From s s' ks) : ∀ k ∈ ks, k.isFlat := by
  obtain ⟨f, h, _⟩ := h
  exact h.flat moves_condition

lemma TestFrom.flat {test : Option Test} (h : TestFrom test s s' ks) : ∀ k ∈ ks, k.isFlat := by
  cases h with
  | absent => simp
  | given h => exact h.flat

lemma Newlines.flat (h : Newlines ks) : ∀ k ∈ ks, k.isFlat := by
  intro k hk
  rw [h k hk]
  rfl

lemma Separators.flat (h : Separators ks) : ∀ k ∈ ks, k.isFlat := by
  intro k hk
  obtain ⟨collapsed, rfl⟩ := h k hk
  rfl

lemma Ending.flat (h : Ending ks) : ∀ k ∈ ks, k.isFlat := by
  cases h <;> simp [isFlat]

lemma Head.flat (h : Head test s s' ks) : ∀ k ∈ ks, k.isFlat := by
  obtain ⟨first, -, h, last, -⟩ := h
  intro k hk
  simp only [cons_append, mem_cons, mem_append, not_mem_nil, or_false] at hk
  rcases hk with rfl | ((hk | hk) | hk) | rfl
  · rfl
  · exact first.flat k hk
  · exact h.flat k hk
  · exact last.flat k hk
  · rfl

/-- The lines of tests, steps and simple statements are straight code. -/
def Code.Straight : Code → Prop
  | simple lines => lines.Straight
  | seq first second => first.Straight ∧ second.Straight
  | block code => code.Straight
  | branch test yes => test.lines.Straight ∧ yes.Straight
  | branchElse test yes no => test.lines.Straight ∧ yes.Straight ∧ no.Straight
  | whileLoop test body => test.lines.Straight ∧ body.Straight
  | doLoop _ body test => test.lines.Straight ∧ body.Straight
  | forEach _ body => body.Straight
  | forLoop _ start test step body =>
    start.Straight ∧ (∀ t ∈ test, t.lines.Straight) ∧ step.Straight ∧ body.Straight
  | _ => True

lemma PartFrom.straight {b : Block String} (h : PartFrom b s s' ks) : b.Straight := by
  cases h with
  | absent => exact .done
  | given h =>
    refine h.straight.append ?_
    rw [ownLine]
    split
    · exact .done
    · exact .line (expression_plain h.passed.start h.run).text .done

lemma Test.From.straight (h : test.From s s' ks) : test.lines.Straight := by
  obtain ⟨_, h, _⟩ := h
  exact h.straight

lemma Head.straight (h : Head test s s' ks) : test.lines.Straight := by
  obtain ⟨_, _, h, _, _⟩ := h
  exact h.straight

variable {code : Code}

lemma Code.Spelled.straight (h : code.Spelled shape s s' ks n) : code.Straight := by
  induction h with
  | nil | empty | breakLoop | continueLoop => trivial
  | separators _ _ _ ih | lines _ _ _ ih | body _ _ ih | block _ _ _ _ ih | forEach _ _ _ ih =>
    exact ih
  | cons _ _ ih ih' => exact ⟨ih, ih'⟩
  | pass _ _ _ ih => exact ⟨ih, trivial⟩
  | simple _ _ _ _ _ straight => exact straight
  | branch _ head _ ih | whileLoop _ head _ ih | doLoop _ _ _ _ _ head _ _ ih =>
    exact ⟨head.straight, ih⟩
  | branchElse _ head _ _ _ _ _ ih ih' | branchTaking _ _ head _ _ _ _ ih ih' =>
    exact ⟨head.straight, ih, ih'⟩
  | forLoop _ _ _ start _ _ test _ _ step _ _ _ ih =>
    refine ⟨start.straight, ?_, step.straight, ih⟩
    intro t ht
    cases test with
    | absent => cases ht
    | given h =>
      cases ht
      exact h.straight

/-- The keyword of a loop. -/
def Code.keyword? : Code → Option Keyword
  | whileLoop _ _ => some .whileLoop
  | doLoop _ _ _ => some .doLoop
  | forEach _ _ | forLoop _ _ _ _ _ => some .forLoop
  | _ => none

/-- A statement is a loop just if its first token is the keyword of that loop. -/
lemma Code.Spelled.starts (h : code.Spelled .statement s s' ks n) :
    ∃ k rest, ks = k :: rest ∧ ∀ word ∈ [Keyword.whileLoop, .doLoop, .forLoop],
      k = .keyword word ↔ code.keyword? = some word := by
  cases h with
  | pass inside => exact absurd rfl inside
  | simple _ _ _ flat some =>
    obtain ⟨k, rest, rfl⟩ := exists_cons_of_ne_nil some
    refine ⟨k, rest, rfl, fun word loop => ⟨?_, fun same => by cases same⟩⟩
    rintro rfl
    have flat := flat _ mem_cons_self
    simp only [mem_cons, not_mem_nil, or_false] at loop
    rcases loop with rfl | rfl | rfl <;> cases flat
  | _ => exact ⟨_, _, rfl, by simp [keyword?]⟩

end Awk

lemma balanced_of_flat (h : ∀ k ∈ ks, k.isFlat) : Balanced ks :=
  balanced_of_none fun k hk => noBrace_of_isFlat (h k hk)

/-- The closing braces outnumber the opening ones by a number, and all is balanced
if that is zero. -/
structure Excess (ks : List SymbolKind) (n : Nat) : Prop where
  total : closes ks = opens ks + n
  balanced : n = 0 → Balanced ks

lemma Balanced.excess (h : Balanced ks) : Excess ks 0 :=
  ⟨h.2, fun _ => h⟩

lemma excess_close (collapsed : Bool) : Excess [.terminator false collapsed] 1 :=
  ⟨rfl, nofun⟩

lemma Excess.balanced_iff (h : Excess ks n) : Balanced ks ↔ n = 0 := by
  refine ⟨fun balanced => ?_, h.balanced⟩
  have := h.total
  rw [balanced.2] at this
  omega

lemma Excess.append (ha : Excess a m) (hb : Excess b n) : Excess (a ++ b) (m + n) := by
  refine ⟨?_, fun zero => ?_⟩
  · rw [closes_append, opens_append, ha.total, hb.total]
    omega
  · exact (ha.balanced (by omega)).append (hb.balanced (by omega))

lemma Excess.braces (h : Excess ks n) (collapsed : Bool) :
    Excess (.bracket .openBrace :: ks ++ [.terminator false collapsed]) n := by
  refine ⟨?_, fun zero => (h.balanced zero).braces collapsed⟩
  have := h.total
  simp only [opens, closes, cons_append, countP_cons, countP_append,
    countP_nil, isOpenBrace, isCloseBrace] at this ⊢
  simp only [Bool.not_false, if_true, Bool.false_eq_true, if_false]
  omega

lemma Excess.cons (h : Excess ks n)
    (open_ : k.isOpenBrace = false) (close : k.isCloseBrace = false) : Excess (k :: ks) n := by
  have single : Excess [k] 0 := (balanced_of_none fun k' hk => by
    rw [mem_singleton.mp hk]
    exact ⟨open_, close⟩).excess
  simpa using single.append h

lemma Excess.flat_append (ha : ∀ k ∈ a, k.isFlat) (hb : Excess b n) : Excess (a ++ b) n := by
  simpa using (balanced_of_flat ha).excess.append hb

lemma Excess.append_flat (ha : Excess a n) (hb : ∀ k ∈ b, k.isFlat) : Excess (a ++ b) n :=
  ha.append (balanced_of_flat hb).excess

lemma Awk.Code.Spelled.excess {shape : Awk.Shape} {code : Awk.Code} {s s' : Session}
    (h : code.Spelled shape s s' ks n) : Excess ks n := by
  induction h with
  | nil => exact balanced_nil.excess
  | separators all _ _ ih | lines all _ _ ih => exact ih.flat_append all.flat
  | cons _ _ ih ih' => exact ih.append ih'
  | pass _ _ _ ih | body _ _ ih => exact ih
  | empty => exact balanced_nil.excess.cons rfl rfl
  | simple _ _ _ flat => exact (balanced_of_flat flat).excess
  | breakLoop _ ending | continueLoop _ ending =>
    exact (balanced_of_flat ending.flat).excess.cons rfl rfl
  | block collapsed _ _ _ ih => exact ih.braces collapsed
  | branch _ head _ ih | whileLoop _ head _ ih => exact (ih.flat_append head.flat).cons rfl rfl
  | branchElse _ head _ _ ending _ _ ih ih' =>
    exact (((ih.flat_append head.flat).cons rfl rfl).append_flat ending.flat).append
      (ih'.cons rfl rfl)
  | branchTaking collapsed _ head _ _ _ _ ih ih' =>
    have tail := (excess_close collapsed).append (ih'.cons (k := .elseWord) rfl rfl)
    have whole := ((ih.flat_append head.flat).cons (k := .keyword .branch) rfl rfl).append tail
    rw [Nat.add_comm 1, ← Nat.add_assoc] at whole
    exact whole
  | doLoop number _ _ between _ head ending _ ih =>
    have tail := ((balanced_of_flat head.flat).excess.append_flat ending.flat).cons
      (k := .keyword .whileLoop) rfl rfl
    simpa using ((ih.cons rfl rfl).append_flat between.flat).append tail
  | forEach _ _ _ ih =>
    have head := ih.flat_append
      (a := [.bracket .openParen, .var {}, .binary .membership, .var {}, .bracket .closeParen])
      (by simp [isFlat])
    exact head.cons rfl rfl
  | forLoop number _ h1 hs _ h2 ht _ h3 hp _ h4 _ ih =>
    have behind : ∀ {ks : List SymbolKind}, Awk.Newlines ks →
        ∀ k ∈ semicolon :: ks, k.isFlat := fun h k hk => by
      rcases mem_cons.mp hk with rfl | hk
      · rfl
      · exact h.flat k hk
    have head := (((balanced_of_flat h1.flat).excess.cons (k := .bracket .openParen) rfl rfl).cons
      (k := .keyword .forLoop) rfl rfl).append_flat hs.flat
    have middle := (head.append_flat (behind h2)).append_flat ht.flat
    have whole := ((middle.append_flat (behind h3)).append_flat hp.flat).append_flat h4.flat
    simpa using whole.append (ih.cons (k := .bracket .closeParen) rfl rfl)

end AwkToPython
