import AwkToPython.Proofs.Progress.Basic
import AwkToPython.Proofs.Token.Entry
import AwkToPython.Proofs.Usage.Source
import Mathlib.Data.List.Chain
import Mathlib.Data.List.DropRight
import Mathlib.Data.List.Induction

/-!
# The stream that a cursor shows

A cursor is advanced and its comments are taken, in any order. What it shows on the
way is the stream without its comments, where of line ends in a row only the last is
left, and then the mark of the end again and again. The comments that are taken are
those that were passed.
-/
namespace AwkToPython

open List

namespace Cursor

variable {ts : List Token}

/-- Of line ends that follow each other only the last is kept. -/
def lastOfRuns : List Token → List Token
  | [] => []
  | t :: rest =>
    if t.isNewline && rest.head?.any Token.isNewline then lastOfRuns rest else t :: lastOfRuns rest

/-- What is to be seen of a stream. -/
def filtered (ts : List Token) : List Token := lastOfRuns (ts.filter fun t => !t.isComment)

inductive Use where
  | advance
  | takeComments
deriving DecidableEq, Repr

/-- A cursor after one more use, with all comments that were taken. -/
def use : Cursor × List Token → Use → Cursor × List Token
  | (c, taken), .advance => (c.advance, taken)
  | (c, taken), .takeComments => (c.takeComments.2, taken ++ c.takeComments.1)

/-- A cursor over a stream after it was used. -/
def used (ts : List Token) (uses : List Use) : Cursor × List Token :=
  uses.foldl use (ofTokens ts, [])

/-! ### Streams -/

lemma newlineFollows_eq (ts : List Token) :
    newlineFollows ts = (ts.filter fun t => !t.isComment).head?.any Token.isNewline := by
  induction ts with
  | nil => rfl
  | cons t rest ih =>
    rw [newlineFollows] at ih ⊢
    cases comment : t.isComment <;> simp [comment, ih]

lemma visible_eq_filtered (ts : List Token) : visible ts = filtered ts := by
  induction ts with
  | nil => rfl
  | cons t rest ih =>
    rw [visible, newlineFollows_eq, ih, filtered, filtered]
    cases comment : t.isComment <;> simp [comment, lastOfRuns]

lemma mem_of_mem_filtered (mem : t ∈ filtered ts) : t ∈ ts ∧ t.isComment = false := by
  rw [← visible_eq_filtered] at mem
  refine ⟨(visible_sublist ts).mem mem, ?_⟩
  induction ts with
  | nil => cases mem
  | cons a rest ih =>
    rw [visible] at mem
    split at mem
    · exact ih mem
    case isFalse shown =>
      rcases mem_cons.mp mem with rfl | mem
      · simp_all
      · exact ih mem

/-- A line end is followed by something else. -/
lemma lastOfRuns_apart (ts : List Token) (last : Token) (other : last.isNewline = false) (n : Nat)
    (line : ((lastOfRuns ts).getD n last).isNewline) :
    ((lastOfRuns ts).getD (n + 1) last).isNewline = false := by
  induction ts generalizing n with
  | nil => simpa [lastOfRuns] using other
  | cons t rest ih =>
    rw [lastOfRuns] at line ⊢
    split at line
    case isTrue run =>
      rw [if_pos run]
      exact ih n line
    case isFalse kept =>
      rw [if_neg kept]
      cases n with
      | succ n => simpa using ih n (by simpa using line)
      | zero =>
        -- what stands behind the last line end of a run is no line end, so it is kept
        have first : t.isNewline := line
        cases rest with
        | nil => simpa [lastOfRuns] using other
        | cons a rest =>
          have plain : a.isNewline = false := by
            rw [first] at kept
            simpa using kept
          simp [lastOfRuns, plain]

/-- If a line end follows, the first token that is seen is one. -/
lemma head_visible_of_newlineFollows (follows : newlineFollows ts) :
    ∃ t ∈ ts, (visible ts).head? = some t ∧ t.isNewline := by
  induction ts with
  | nil => cases follows
  | cons a rest ih =>
    have tail : newlineFollows rest → ∃ t ∈ a :: rest, (visible rest).head? = some t ∧
        t.isNewline := by
      intro behind
      obtain ⟨t, mem, first, line⟩ := ih behind
      exact ⟨t, mem_cons_of_mem _ mem, first, line⟩
    rw [visible]
    cases comment : a.isComment with
    | true => simpa [comment] using tail (by simpa [newlineFollows, comment] using follows)
    | false =>
      have line : a.isNewline := by simpa [newlineFollows, comment] using follows
      cases behind : newlineFollows rest with
      | true => simpa [line, behind] using tail behind
      | false => exact ⟨a, by simp, by simp, line⟩

/-- Looking one token ahead finds what is seen next, up to which line end of a run. -/
lemma nth_one_symbol (last : Token) (some_ : ts ≠ []) (word : (ts.getLastD last).isComment = false)
    (lines : ∀ t ∈ ts, t.isNewline → t.symbol = Table.newline) :
    (visible ts).head?.map (·.symbol) = some (nth 1 last ts).symbol := by
  induction ts generalizing last with
  | nil => exact absurd rfl some_
  | cons a rest ih =>
    rw [getLastD_cons] at word
    rw [visible, nth]
    cases comment : a.isComment with
    | true =>
      have more : rest ≠ [] := by
        rintro rfl
        simp [comment] at word
      simpa using ih a more word fun t mem => lines t (mem_cons_of_mem _ mem)
    | false =>
      cases skipped : a.isNewline && newlineFollows rest with
      | false => simp
      | true =>
        rw [Bool.and_eq_true] at skipped
        obtain ⟨t, mem, first, line⟩ := head_visible_of_newlineFollows skipped.2
        simp [first, lines a mem_cons_self skipped.1, lines t (mem_cons_of_mem _ mem) line]

/-! ### Cursors -/

lemma settle_passed_comments (taken : List Token) {passed comments : List Token}
    (current : Token) (ahead : List Token) (prior : Option Token)
    (all : taken ++ comments = passed.reverse.filter Token.isComment) :
    taken ++ (settle passed current ahead comments prior).comments =
      (settle passed current ahead comments prior).passed.reverse.filter Token.isComment := by
  induction ahead generalizing passed current comments with
  | nil => exact all
  | cons next rest ih =>
    rw [settle]
    split
    case isTrue comment => exact ih _ (by simp [← all, comment])
    case isFalse comment =>
      split
      · exact ih _ (by simp [all, comment])
      · exact all

/-- A cursor that was advanced `n` times over a stream and whose comments were taken. -/
structure Follows (ts : List Token) (n : Nat) (c : Cursor) (taken : List Token) : Prop where
  buffer : c.buffer = ts
  shown : ∀ k, c.shown.getD k c.last = (filtered ts).getD (n + k) c.last
  prior : c.prior = if n = 0 then none else some ((filtered ts).getD (n - 1) c.last)
  comments : taken ++ c.comments = c.passed.reverse.filter Token.isComment

variable {ts taken : List Token} {n : Nat} {c : Cursor} {last : Token}

lemma follows_ofTokens (ts : List Token) (word : last.isComment = false) :
    Follows (ts ++ [last]) 0 (ofTokens (ts ++ [last])) [] := by
  cases h : ts ++ [last] with
  | nil => simp at h
  | cons first rest =>
    have ends : (rest.getLastD first).isComment = false := by
      have : (first :: rest).getLast? = some last := by rw [← h, getLast?_concat]
      rw [getLast?_cons, Option.some.injEq] at this
      rw [getLastD_eq_getLast?, this]
      exact word
    refine ⟨by simp [ofTokens, settle_buffer], fun k => ?_, settle_prior .., ?_⟩
    · rw [ofTokens, settle_shown _ _ _ _ _ ends, visible_eq_filtered, Nat.zero_add]
    · exact settle_passed_comments [] first rest none rfl

lemma Follows.current (h : Follows ts n c taken) : c.current = (filtered ts).getD n c.last :=
  h.shown 0

lemma getD_filtered (word : last.isComment = false) (n : Nat) :
    ((filtered ts).getD n last).isComment = false := by
  rw [getD_eq_getElem?_getD]
  cases found : (filtered ts)[n]? with
  | none => exact word
  | some t => exact (mem_of_mem_filtered (mem_of_getElem? found)).2

lemma Follows.advance (h : Follows ts n c taken) (word : c.last.isComment = false) :
    Follows ts (n + 1) c.advance taken := by
  refine ⟨c.advance_buffer.trans h.buffer, fun k => ?_, ?_, ?_⟩
  · rw [advance_last, Nat.add_right_comm, Nat.add_assoc, ← h.shown (k + 1)]
    cases ahead : c.ahead with
    | nil =>
      have rests : c.advance.shown = [c.current] ∧ c.shown = [c.current] := by
        simp [Cursor.advance, Cursor.shown, visible, ahead]
      rw [rests.1, rests.2]
      cases k <;> simp [Cursor.last, ahead]
    | cons next rest => rw [shown_advance (by simp [ahead]) word, getD_cons_succ]
  · rw [advance_prior, advance_last, if_neg (Nat.succ_ne_zero n), Nat.add_sub_cancel, h.current]
  · have plain : c.current.isComment = false := h.current ▸ getD_filtered word n
    rw [Cursor.advance]
    cases c.ahead with
    | nil => exact h.comments
    | cons next rest => exact settle_passed_comments _ next rest _ (by simp [h.comments, plain])

lemma Follows.takeComments (h : Follows ts n c taken) :
    Follows ts n c.takeComments.2 (taken ++ c.takeComments.1) :=
  ⟨h.buffer, h.shown, h.prior, by simpa [Cursor.takeComments] using h.comments⟩

/-- Whatever was done with a cursor, it follows its stream. -/
lemma follows_used (ts : List Token) (word : last.isComment = false) (uses : List Use) :
    let after := used (ts ++ [last]) uses
    after.1.last = last ∧ Follows (ts ++ [last]) (uses.count .advance) after.1 after.2 := by
  induction uses using reverseRecOn with
  | nil =>
    have start := follows_ofTokens ts word
    refine ⟨?_, start⟩
    have ends := getLast?_buffer (ofTokens (ts ++ [last]))
    rw [start.buffer, getLast?_concat] at ends
    exact (Option.some.inj ends).symm
  | append_singleton uses act ih =>
    obtain ⟨ends, follows⟩ := ih
    have step : used (ts ++ [last]) (uses ++ [act]) = use (used (ts ++ [last]) uses) act := by
      rw [used, foldl_concat]
      rfl
    rw [step, count_append]
    cases act with
    | advance => exact ⟨(advance_last _).trans ends, follows.advance (by rw [ends]; exact word)⟩
    | takeComments => exact ⟨ends, follows.takeComments⟩

/-- A cursor over a stream that closes with an end of input shows the filtered stream and then
its last token for good, and hands out every comment once. -/
theorem cursor_refines_stream (ts : List Token) (line : Nat) (uses : List Use) :
    let stream := ts ++ [Token.endOfInput line]
    let seen := fun n => (filtered stream).getD n (Token.endOfInput line)
    let advances := uses.count .advance
    let c := (used stream uses).1
    let taken := (used stream uses).2
    c.current = seen advances ∧
    c.prior = (if advances = 0 then none else some (seen (advances - 1))) ∧
    c.current.isComment = false ∧
    ¬ (c.current.isNewline ∧ c.advance.current.isNewline) ∧
    (c.passed.reverse ++ c.current :: c.ahead = stream ∧
      taken ++ c.takeComments.1 = c.passed.reverse.filter Token.isComment) ∧
    ((∀ t ∈ ts, t.isNewline → t.symbol = Table.newline) →
      (c.peek 1).symbol = c.advance.current.symbol) := by
  intro stream seen advances c taken
  obtain ⟨ends, follows⟩ : c.last = Token.endOfInput line ∧ Follows stream advances c taken :=
    follows_used ts rfl uses
  have word : c.last.isComment = false := ends ▸ rfl
  have current := follows.current
  have next := (follows.advance word).current
  rw [advance_last] at next
  refine ⟨current.trans (by rw [ends]), follows.prior.trans (by rw [ends]),
    current ▸ getD_filtered word _, ?_, ⟨follows.buffer, follows.comments⟩, fun lines => ?_⟩
  · rintro ⟨first, second⟩
    rw [current] at first
    rw [next, filtered, lastOfRuns_apart _ _ (ends ▸ rfl) _ first] at second
    cases second
  · rw [peek]
    cases ahead : c.ahead with
    | nil => simp [Cursor.advance, ahead, nth]
    | cons a rest =>
      have shown := shown_advance (by simp [ahead]) word
      rw [Cursor.shown, List.cons.injEq, ahead] at shown
      have lines' : ∀ t ∈ a :: rest, t.isNewline → t.symbol = Table.newline := by
        intro t mem newline
        have inside : t ∈ stream := by
          rw [← follows.buffer, buffer, tokens, ahead]
          exact List.mem_append_right _ (List.mem_cons_of_mem _ mem)
        rcases List.mem_append.mp inside with inside | inside
        · exact lines t inside newline
        · rw [List.mem_singleton.mp inside] at newline
          cases newline
      have found := nth_one_symbol c.current (List.cons_ne_nil a rest)
        (by simpa [last, ahead] using word) lines'
      rw [shown.2, Cursor.shown] at found
      exact (Option.some.inj found).symm

/-- A comment between two line ends: they are one line end to the reader, and looking ahead from
the word before them finds the first where advancing leads to the second. -/
theorem cursor_refines_stream_lines :
    let newline : Nat → Token := fun line =>
      { symbol := Table.newline, place := ⟨line, 1⟩, spaced := true, role := .newline }
    let word : Token := { symbol := 200, place := ⟨1, 1⟩, spaced := true }
    let comment : Token := { symbol := 201, place := ⟨2, 1⟩, spaced := true, role := .comment }
    let ts := [word, newline 1, comment, newline 2]
    let c := (used (ts ++ [Token.endOfInput 2]) [.takeComments]).1
    (∀ t ∈ ts, t.isNewline → t.symbol = Table.newline) ∧
      (c.peek 1).symbol = c.advance.current.symbol ∧ c.peek 1 ≠ c.advance.current := by
  intro newline word comment ts c
  have lines : ∀ t ∈ ts, t.isNewline → t.symbol = Table.newline := by decide
  exact ⟨lines, (cursor_refines_stream ts 2 [.takeComments]).2.2.2.2.2 lines, by decide⟩

end Cursor

/-! ### Comments apart

A report looks at twice as many tokens as it shows. That is enough, since no two
comments are next to each other. -/

namespace Token

variable {ts more : List Token}

def Apart (ts : List Token) : Prop :=
  ts.IsChain fun t next => ¬ (t.isComment ∧ next.isComment)

lemma Apart.append (h : Apart ts) (plain : ∀ t ∈ more, t.isComment = false) :
    Apart (ts ++ more) := by
  refine isChain_append.mpr ⟨h, Pairwise.isChain ?_, fun t _ next mem both => ?_⟩
  · refine pairwise_of_forall_mem_list fun t _ next mem both => ?_
    simp [plain next mem] at both
  · simp [plain next (mem_of_mem_head? mem)] at both

lemma Apart.reverse (h : Apart ts) : Apart ts.reverse :=
  isChain_reverse.mpr (h.imp fun _ _ apart both => apart both.symm)

/-- About half of the tokens, or more, are no comments. -/
lemma Apart.length_le (h : Apart ts) :
    ts.length ≤ 2 * (ts.filter fun t => !t.isComment).length + 1 := by
  induction ts using twoStepInduction with
  | nil => simp
  | singleton t => simp
  | cons_cons t next rest ih _ =>
    obtain ⟨apart, behind⟩ := isChain_cons_cons.mp h
    have rest_le := ih behind.tail
    cases comment : t.isComment <;> cases comment' : next.isComment <;>
      simp_all only [filter_cons, length_cons] <;> simp_all <;> omega

/-- Of twice as many tokens enough are left without the comments. -/
lemma Apart.take_filter (h : Apart ts) (n : Nat) :
    ((ts.take (n * 2)).filter fun t => !t.isComment).take n =
      (ts.filter fun t => !t.isComment).take n := by
  by_cases short : ts.length ≤ n * 2
  · rw [take_of_length_le short]
  · have enough : n ≤ ((ts.take (n * 2)).filter fun t => !t.isComment).length := by
      have half := length_le (IsChain.take h (n * 2))
      rw [length_take_of_le (by omega)] at half
      omega
    conv_rhs => rw [← take_append_drop (n * 2) ts, filter_append]
    exact (take_append_of_le_length enough).symm

end Token

/-! ### Lines -/

namespace Lexeme

/-- Behind each comment its line ends. -/
def Closed : List Lexeme → Prop
  | [] => True
  | .comment .. :: rest => (∃ place more, rest = .lineEnd place :: more) ∧ Closed rest
  | _ :: rest => Closed rest

lemma closed_scanLine (number pos : Nat) (first spaced : Bool) (rest : List Char)
    (later : List (List Char)) : Closed (scanLine number pos first spaced rest later) := by
  fun_induction scanLine number pos first spaced rest later with
  | case1 | case6 | case8 => trivial
  | case2 number pos first spaced line later ih
  | case3 number pos first spaced c cs later blank ih
  | case4 number pos first spaced c cs blank joined ih
  | case5 number pos first spaced c cs blank joined line later ih
  | case9 number pos first spaced c cs blank joined span found text word parts isOpen line
      later ih =>
    exact ih
  | case7 number pos first spaced c cs later place blank joined span found text comment ih =>
    refine ⟨?_, ih⟩
    cases later <;> rw [scanLine] <;> exact ⟨_, _, rfl⟩
  | case10 number pos first spaced c cs later blank joined span found text word parts closed ih =>
    rw [words]
    split <;> exact ih

lemma closed_scan (source : String) : Closed (scan source) := by
  rw [scan]
  split
  · trivial
  · exact closed_scanLine ..

end Lexeme

namespace Reading

variable {ts : List Token} {ls rest : List Lexeme} {r r' : Reading} {l : Lexeme}
  {load : String → Read Unit} {pending pending' : Option Directive}

/-- The tokens so far have their comments apart, and behind a last comment the line ends. -/
structure Spaced (ts : List Token) (ls : List Lexeme) : Prop where
  apart : Token.Apart ts
  last : ∀ t ∈ ts.getLast?, t.isComment → ∃ place rest, ls = .lineEnd place :: rest

lemma Spaced.of_nil (h : Spaced ts []) (ls : List Lexeme) : Spaced ts ls := by
  refine ⟨h.apart, fun t mem comment => ?_⟩
  obtain ⟨place, rest, same⟩ := h.last t mem comment
  cases same

lemma Spaced.push (h : Spaced ts ls) (plain : token.isComment = false) :
    Spaced (ts ++ [token]) [] := by
  refine ⟨h.apart.append (by simpa using plain), fun t mem comment => ?_⟩
  rw [getLast?_concat, Option.mem_some_iff] at mem
  simp [← mem, plain] at comment

lemma Made.plain (made : Made known t (.word text place spaced) token) :
    token.isComment = false := by
  cases made <;> rfl

/-- What is read for a file keeps comments apart. -/
def Spaces (load : String → Read Unit) : Prop :=
  ∀ (name : String) (r r' : Reading), load name r = .ok () r' → Spaced r.tokens.toList [] →
    Spaced r'.tokens.toList []

lemma Spaces.lexeme (h : Spaces load) (spaced : Spaced r.tokens.toList (l :: rest))
    (closed : Lexeme.Closed (l :: rest)) (run : lexeme load pending l r = .ok pending' r') :
    Spaced r'.tokens.toList rest := by
  cases l with
  | fault fault place => cases run
  | lineEnd place =>
    cases pending with
    | some directive => cases run
    | none =>
      cases run
      simpa using (spaced.push rfl).of_nil rest
  | comment text place between ownLine =>
    cases run
    refine ⟨?_, fun t mem _ => ?_⟩
    · rw [Array.toList_push]
      refine isChain_append.mpr ⟨spaced.apart, .singleton _, fun t mem next _ both => ?_⟩
      obtain ⟨_, _, same⟩ := spaced.last t mem both.1
      cases same
    · exact closed.1
  | word text place between =>
    have before : Spaced r.tokens.toList [] := by
      refine ⟨spaced.apart, fun t mem comment => ?_⟩
      obtain ⟨_, _, same⟩ := spaced.last t mem comment
      cases same
    refine Spaced.of_nil ?_ rest
    cases ask : asked pending (.word text place between) with
    | some name => exact h name r r' (load_of_asked ask run) before
    | none =>
      have given := gives_lexeme ask load r
      simp only [Gives, run, left] at given
      rcases given with ⟨-, tokens⟩ | ⟨token, -, tokens, made⟩
      · rwa [tokens]
      · rw [tokens, Array.toList_push]
        exact before.push made.plain

lemma Spaces.lexemes (h : Spaces load) (spaced : Spaced r.tokens.toList ls)
    (closed : Lexeme.Closed ls) (run : lexemes load pending ls r = .ok () r') :
    Spaced r'.tokens.toList [] := by
  induction ls generalizing pending r with
  | nil =>
    cases pending <;> cases run <;> exact spaced
  | cons l rest ih =>
    obtain ⟨pending', r1, step, run⟩ := lexemes_cons_ok run
    have closed' : Lexeme.Closed rest := by
      cases l with
      | comment => exact closed.2
      | _ => exact closed
    exact ih (h.lexeme spaced closed step) closed' run

lemma Spaces.loadInclude (h : Spaces load) (library : Library) :
    Spaces (loadInclude library load) := by
  intro name r r' run spaced
  rcases loadInclude_ok run with ⟨-, rfl⟩ | ⟨text, files, r1, r2, -, -, same, -, inner, -, same'⟩
  · exact spaced
  · rw [same']
    exact h text r1 r2 inner (same ▸ spaced)

lemma spaces_source (library : Library) (depth : Nat) : Spaces (source library depth) := by
  induction depth with
  | zero => exact fun _ _ _ run _ => by cases run
  | succ depth ih =>
    exact fun text r r' run spaced => (ih.loadInclude library).lexemes
      (spaced.of_nil (Lexeme.scan text)) (Lexeme.closed_scan text) run

end Reading

/-- The tokens of a text have their comments apart and close with an end of input. -/
lemma Vocabulary.tokens_apart {v : Vocabulary} {ts : List Token}
    (read : (v.tokens library text).1 = .ok ts) :
    Token.Apart ts ∧ ∃ body line, ts = body ++ [Token.endOfInput line] := by
  rw [Compile.tokens_run] at read
  split at read
  · cases read
  case h_2 r run =>
    cases read
    have empty : Reading.Spaced [] [] := ⟨.nil, fun _ mem => by cases mem⟩
    have spaced := Reading.spaces_source library _ text _ r run empty
    refine ⟨spaced.apart.append fun t mem => ?_, ?_⟩
    · rw [eq_of_mem_replicate mem]
      rfl
    · rw [endPadding, replicate_succ', ← append_assoc]
      exact ⟨_, _, rfl⟩

/-- A report shows the last four tokens that are no comments in front of the current one,
and the next four behind it. -/
theorem Cursor.window_is_complete (v : Vocabulary) (library : Library) (text : String)
    (ts : List Token) (read : (v.tokens library text).1 = .ok ts) (uses : List Cursor.Use) :
    let c := (Cursor.used ts uses).1
    let position := c.passed.length
    ts[position]? = some c.current ∧
      c.window.1 = ((ts.take position).filter fun t => !t.isComment).rtake 4 ∧
      c.window.2 = ((ts.drop (position + 1)).filter fun t => !t.isComment).take 4 := by
  intro c position
  obtain ⟨apart, body, line, rfl⟩ := Vocabulary.tokens_apart read
  have buffer : c.passed.reverse ++ c.current :: c.ahead = body ++ [Token.endOfInput line] :=
    (Cursor.follows_used body rfl uses).2.buffer
  have size : c.passed.reverse.length = position := length_reverse
  have before : (body ++ [Token.endOfInput line]).take position = c.passed.reverse := by
    rw [← buffer, take_left' size]
  have passed : Token.Apart c.passed := by
    have front : Token.Apart c.passed.reverse := before ▸ IsChain.take apart position
    simpa using front.reverse
  refine ⟨?_, ?_, ?_⟩
  · rw [← buffer, getElem?_append_right size.le, size]
    simp
  · rw [before, rtake_eq_reverse_take_reverse, ← filter_reverse, reverse_reverse,
      ← passed.take_filter]
    rfl
  · rw [← buffer, ← size, drop_length_add_append]
    rfl

/-- Of the eight tokens in front of the last name four are comments. -/
theorem Cursor.window_is_complete_comments :
    let source := "a\n# b\n# c\n# d\n# e\nf"
    let v : Vocabulary := {}
    ∃ ts, (v.tokens {} source).1 = .ok ts ∧
      let c := (Cursor.used ts [.advance, .takeComments, .advance]).1
      c.window.1 = ((ts.take c.passed.length).filter fun t => !t.isComment).rtake 4 := by
  intro source v
  have ok : (v.tokens {} source).1.isOk = true := by decide +kernel
  cases read : (v.tokens {} source).1 with
  | error e =>
    rw [read] at ok
    cases ok
  | ok ts => exact ⟨ts, rfl, (window_is_complete v {} source ts read _).2.1⟩

end AwkToPython
