import AwkToPython.Proofs.Expression.Outcome

/-!
# Climbing levels follows the grammar

One lemma for each rule with an operator: if compiling follows the derivations of
the operands, it follows that of the whole. The operand on the left is read
with the whole, up to the operator; the one on the right by itself, and its limit
keeps it from taking more than the grammar gives it.
-/
namespace AwkToPython.Awk

open Expression Compile AwkToPython.Symbol Follows Session Operator

variable {ι : Type} {table : Table}
variable {g right : Fragment} {symbol : Symbol} {printing : Bool} {digits : List Char}

section Operators

variable {op : Operator} {key : String} {l : Expr ι} {g : Fragment}

variable {s s1 s2 s3 s' : Session} {f left : Fragment} {context : Context}
  {limit level level' : Nat} {ts ts' k : List Token} {t : Token} {e r : Expr ι}

/-- The last operand decides what becomes of an operation. -/
lemma Settled.outcome {all : List Token} {inner : Nat}
    (h : Settled table s1 r level' context.printing inner ts k right s2)
    (split : ∃ front, all = front ++ ts) (some : ts ≠ [])
    (le : inner ≤ edge level) (follows : Follows table s3)
    (same : s3.cursor.shown = s2.cursor.shown)
    (build : Compiled s1 s2 r level' right → Compiled s s3 e level left)
    (rest : Reads (.goal (.rest left context limit)) s3 [f] s') :
    Outcome table s e level context limit all k f s' := by
  obtain ⟨front, rfl⟩ := split
  cases h with
  | done compiled shown => exact .reached (build compiled) (same.trans shown) rest
  | overrun h => exact .overrun ((h.append some).mono le (same ▸ rest.effect.shorter))
  | stuck h => exact .stuck (follows.rest_stuck ((h.append_left front).same same) rest)

lemma sign_outcome {minus : Bool} (mark : IsMark (Expr.signText minus) t)
    (inner : Simulated table context.printing false 5 ts e) (some : ts ≠ [])
    (follows : Follows table s) (shown : s.cursor.shown = t :: ts ++ k)
    (read : Reads (.goal (.operation context limit)) s [f] s') :
    Outcome table s (.sign minus e) 5 context limit (t :: ts) k f s' := by
  obtain ⟨unary, binary, here, python⟩ : ∃ unary binary,
      (s.table.symbol t.symbol).kind = .ambiguous unary binary ∧
        (s.table.symbol unary).python = Expr.signText minus := by
    have words := follows.here.word
    cases minus with
    | true =>
      exact ⟨15, 16, kind_of_mark _ follows.here mark (by decide) (by simp),
        python_of_word (words 15 (by decide))⟩
    | false =>
      exact ⟨18, 19, kind_of_mark _ follows.here mark (by decide) (by simp),
        python_of_word (words 18 (by decide))⟩
  obtain ⟨advanced, shown1⟩ := follows.advance shown (by simp [isInner, here])
  have kind : s.symbol.kind = .ambiguous unary binary := by rw [symbol_shown shown, here]
  cases read with
  | operation _ first rest =>
    cases first with
    | sign e which operand use =>
      have settled := inner.settle (.inr ⟨rfl, rfl⟩) (follows.effect advanced) shown1 operand
      obtain ⟨table', grown, rfl⟩ := useAsScalar_ok use
      refine settled.outcome ⟨[t], rfl⟩ some (Nat.le_refl _) (follows.effect e) rfl
        (fun compiled => ?_) rest
      rcases which with ⟨unary', binary', kind', rfl⟩ | ⟨kind' | kind', -⟩ <;>
        rw [kind] at kind' <;> cases kind'
      rw [python]
      exact ((compiled.sign minus).between advanced (.refl compiled.effect.sound) ⟨rfl, rfl⟩
        ⟨rfl, rfl⟩).grow grown
    | plain _ operand | stepAfter _ operand =>
      exact absurd (startsOperand_of_reads operand) (by simp [startsOperand, kind])
    | _ => simp_all

lemma not_outcome (mark : IsMark "!" t) (inner : Simulated table context.printing false 5 ts e)
    (some : ts ≠ []) (follows : Follows table s) (shown : s.cursor.shown = t :: ts ++ k)
    (read : Reads (.goal (.operation context limit)) s [f] s') :
    Outcome table s (.not e) 5 context limit (t :: ts) k f s' := by
  have here := kind_of_mark (.unary .not) follows.here mark (by decide) (by simp)
  obtain ⟨advanced, shown1⟩ := follows.advance shown (by simp [isInner, here])
  have kind : s.symbol.kind = .unary .not := by rw [symbol_shown shown, here]
  cases read with
  | operation _ first rest =>
    cases first with
    | @negation _ g _ _ _ e _ operand use =>
      have settled := inner.settle (.inr ⟨rfl, rfl⟩) (follows.effect advanced) shown1 operand
      obtain ⟨table', grown, rfl⟩ := useAsScalar_ok use
      refine settled.outcome ⟨[t], rfl⟩ some (Nat.le_refl _) (follows.effect e) rfl
        (fun compiled => ?_) rest
      have word := (word_of_mark 14 follows.here mark (by decide) (by decide)).2
      have grouping : (s.table.symbol t.symbol).needsGrouping := by
        rw [needsGrouping, awkLevel_of_word word, pythonLevel_of_word word]
        rfl
      have python : (s.table.symbol t.symbol).python = "not" := python_of_word word
      rw [symbol_shown shown, if_pos grouping, python]
      have whole := (compiled.not.between advanced (.refl compiled.effect.sound) ⟨rfl, rfl⟩
        ⟨rfl, rfl⟩).grow grown
      have text : "not " ++ g.wrapped unaryLevel = s!"not {g.wrapped unaryLevel}" := by
        rw [← String.toList_inj]
        simp [toString]
      exact text ▸ whole.looser (Nat.zero_le 5)
    | plain _ operand | stepAfter _ operand =>
      exact absurd (startsOperand_of_reads operand) (by simp [startsOperand, kind])
    | sign _ which => simp [kind] at which
    | @stepBefore increment _ _ _ _ _ _ _ which =>
      rw [kind] at which
      cases increment <;> cases which

/-- Where an operand goes on, what it goes on with is read, and then the rest. -/
lemma Follows.goes (h : Follows table s) (shown : s.cursor.shown = t :: ts)
    (goes : continues table t context.printing limit = true)
    (read : Reads (.goal (.rest left context limit)) s [f] s') :
    ∃ g s1, Reads (.extension left context limit) s [g] s1 ∧
      Reads (.goal (.rest g context limit)) s1 [f] s' := by
  cases read with
  | stop _ stops =>
    rw [h.continues_eq, current shown, goes] at stops
    cases stops
  | extend _ first behind => exact ⟨_, _, first, behind⟩

lemma Compiled.behind (h : Compiled s s1 e level f) (behind : s1.Effect s')
    (listing : s'.listing = s1.listing) (count : s'.temporaries = s1.temporaries) :
    Compiled s s' e level f :=
  h.between (.refl h.effect.start) behind ⟨rfl, listing⟩ ⟨rfl, count⟩

/-- No operand starts at an operator between two. -/
lemma not_starts (found : operatorAt s.table s.cursor.current = some symbol) :
    s.symbol.kind ≠ .number ∧ s.symbol.startsOperand = false := by
  rw [operatorAt] at found
  cases kind : s.symbol.kind <;> simp_all [startsOperand]

/-- The left operand of a binary operator is compiled, and the operator is next. -/
structure Before (table : Table) (s s1 : Session) (l : Expr ι) (op : Operator) (t : Token)
    (ts : List Token) (left : Fragment) (symbol : Symbol) : Prop where
  compiled : Compiled s s1 l op.left left
  follows : Follows table s1
  shown : s1.cursor.shown = t :: ts
  found : operatorAt s1.table s1.cursor.current = some symbol
  kind : symbol.kind = .binary op.kind
  level : symbol.awkLevel = op.level
  joint : (symbol.python, op.python) ∈ Python.joints

lemma Before.advance (h : Before table s s1 l op t ts left symbol) :
    s1.Effect s1.past ∧ s1.past.cursor.shown = ts :=
  h.follows.advance h.shown (current h.shown ▸ isInner_of_operatorAt h.found)

lemma Before.arithmetic
    (before : Before table s s1 l op t (ts' ++ k) left symbol) (plain : op.isLogical = false)
    (right : Simulated table context.printing false op.right ts' r) (some : ts' ≠ [])
    (read : Reads (.extension left context limit) s1 [g] s2)
    (rest : Reads (.goal (.rest g context limit)) s2 [f] s') :
    Outcome table s (.binary op l r) op.level context limit (ts ++ t :: ts') k f s' := by
  obtain ⟨advanced, shown1⟩ := before.advance
  have levels : ∀ op ∈ all, op.isLogical = false →
      (op.kind = .arithmetic ∨ op.kind = .comparison) ∧
      (op.right < (if op.level = powerLevel then op.level + 1 else op.level) ∨
        op.right = 5 ∧ (if op.level = powerLevel then op.level + 1 else op.level) = 5) ∧
      (if op.level = powerLevel then op.level + 1 else op.level) ≤ edge op.level := by decide
  obtain ⟨kinds, bound, inside⟩ := levels op op.mem_all plain
  have apart := not_starts before.found
  have found := before.found
  have same := before.kind
  cases read with
  | arithmetic e here kind operand use use' =>
    cases here.1.symm.trans found
    rw [before.level] at operand
    have settled := right.settle bound (before.follows.effect advanced) shown1 operand
    obtain ⟨table', grown, rfl⟩ := scalars_ok use use'
    refine settled.outcome ⟨ts ++ [t], by simp⟩ some inside (before.follows.effect e) rfl
      (fun compiled => ?_) rest
    rw [before.level]
    refine Compiled.grow ((before.compiled.behind advanced rfl rfl).binary compiled plain
      before.joint ?_ ?_) grown
    · split <;> omega
    · intro comparison
      refine Nat.le_of_eq ?_
      rw [before.kind, comparison, if_pos rfl]
  | _ => grind [Session.Operates]

lemma guarded_shown (run : guarded left conjunction lines right s = .ok g s') (sound : s.Sound) :
    s'.cursor.shown = s.cursor.shown := by
  obtain ⟨_, _, _, -, -, -, result⟩ := guarded_run sound left right conjunction lines
  rw [result] at run
  cases run
  rfl

lemma Before.logical
    (before : Before table s s1 l op t (ts' ++ k) left symbol) (isLogical : op.isLogical)
    (right : Simulated table context.printing false op.right ts' r)
    (front : ∀ t ∈ ts'.head?, IsFront (table.symbol t.symbol)) (some : ts' ≠ [])
    (read : Reads (.extension left context limit) s1 [g] s2)
    (rest : Reads (.goal (.rest g context limit)) s2 [f] s') :
    Outcome table s (.binary op l r) op.level context limit (ts ++ t :: ts') k f s' := by
  obtain ⟨advanced, shown1⟩ := before.advance
  have follows1 := before.follows.effect advanced
  have levels : ∀ op ∈ all, op.isLogical →
      op.right < op.level ∧ op.level ≤ edge op.level ∧ op.kind ≠ .comparison ∧
        (op.kind = .and ∨ op.kind = .or) ∧ (op = .and ↔ op.kind = .and) := by decide
  obtain ⟨bound, inside, compared, kinds, conjunction⟩ := levels op op.mem_all isLogical
  have apart := not_starts before.found
  have found := before.found
  have same := before.kind
  have left' := before.compiled.behind advanced rfl rfl
  cases read with
  | logical e here kind operand use use' done =>
    cases here.1.symm.trans found
    rw [before.level, follows1.pastLines_front shown1 front some] at operand
    have settled := right.settle (.inl bound) follows1 shown1 operand
    obtain ⟨table', grown, rfl⟩ := scalars_ok use use'
    have sound := operand.effect.sound.grows grown
    rcases done with ⟨none, rfl, rfl⟩ | ⟨hoisted, run⟩
    · refine settled.outcome ⟨ts ++ [t], by simp⟩ some inside (before.follows.effect e) rfl
        (fun compiled => ?_) rest
      rw [before.level]
      exact left'.logical (compiled.grow grown) rfl none before.joint compared
    · have test : decide (symbol.kind = .binary .and) = decide (op = .and) := by
        rw [before.kind]
        simp [conjunction]
      rw [test] at run
      have shown2 := guarded_shown run (sound.same rfl rfl)
      refine settled.outcome ⟨ts ++ [t], by simp⟩ some inside (before.follows.effect e) shown2
        (fun compiled => ?_) rest
      exact (left'.guarded isLogical (compiled.grow grown) rfl hoisted run).1.looser (Nat.zero_le _)
  | _ => grind [Session.Operates]

lemma ends_of_mark (marked : table.Marked)
    (spelling : key ∈ op.keys) (mark : IsMark key t) (le : limit ≤ op.level) :
    Ends table printing limit ts (t :: k) := by
  obtain ⟨symbol, found, -, level, -, -⟩ := operatorAt_of_mark marked spelling mark
  have kinds : ∀ kind, (table.symbol t.symbol).kind = kind →
      (∃ u b, kind = .ambiguous u b) ∨ ∃ op, kind = .binary op := by
    rintro kind rfl
    cases hk : (table.symbol t.symbol).kind with
    | ambiguous u b => exact .inl ⟨u, b, rfl⟩
    | binary op => exact .inr ⟨op, rfl⟩
    | _ => simp [operatorAt, hk] at found
  constructor
  · rintro _ ⟨⟩
    refine ⟨by simp [continues, found, level, Nat.not_lt.mpr le], ?_⟩
    rcases kinds _ rfl with ⟨u, b, kind⟩ | ⟨op, kind⟩ <;> simp [attaches, kind]
  · rintro ⟨_, -, -, _, ⟨⟩, kind, -⟩
    rcases kinds _ kind with ⟨u, b, kind⟩ | ⟨op, kind⟩ <;> cases kind

lemma binary_outcome (spelling : key ∈ op.keys) (mark : IsMark key t)
    (redirect : context.printing → op ≠ .greater)
    (left : Simulated table context.printing folded op.left ts l)
    (right : Simulated table context.printing false op.right ts' r) (some : ts ≠ [])
    (front : ∀ t ∈ ts'.head?, IsFront (table.symbol t.symbol)) (some' : ts' ≠ [])
    (below : op.level < limit) (follows : Follows table s)
    (begins : Begins table folded context limit (ts ++ t :: ts') k s f s') :
    Outcome table s (.binary op l r) op.level context limit (ts ++ t :: ts') k f s' := by
  have levels : ∀ op ∈ all, op.left ≤ op.level ∧ edge op.left ≤ op.level := by decide
  obtain ⟨le, inside⟩ := levels op op.mem_all
  have goes : continues table t context.printing limit = true := by
    obtain ⟨symbol, found, kind, level, spelled, -⟩ :=
      operatorAt_of_mark follows.marked spelling mark
    have only : ∀ op ∈ Operator.all, op.kind ≠ .colon ∧ op.kind ≠ .pipe ∧ op.kind ≠ .append ∧
        (">" ∈ op.keys → op = .greater) := by decide
    obtain ⟨colon, pipe, append, greater⟩ := only op op.mem_all
    have shown : context.printing = true → symbol.key ≠ ">" := fun printing same =>
      redirect printing (greater (same ▸ spelled ▸ spelling))
    simp only [continues, found, level, below, kind, redirects]
    cases printing : context.printing <;> cases which : op.kind <;> simp_all
  cases left rfl (.inl (Nat.lt_of_le_of_lt le below)) follows (begins.split some) with
  | reached compiled shown rest =>
    have follows1 := follows.effect compiled.effect
    obtain ⟨g', s2, read, rest⟩ := follows1.goes shown goes rest
    obtain ⟨symbol, found, kind, level, -, joint⟩ := operatorAt_of_mark follows1.here spelling mark
    have before : Before table s _ l op t (ts' ++ k) _ symbol :=
      ⟨compiled, follows1, shown, current shown ▸ found, kind, level, joint⟩
    cases isLogical : op.isLogical with
    | false => exact before.arithmetic isLogical right some' read rest
    | true => exact before.logical isLogical right front some' read rest
  | overrun h => exact absurd (ends_of_mark follows.marked spelling mark inside) h.not_ends
  | stuck h => exact .stuck h.append_right

lemma minus_outcome (left : Simulated table context.printing false 7 ts l)
    (right : Simulated table context.printing true 6 (t :: ts') r)
    (literal : IsNumber table t true digits) (below : 7 < limit) (follows : Follows table s)
    (shown : s.cursor.shown = ts ++ t :: ts' ++ k)
    (read : Reads (.goal (.operation context limit)) s [f] s') :
    Outcome table s (.binary .minus l r) 7 context limit (ts ++ t :: ts') k f s' := by
  have folded : Text.startsWith "-" (table.symbol t.symbol).key := by
    rw [literal.key, if_pos rfl, startsWith_minus]
    rfl
  have begins : Begins table false context limit ts (t :: ts' ++ k) s f s' :=
    ⟨by simpa using shown, read⟩
  cases left rfl (.inl below) follows begins with
  | @reached g s1 compiled shown rest =>
    have follows1 := follows.effect compiled.effect
    have here := literal.grows follows1.grows
    have word := symbol_shown shown
    have kind : s1.symbol.kind = .number := word ▸ here.kind
    have goes : continues table t context.printing limit = true := by
      simp [continues, operatorAt, literal.kind, folded, additiveLevel, below]
    obtain ⟨g', s2, read, rest⟩ := follows1.goes shown goes rest
    obtain ⟨advanced, shown1⟩ := follows1.advance shown (by simp [isInner, here.kind])
    have follows2 := follows1.effect advanced
    cases read with
    | subtraction e _ _ _ operand use =>
      rw [word, python_of_word (follows1.word (t := t) (by simp [shown]))] at operand
      have begins' : Begins table true context additiveLevel (t :: ts') k s1.past _ _ :=
        ⟨t, ts', rfl, shown1, operand⟩
      have settled := (right rfl (.inl (by decide)) follows2 begins').settle follows2 (by decide)
      obtain ⟨table', grown, rfl⟩ := useAsScalar_ok use
      refine settled.outcome ⟨ts, rfl⟩ (by simp) (by decide) (follows1.effect e) rfl
        (fun compiled' => ?_) rest
      refine Compiled.grow ?_ grown
      have joint : ("-", minus.python) ∈ Python.joints := by decide
      exact (compiled.behind advanced rfl rfl).binary compiled' rfl joint (by decide) (by decide)
    | concatenation _ _ _ _ _ _ unsigned =>
      have positive := unsigned kind
      rw [word, here.key, if_pos rfl, startsWith_minus] at positive
      cases positive
    | _ => grind [Session.Operates, operatorAt]
  | overrun h =>
    refine absurd ⟨?_, ?_⟩ h.not_ends
    · rintro _ ⟨⟩
      simp [continues, attaches, operatorAt, literal.kind, folded, additiveLevel, edge]
    · rintro ⟨_, -, -, _, ⟨⟩, kind, -⟩
      simp [literal.kind] at kind
  | stuck h => exact .stuck h.append_right

lemma concat_outcome (left : Simulated table context.printing false 8 ts l)
    (right : Simulated table context.printing false 7 (t :: ts') r)
    (ends : ∃ before last, ts = before ++ [last] ∧ endsOperand (table.symbol last.symbol) = true)
    (front : IsFront (table.symbol t.symbol)) (unsigned : operatorAt table t = none)
    (apart : ¬Calls table ts (t :: ts')) (below : 8 < limit) (follows : Follows table s)
    (shown : s.cursor.shown = ts ++ t :: ts' ++ k)
    (read : Reads (.goal (.operation context limit)) s [f] s') :
    Outcome table s (.concat l r) 8 context limit (ts ++ t :: ts') k f s' := by
  have begins : Begins table false context limit ts (t :: ts' ++ k) s f s' :=
    ⟨by simpa using shown, read⟩
  cases left rfl (.inl below) follows begins with
  | @reached g s1 compiled shown rest =>
    have follows1 := follows.effect compiled.effect
    have word := follows1.word (t := t) (by simp [shown])
    have symbol := symbol_shown shown
    rcases front with ⟨starts, -, number⟩ | ⟨u, b, kind⟩ | kind
    · have goes : continues table t context.printing limit = true := by
        simp only [continues, unsigned, starts]
        rw [if_neg (by simpa using number)]
        simp [concatenationLevel, below]
      obtain ⟨g', s2, read, rest⟩ := follows1.goes shown goes rest
      have none : operatorAt s1.table s1.cursor.current = none := by
        rw [← startsOperand_of_word word] at starts
        rw [current shown, operatorAt]
        cases kind : (s1.table.symbol t.symbol).kind <;> simp_all [startsOperand]
      cases read with
      | concatenation e _ _ operand use use' =>
        have settled := right.settle (.inl (by decide)) follows1 shown operand
        obtain ⟨table', grown, rfl⟩ := scalars_ok use use'
        refine settled.outcome ⟨ts, rfl⟩ (by simp) (by decide) (follows1.effect e) rfl
          (fun compiled' => ?_) rest
        exact ((compiled.concat compiled').grow grown).looser (Nat.zero_le _)
      | subtraction _ kind negative =>
        rw [symbol] at kind negative
        rw [key_of_word word, number (kind_of_word word.symm kind (by simp))] at negative
        cases negative
      | _ => grind [Session.Operates]
    · simp [operatorAt, kind] at unsigned
    · -- a negation does not go on with the operand before it
      have same : s' = s1 := by
        rcases follows1.rest shown rest with ⟨-, same⟩ | ⟨_, ⟨⟩, goes⟩
        · exact same
        · simp [continues, operatorAt, startsOperand, kind] at goes
      subst same
      obtain ⟨before, last, split, ends⟩ := ends
      exact .stuck ⟨before, last, t, ts', by simp [split], ends, kind, shown⟩
  | overrun h =>
    refine absurd ⟨?_, ?_⟩ h.not_ends
    · rintro _ ⟨⟩
      rcases front with ⟨starts, -, number⟩ | ⟨u, b, kind⟩ | kind
      · constructor
        · simp only [continues, unsigned]
          split
          case isTrue folded =>
            simp only [Bool.and_eq_true, decide_eq_true_eq] at folded
            rw [number folded.1] at folded
            cases folded.2
          case isFalse => simp [edge, concatenationLevel]
        · cases hk : (table.symbol t.symbol).kind with
          | bracket bracket => cases bracket <;> simp_all [startsOperand, attaches]
          | unary => simp [startsOperand, hk] at starts
          | _ => simp [attaches, hk]
      · simp [operatorAt, kind] at unsigned
      · simp [continues, attaches, operatorAt, startsOperand, kind]
    · exact apart
  | stuck h => exact .stuck h.append_right

lemma ends_of_colon (kind : (table.symbol t.symbol).kind = .binary .colon) :
    Ends table printing limit ts (t :: k) := by
  constructor
  · rintro _ ⟨⟩
    simp [continues, attaches, operatorAt, kind]
  · rintro ⟨_, -, -, _, ⟨⟩, kind', -⟩
    simp [kind] at kind'

lemma choice_shown (run : choice left thenLines yes elseLines no s = .ok g s') (sound : s.Sound) :
    s'.cursor.shown = s.cursor.shown := by
  obtain ⟨_, _, _, _, -, -, -, -, result⟩ := choice_run sound left yes no thenLines elseLines
  rw [result] at run
  cases run
  rfl

lemma choose_outcome (hq : IsMark "?" question) (hc : IsMark ":" colon)
    (first : Simulated table context.printing false 18 ts test)
    (second : Simulated table context.printing false 19 ts' yes)
    (third : Simulated table context.printing false 19 ts'' no)
    (front' : ∀ t ∈ ts'.head?, IsFront (table.symbol t.symbol)) (some' : ts' ≠ [])
    (front'' : ∀ t ∈ ts''.head?, IsFront (table.symbol t.symbol)) (some'' : ts'' ≠ [])
    (below : 19 < limit) (follows : Follows table s)
    (shown : s.cursor.shown = ts ++ question :: (ts' ++ colon :: ts'') ++ k)
    (read : Reads (.goal (.operation context limit)) s [f] s') :
    Outcome table s (.choose test yes no) 19 context limit
      (ts ++ question :: (ts' ++ colon :: ts'')) k f s' := by
  have begins : Begins table false context limit ts
      (question :: (ts' ++ colon :: (ts'' ++ k))) s f s' := ⟨by simpa using shown, read⟩
  have asks := kind_of_mark (.binary .question) follows.marked hq (by decide) (by simp)
  have level : (table.symbol question.symbol).awkLevel = ternaryLevel :=
    awkLevel_of_word (word_of_mark 39 follows.marked hq (by decide) (by decide)).2
  have colonKind := kind_of_mark (.binary .colon) follows.marked hc (by decide) (by simp)
  cases first rfl (.inl (by omega)) follows begins with
  | @reached g s1 compiled shown rest =>
    have follows1 := follows.effect compiled.effect
    have goes : continues table question context.printing limit = true := by
      simp [continues, operatorAt, asks, level, redirects, ternaryLevel, below]
    obtain ⟨g', s2, read, rest⟩ := follows1.goes shown goes rest
    have here := kind_of_mark (.binary .question) follows1.here hq (by decide) (by simp)
    have found : operatorAt s1.table s1.cursor.current =
      some (s1.table.symbol question.symbol) := by
      rw [current shown]
      exact operatorAt_binary here
    have apart := not_starts found
    obtain ⟨advanced, shown1⟩ := follows1.advance shown (by simp [isInner, here])
    have follows2 := follows1.effect advanced
    cases read with
    | conditional e _ _ yesRead between noRead use use' use'' done =>
      rw [follows2.pastLines_front shown1 front' some'] at yesRead
      have follows3 := follows2.effect yesRead.effect
      rcases second.settle (.inl (by decide)) follows2 shown1 yesRead with
        ⟨compiledYes, shown3⟩ | overrun | stuck
      · have colonKind3 := kind_of_word (follows3.word (t := colon) (by simp [shown3])) colonKind
          (by simp)
        obtain ⟨advanced3, shown4⟩ := follows3.advance shown3 (by simp [isInner, colonKind3])
        have follows4 := follows3.effect advanced3
        rw [follows3.pastLines_eq shown3 (by simp [colonKind]),
          follows4.pastLines_front shown4 front'' some''] at noRead
        have settled := third.settle (.inl (by decide)) follows4 shown4 noRead
        obtain ⟨table1, grown1, rfl⟩ := scalars_ok use use'
        obtain ⟨table2, grown2, rfl⟩ := useAsScalar_ok use''
        have grown := Table.Grows.trans grown1 grown2
        have sound := noRead.effect.sound.grows grown
        have test' := compiled.behind advanced rfl rfl
        have yes' := compiledYes.behind advanced3 rfl rfl
        have split' : ∃ before, ts ++ question :: (ts' ++ colon :: ts'') = before ++ ts'' :=
          ⟨ts ++ question :: (ts' ++ [colon]), by simp⟩
        rcases done with ⟨none, rfl, rfl⟩ | ⟨hoisted, run⟩
        · refine settled.outcome split' some'' (by decide) (follows1.effect e) rfl
            (fun compiled' => ?_) rest
          exact (test'.choose yes' (compiled'.grow grown) rfl rfl
            (Bool.and_eq_true_iff.mp none)).looser
            (Nat.zero_le _)
        · have shown5 := choice_shown run (sound.same rfl rfl)
          refine settled.outcome split' some'' (by decide) (follows1.effect e) shown5
            (fun compiled' => ?_) rest
          exact (test'.chosen yes' (compiled'.grow grown) rfl rfl hoisted run).1.looser
            (Nat.zero_le _)
      · exact absurd (ends_of_colon colonKind) overrun.not_ends
      · rw [follows3.pastLines_eq rfl (by simp [stuck.current]), stuck.kind follows3] at between
        cases between
    | _ => grind [Session.Operates]
  | overrun h =>
    refine absurd ⟨?_, ?_⟩ h.not_ends
    · rintro _ ⟨⟩
      simp [continues, attaches, operatorAt, asks, level, ternaryLevel, edge]
    · rintro ⟨_, -, -, _, ⟨⟩, kind', -⟩
      simp [asks] at kind'
  | stuck h => exact .stuck (Stuck.append_right (by simpa using h))

end Operators

end AwkToPython.Awk
