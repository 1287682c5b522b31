import AwkToPython.Proofs.Expression.Climbing

/-!
# Compiling follows every derivation

The arguments of a substitution are compiled in order, and its statements are
written behind those of its arguments. With this every rule of the grammar is
followed, and so is every derivation.
-/
namespace AwkToPython.Awk

variable {e : Expr ι} {context : Context} {level limit : Nat} {ts : List Token}

open Expression Compile AwkToPython.Symbol Follows

variable {ι : Type} {table : Table}
variable {printing : Bool} {text : String} {s s' : Session} {k : List Token} {f : Fragment}

section Arguments

variable {s s1 s' : Session} {f : Fragment} {fs : List Fragment} {ts k : List Token} {t : Token}
  {e : Expr ι}

namespace Carried

lemma before (e' : s.Effect s1) (listing : s1.listing = s.listing)
    (count : s1.temporaries = s.temporaries) (h : Carried s1 s' e) : Carried s s' e := by
  obtain ⟨t, b, v, same, places⟩ := h
  exact ⟨t, b, v, same, places.before e' listing count⟩

lemma behind (h : Carried s s1 e) (e' : s1.Effect s') (listing : s'.listing = s1.listing)
    (count : s'.temporaries = s1.temporaries) : Carried s s' e := by
  obtain ⟨t, b, v, same, places⟩ := h
  exact ⟨t, b, v, same, places.behind e' listing count⟩

end Carried

/-- An argument is carried out if what comes behind it is no negation. -/
lemma Settled.carried (h : Settled table s e level printing limit ts k f s')
    (ends : Ends table printing limit ts k) (follows : Follows table s')
    (plain : s'.symbol.kind ≠ .unary .not) : Carried s s' e ∧ s'.cursor.shown = k := by
  cases h with
  | done compiled shown => exact ⟨compiled.carried, shown⟩
  | overrun h => exact absurd ends h.not_ends
  | stuck h => exact absurd (h.kind follows) plain

/-- The first argument of a substitution is followed up to a comma. -/
def PatternFollowed (table : Table) (ts : List Token) (e : Expr ι) : Prop :=
  ∀ {s s' : Session} {f : Fragment} {k : List Token}, Follows table s → s.cursor.shown = ts ++ k →
    Ends table false anyLevel ts k → Reads (.regex {} anyLevel) s [f] s' →
    s'.symbol.kind = .comma → Carried s s' e ∧ s'.cursor.shown = k

/-- The last argument of a substitution is followed up to the parenthesis. -/
def TargetFollowed (table : Table) (ts : List Token) (e : Expr ι) : Prop :=
  ∀ {s s' : Session} {fs : List Fragment} {t : Token} {k : List Token}, Follows table s →
    s.cursor.shown = ts ++ t :: k → (table.symbol t.symbol).kind = .bracket .closeParen →
    Reads .substituted s fs s' → s'.symbol.kind = .bracket .closeParen →
    Carried s s' e ∧ s'.cursor.shown = t :: k

lemma regex_followed (kind : (table.symbol t.symbol).kind = .regex) :
    PatternFollowed table [t] (.string (table.symbol t.symbol).key : Expr ι) := by
  intro s s' f k follows shown _ read _
  have here := kind_of_word (follows.word (t := t) (by simp [shown])) kind (by simp)
  have regex : s.symbol.kind = .regex := by rw [symbol_shown shown, here]
  cases read with
  | regex =>
    obtain ⟨advanced, shown1⟩ := follows.advance shown (by simp [isInner, here])
    exact ⟨⟨.string _, .done, _, rfl, .leaf advanced rfl rfl (.string _)⟩, shown1⟩
  | literalRegex _ _ _ _ _ _ plain | dynamicRegex _ _ _ plain => exact absurd regex plain

lemma dynamic_followed (inner : Simulated table false false 19 ts e)
    (front : ∀ t ∈ ts.head?, IsFront (table.symbol t.symbol)) (some : ts ≠ []) :
    PatternFollowed table ts e := by
  intro s s' f k follows shown ends read comma
  have behind := follows.effect read.effect
  cases read with
  | regex _ kind =>
    cases ts with
    | nil => exact absurd rfl some
    | cons t ts =>
      rw [symbol_shown shown] at kind
      have mem : t ∈ s.cursor.shown := by simp [shown]
      exact absurd (kind_of_word (follows.word mem).symm kind (by simp)) (front t rfl).plain.2
  | literalRegex _ operand use literal string made =>
    have settled := inner.settle (.inl (by decide)) follows shown operand
    have sound := operand.effect.sound
    obtain ⟨table1, grown, rfl⟩ := useAsScalar_ok use
    subst made
    -- a string that is used as a regex adds an entry to the table
    have added := Table.grows_regexForString _ ((sound.grows grown).proper.regular _) string
    exact ((settled.grow grown).grow added).carried ends behind (by simp [comma])
  | dynamicRegex _ operand use =>
    have settled := inner.settle (.inl (by decide)) follows shown operand
    obtain ⟨table1, grown, rfl⟩ := useAsScalar_ok use
    exact (settled.grow grown).carried ends behind (by simp [comma])

lemma record_followed : TargetFollowed table [] (.field 0 : Expr ι) := by
  intro s s' fs t k follows shown kind read _
  cases read with
  | substitutedRecord e => exact ⟨⟨.field 0, .done, _, rfl, .leaf e rfl rfl (.field 0)⟩, shown⟩
  | substituted _ comma =>
    rw [symbol_shown shown] at comma
    have here := kind_of_word (follows.word (t := t) (by simp [shown])) kind (by simp)
    cases comma.symm.trans here

lemma given_followed (separator : IsMark "," comma) (inner : Simulated table false false 19 ts e)
    (front : ∀ t ∈ ts.head?, IsFront (table.symbol t.symbol)) (some : ts ≠ []) :
    TargetFollowed table (comma :: ts) e := by
  intro s s' fs t k follows shown kind read closed
  have here := kind_of_mark .comma follows.here separator (by decide) (by simp)
  have behind := follows.effect read.effect
  cases read with
  | substitutedRecord =>
    rw [symbol_shown shown, here] at closed
    cases closed
  | substituted _ _ read =>
    obtain ⟨advanced, shown1⟩ := follows.advance shown (by simp [isInner, here])
    have follows1 := follows.effect advanced
    rw [follows1.pastLines_front shown1 front some] at read
    obtain ⟨carried, shown2⟩ := (inner.whole (by decide) follows1 shown1 read).carried
      (ends_of_kind (.inl kind)) behind (by simp [closed])
    exact ⟨carried.before advanced rfl rfl, shown2⟩

lemma call_outcome {label : ι} {pattern replacement' target' : Expr ι}
    {name before comma behind : Token}
    (isName : IsSubstitution table name) (opening : IsMark "(" before)
    (first : PatternFollowed table ts pattern) (separator : IsMark "," comma)
    (second : Simulated table false false 19 ts' replacement')
    (front : ∀ t ∈ ts'.head?, IsFront (table.symbol t.symbol)) (some : ts' ≠ [])
    (third : TargetFollowed table ts'' target') (closing : IsMark ")" behind)
    (ends : ∀ limit, Ends table false limit ts' (ts'' ++ behind :: k)) (follows : Follows table s)
    (shown : s.cursor.shown = name :: before :: (ts ++ comma :: (ts' ++ (ts'' ++ [behind]))) ++ k)
    (read : Reads (.goal (.operation context limit)) s [f] s') :
    Outcome table s (.call label pattern replacement' target') 0 context limit
      (name :: before :: (ts ++ comma :: (ts' ++ (ts'' ++ [behind])))) k f s' := by
  obtain ⟨everywhere, here⟩ := isName.grows follows.grows
  have kind : s.symbol.kind = .function { strategy := .substitute everywhere } := by
    rw [symbol_shown shown, here]
  have shown' : s.cursor.shown =
      name :: before :: (ts ++ comma :: (ts' ++ (ts'' ++ behind :: k))) := by simpa using shown
  have commaKind := kind_of_mark .comma follows.marked separator (by decide) (by simp)
  have closeKind := kind_of_mark (.bracket .closeParen) follows.marked closing (by decide) (by simp)
  refine operand_outcome follows (by simp [startsOperand, kind]) read fun left s0 read => .inl ?_
  obtain ⟨s1, library, read⟩ : ∃ s1, (none : Option String).forM requireLibrary s = .ok () s1 ∧
      Reads (.call { strategy := .substitute everywhere } context) s1 [left] s0 := by
    cases read with
    | function _ found library read =>
      cases found.symm.trans kind
      exact ⟨_, library, read⟩
    | _ => simp_all
  cases library
  cases read with
  | substitute e _ _ h1 found1 h2 h3 found3 _ lines =>
    obtain ⟨passed0, shown0⟩ := follows.advance shown' (by simp [isInner, here])
    have follows0 := follows.effect passed0
    have openKind := kind_of_mark (.bracket .openParen) follows0.here opening (by decide) (by simp)
    obtain ⟨passed1, shown1⟩ := follows0.advance shown0 (by simp [isInner, openKind])
    have follows1 := follows0.effect passed1
    have follows2 := follows1.effect h1.effect
    obtain ⟨carried1, shown2⟩ := first follows1 shown1 (ends_of_kind (.inr commaKind)) h1 found1
    have inner2 := kind_of_word (follows2.word (t := comma) (by simp [shown2])) commaKind (by simp)
    obtain ⟨passed2, shown3⟩ := follows2.advance shown2 (by simp [isInner, inner2])
    have follows3 := follows2.effect passed2
    rw [follows3.pastLines_front shown3 front some] at h2
    have follows4 := follows3.effect h2.effect
    -- a comma or the parenthesis is found behind the second argument
    obtain ⟨carried2, shown4⟩ := (second.whole (by decide) follows3 shown3 h2).carried (ends _)
      follows4 (by cases h3 <;> simp_all)
    have follows5 := follows4.effect h3.effect
    obtain ⟨carried3, shown5⟩ := third follows4 shown4 closeKind h3 found3
    have inner5 := kind_of_word (follows5.word (t := behind) (by simp [shown5])) closeKind (by simp)
    obtain ⟨passed5, shown6⟩ := follows5.advance shown5 (by simp [isInner, inner5])
    have counted := (Session.Effect.refl (follows5.effect passed5).sound).count (Nat.le_succ _)
    have plain := fun g (mem : g ∈ List.head? _) => h3.isPlain trivial g (List.mem_of_head? mem)
    have effect := counted.trans ((moves_writeSubstitution _ _ plain).ok counted.sound lines)
    have whole := Compiled.call label
      ((carried1.before (passed0.trans passed1) rfl rfl).behind passed2 rfl rfl) carried2
      (carried3.behind passed5 rfl rfl) (writeSubstitution_run counted.sound _ _ _) effect lines
    exact ⟨whole.1, whole.2.trans shown6⟩
  | _ => simp_all

end Arguments

/-! ### Derivations -/

lemma Outcome.looser (h : Outcome table s e level context limit ts k f s')
    (le : level ≤ level') : Outcome table s e level' context limit ts k f s' := by
  cases h with
  | reached compiled shown rest => exact .reached (compiled.looser le) shown rest
  | overrun h => exact .overrun (h.mono (edge_mono le) (Nat.le_refl _))
  | stuck h => exact .stuck h

/-- A folded literal is an operand already when its operation starts. -/
lemma folded_outcome (h : IsNumber table t true digits)
    (follows : Follows table s) (begins : Begins table true context limit [t] k s f s') :
    Outcome table s (.number digits : Expr ι) 0 context limit [t] k f s' := by
  obtain ⟨_, _, same, shown, read⟩ := begins
  cases same
  refine .reached ⟨⟨.number digits, .done, _, rfl,
    .leaf (.refl follows.sound) rfl rfl (.number digits),
    ?_⟩, Nat.le_refl _, Nat.zero_le _, rfl, fun _ => rfl⟩ shown read
  rw [h.python, h.key, if_pos rfl, h.digits.unfolded]
  exact .number h.digits

/-- Compiling follows what is derived. -/
def Followed (table : Table) : Form → List Token → Expr ι → Prop
  | .operation printing folded level, ts, e => Simulated table printing folded level ts e
  | .pattern, ts, e => PatternFollowed table ts e
  | .target, ts, e => TargetFollowed table ts e

/-- The tokens of an operation start with an operand, a sign or a negation. -/
lemma Derives.starts
    (h : Derives table (.operation printing false level) ts e) (marked : table.Marked) :
    ts ≠ [] ∧ ∀ t ∈ ts.head?, IsFront (table.symbol t.symbol) := by
  obtain ⟨t, rest, rfl, front⟩ := h.front marked rfl
  refine ⟨by simp, ?_⟩
  rintro _ ⟨⟩
  exact front

lemma Derives.followed (h : Derives table form ts e)
    (marked : table.Marked) : Followed table form ts e := by
  induction h with
  | var h =>
    rintro _ _ _ _ _ _ rfl _ follows ⟨shown, read⟩
    exact var_outcome follows shown read h
  | @number _ folded _ _ h =>
    rintro _ _ _ _ _ _ rfl _ follows begins
    cases folded with
    | true => exact folded_outcome h follows begins
    | false => exact number_outcome follows begins.1 begins.2 h
  | string h =>
    rintro _ _ _ _ _ _ rfl _ follows ⟨shown, read⟩
    exact string_outcome follows shown read h
  | field h =>
    rintro _ _ _ _ _ _ rfl _ follows ⟨shown, read⟩
    exact field_outcome follows shown read h
  | group opening inner closing ih =>
    rintro _ _ _ _ _ _ rfl _ follows ⟨shown, read⟩
    obtain ⟨some, front⟩ := inner.starts marked
    exact group_outcome opening ih closing front some follows shown read
  | looser _ le ih =>
    rintro _ _ _ _ _ _ rfl bound follows begins
    exact (ih rfl (by omega) follows begins).looser le
  | sign mark inner ih =>
    rintro _ _ _ _ _ _ rfl _ follows ⟨shown, read⟩
    exact sign_outcome mark ih (inner.starts marked).1 follows shown read
  | not mark inner ih =>
    rintro _ _ _ _ _ _ rfl _ follows ⟨shown, read⟩
    exact not_outcome mark ih (inner.starts marked).1 follows shown read
  | @binary _ _ op _ _ _ _ _ _ spelling mark redirect left right hl hr =>
    rintro _ _ _ _ _ _ rfl bound follows begins
    obtain ⟨t, rest, rfl, -⟩ := left.front marked rfl
    obtain ⟨some', front⟩ := right.starts marked
    have level : ∀ op ∈ Operator.all, op.level ≠ 5 := by decide
    have := level op op.mem_all
    exact binary_outcome spelling mark redirect hl hr (by simp) front some'
      (by omega) follows begins
  | minus _ right hl hr =>
    rintro _ _ _ _ _ _ rfl bound follows ⟨shown, read⟩
    obtain ⟨t, rest, rfl, digits, literal⟩ := right.front marked rfl
    exact minus_outcome hl hr literal (by omega) follows shown read
  | concat left right unsigned apart hl hr =>
    rintro _ _ _ _ _ _ rfl bound follows ⟨shown, read⟩
    obtain ⟨t, rest, rfl, front⟩ := right.front marked rfl
    exact concat_outcome hl hr (left.ends marked rfl) front (unsigned t rfl) apart
      (by omega) follows
      shown read
  | choose hq hc _ second third h1 h2 h3 =>
    rintro _ _ _ _ _ _ rfl bound follows ⟨shown, read⟩
    obtain ⟨some', front'⟩ := second.starts marked
    obtain ⟨some'', front''⟩ := third.starts marked
    exact choose_outcome hq hc h1 h2 h3 front' some' front'' some'' (by omega) follows shown read
  | @call _ label _ _ _ behind _ _ _ _ _ _ name opening _ separator second third closing h1 h2 h3 =>
    rintro _ _ _ _ _ k rfl _ follows ⟨shown, read⟩
    obtain ⟨some', front⟩ := second.starts marked
    refine call_outcome name opening h1 separator h2 front some' h3 closing ?_ follows shown read
    intro limit
    have close := kind_of_mark (.bracket .closeParen) marked closing (by decide) (by simp)
    cases third with
    | record => exact ends_of_kind (.inl close)
    | given separator _ =>
      exact ends_of_kind (.inr (kind_of_mark .comma marked separator (by decide) (by simp)))
  | regex kind => exact regex_followed kind
  | dynamic h ih =>
    obtain ⟨some', front⟩ := h.starts marked
    exact dynamic_followed ih front some'
  | record => exact record_followed
  | given separator h ih =>
    obtain ⟨some', front⟩ := h.starts marked
    exact given_followed separator ih front some'

end AwkToPython.Awk
