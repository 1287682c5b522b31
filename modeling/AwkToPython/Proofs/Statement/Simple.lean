import AwkToPython.Proofs.Statement.Spelling

/-!
# Simple statements are compiled as their trees say

Each construct is given a compiler for the statements inside it. If it succeeds,
the tokens it has passed spell a tree, and the lines it has written are those of
the tree's Python block.
-/
namespace AwkToPython

variable {f : Fragment} {word : Keyword}

open Python (Block Written Shows IsPlain)

/-! ### What is passed and written -/

namespace Session

variable {s s' s'' : Session} {ks ks' : List SymbolKind} {b b' : Block String}

lemma kinds_grows (sound : s.Sound) (g : s.table.Grows s'.table)
    (mem : ∀ t ∈ ts, t ∈ s.cursor.shown) : s'.kinds ts = s.kinds ts := by
  refine List.map_congr_left fun t ht => ?_
  have mem' : t ∈ s.cursor.tokens :=
    ((Cursor.visible_sublist _).cons_cons s.cursor.current).mem (mem t ht)
  exact Symbol.bare_of_word (g.word _ (sound.tokens t mem').valid)

namespace Passed

lemma refl (sound : s.Sound) : s.Passed s [] :=
  ⟨sound, ⟨[], by simp [kinds]⟩, .refl _, Nat.le_refl _, sound⟩

lemma trans (h : s.Passed s' ks) (h' : s'.Passed s'' ks') : s.Passed s'' (ks ++ ks') := by
  obtain ⟨ts, shown, rfl⟩ := h.shown
  obtain ⟨ts', shown', rfl⟩ := h'.shown
  refine ⟨h.start, ⟨ts ++ ts', by rw [shown, shown', List.append_assoc], ?_⟩,
    h.table.trans h'.table, Nat.le_trans h.temporaries h'.temporaries, h'.sound⟩
  have ahead : ∀ t ∈ ts', t ∈ s.cursor.shown := by
    rw [shown, shown']
    simp +contextual
  rw [kinds_grows h.start h.table ahead]
  simp [kinds]

/-- Where nothing was passed the current token is the same. -/
lemma kind_eq (h : s.Passed s' []) : s'.symbol.kind.bare = s.symbol.kind.bare := by
  obtain ⟨ts, shown, none⟩ := h.shown
  rw [List.map_eq_nil_iff.mp none, List.nil_append] at shown
  have current : s'.cursor.current = s.cursor.current := (List.cons.inj shown).1.symm
  rw [Session.symbol, current]
  exact Symbol.bare_of_word (h.table.word _ h.start.current.valid)

lemma relist (h : s.Passed s' ks) (l l' : Listing) :
    Passed { s with listing := l } { s' with listing := l' } ks :=
  ⟨h.start.same rfl rfl, h.shown, h.table,
    h.temporaries, h.sound.same rfl rfl⟩

lemma written (h : s.Passed s' ks) (ls : List String) : s.Passed (s'.written ls) ks :=
  ⟨h.start, h.shown, h.table, h.temporaries, h.sound.written ls⟩

lemma count (h : s.Passed s' ks) (more : s'.temporaries ≤ n) :
    s.Passed { s' with temporaries := n } ks :=
  ⟨h.start, h.shown, h.table, Nat.le_trans h.temporaries more,
    h.sound.same rfl rfl⟩

lemma grow (h : s.Passed s' ks) (g : s'.table.Grows t) : s.Passed { s' with table := t } ks :=
  ⟨h.start, h.shown, h.table.trans g, h.temporaries, h.sound.grows g⟩

lemma advance (h : s.Passed s' ks) (kind : s'.symbol.kind.bare = k)
    (inner : k ≠ .endOfInput) : s.Passed { s' with cursor := s'.cursor.advance } (ks ++ [k]) := by
  have ne : s'.symbol.kind ≠ .endOfInput := fun e => inner (by rw [← kind, e]; rfl)
  refine h.trans ⟨h.sound, ⟨[s'.cursor.current], h.sound.shown_advance ne, ?_⟩, .refl _,
    Nat.le_refl _, h.sound.advance⟩
  rw [← kind]
  rfl

lemma skip {p : Token → Bool} (h : s.Passed s' ks) (stop : p s'.cursor.last = false) :
    ∃ ks', s.Passed { s' with cursor := s'.cursor.skip p } (ks ++ ks') ∧
      ∀ k ∈ ks', ∃ t ∈ s'.cursor.tokens, p t = true ∧
        (s'.table.symbol t.symbol).kind.bare = k := by
  obtain ⟨ts, shown, all⟩ := Cursor.skipWhile_shown (s'.cursor.remaining + 1) h.sound.lastWord stop
  refine ⟨s'.kinds ts, h.trans ⟨h.sound, ⟨ts, shown, rfl⟩, .refl _, Nat.le_refl _, h.sound.skip p⟩,
    ?_⟩
  intro k hk
  obtain ⟨t, ht, rfl⟩ := List.mem_map.mp hk
  have mem : t ∈ s'.cursor.shown := by
    rw [shown]
    simp [ht]
  exact ⟨t, ((Cursor.visible_sublist _).cons_cons s'.cursor.current).mem mem, all t ht, rfl⟩

lemma skipNewlines (h : s.Passed s' ks) :
    ∃ ks', s.Passed { s' with cursor := s'.cursor.skip Token.isNewline } (ks ++ ks') ∧
      Awk.Newlines ks' := by
  obtain ⟨ks', passed, all⟩ := h.skip h.sound.last_not_newline
  refine ⟨ks', passed, fun k hk => ?_⟩
  obtain ⟨t, mem, line, rfl⟩ := all k hk
  rw [(h.sound.tokens t mem).newline line]
  rfl

lemma skipTerminators (h : s.Passed s' ks) : ∃ ks', s.Passed { s' with
      cursor := s'.cursor.skip fun t => (s'.table.symbol t.symbol).isConsumedTerminator }
        (ks ++ ks') ∧ Awk.Separators ks' := by
  obtain ⟨ks', passed, all⟩ := h.skip
    (p := fun t => (s'.table.symbol t.symbol).isConsumedTerminator)
    (by rw [Symbol.isConsumedTerminator, h.sound.ends])
  refine ⟨ks', passed, fun k hk => ?_⟩
  obtain ⟨t, mem, consumed, rfl⟩ := all k hk
  rw [Symbol.isConsumedTerminator] at consumed
  cases e : (s'.table.symbol t.symbol).kind with
  | terminator taken collapsed =>
    rw [e] at consumed
    cases consumed
    exact ⟨collapsed, rfl⟩
  | _ =>
    rw [e] at consumed
    cases consumed

end Passed

lemma Effect.passed (h : s.Effect s') : ∃ ks, s.Passed s' ks ∧ ∀ k ∈ ks, k.isFlat = true := by
  obtain ⟨ts, shown, inner⟩ := h.shown
  refine ⟨s.kinds ts, ⟨h.start, ⟨ts, shown, rfl⟩, h.table, h.temporaries, h.sound⟩, fun k hk => ?_⟩
  obtain ⟨t, ht, rfl⟩ := List.mem_map.mp hk
  exact Symbol.isFlat_of_isInner (inner t ht)

lemma Effect.wrote (h : s.Effect s') : ∃ b, s.Wrote 0 s' b ∧ b.Straight := by
  obtain ⟨b, ls, same, straight, written⟩ := h.listing
  exact ⟨b, ⟨ls, same, written⟩, straight⟩

namespace Wrote

variable {levels : Nat}

lemma nothing (same : s'.listing = s.listing) : s.Wrote levels s' .done :=
  ⟨[], by simp [same], .done⟩

lemma trans (h : s.Wrote levels s' b) (h' : s'.Wrote levels s'' b') :
    s.Wrote levels s'' (b ++ b') := by
  obtain ⟨ls, same, written⟩ := h
  obtain ⟨ls', same', written'⟩ := h'
  rw [same, Listing.extend_toPosition] at written'
  exact ⟨ls ++ ls', by rw [same', same, Listing.extend_extend], written.append written'⟩

end Wrote

end Session

lemma Awk.Head.behind (h : Awk.Head test s s1 ks) (p : s1.Passed s' []) :
    Awk.Head test s s' ks := by
  obtain ⟨first, opening, h, last, closing⟩ := h
  have closing' := closing.trans p
  rw [List.append_nil] at closing'
  exact .mk first opening h last closing'

/-! ### Statements that hold no other -/

open Compile SymbolKind AwkToPython.Symbol Session Expression

namespace Compile

variable {s s' : Session} {text : String}

lemma emit_ok (sound : s.Sound) (h : emit text s = .ok () s') :
    ∃ ls, s' = s.written ls ∧ Shows s.listing.depth text ls := by
  obtain ⟨ls, run, shows⟩ := emit_run sound text
  rw [run] at h
  cases h
  exact ⟨ls, rfl, shows⟩

lemma Moves.gives {x : Compile Fragment} (moves : Moves x) (sound : s.Sound)
    (run : x s = .ok f s') : ∃ ks lines, Awk.Gives x s s' ks lines f := by
  have effect := moves.ok sound run
  obtain ⟨ks, passed, -⟩ := effect.passed
  obtain ⟨lines, wrote, straight⟩ := effect.wrote
  exact ⟨ks, lines, run, passed, wrote, straight⟩

end Compile

namespace Statement

variable {s s' : Session}

lemma parenthesisedCondition_ok (sound : s.Sound)
    (h : parenthesisedCondition s = .ok f s') : ∃ ks lines, s.Passed s' ks ∧ s.Wrote 0 s' lines ∧
      Awk.Head ⟨lines, f.text⟩ s s' ks := by
  obtain ⟨k1, h⟩ := bind_bracket_ok h
  rw [skipNewlines_bind] at h
  obtain ⟨f', s2, h2, h⟩ := bind_ok.mp h
  rw [skipNewlines_bind] at h
  obtain ⟨k3, h⟩ := bind_bracket_ok h
  cases h
  obtain ⟨before, p1, n1⟩ := ((Passed.refl sound).advance
    (k := .bracket .openParen) (by rw [k1]; rfl) (by simp)).skipNewlines
  obtain ⟨ks, lines, gives⟩ := moves_condition.gives p1.sound h2
  obtain ⟨behind, p3, n3⟩ := (Passed.refl gives.passed.sound).skipNewlines
  have p4 := p3.advance (k := .bracket .closeParen) (by rw [k3]; rfl) (by simp)
  have passed := (p1.trans gives.passed).trans p4
  exact ⟨_, lines, by simpa using passed, gives.wrote, .mk n1 p1 ⟨f, gives, rfl⟩ n3 p4⟩

lemma endSimple_ok (sound : s.Sound) (h : endSimple s = .ok () s') :
    ∃ ks, s.Passed s' ks ∧ Awk.Ending ks ∧ s'.listing = s.listing ∧
      (ks = [] → s.symbol.kind.bare.isFlat = false) := by
  rw [endSimple, symbol_bind] at h
  split at h
  case isTrue consumed =>
    cases h
    cases hk : s.symbol.kind with
    | terminator taken collapsed =>
      rw [isConsumedTerminator, hk] at consumed
      cases consumed
      exact ⟨_, (Passed.refl sound).advance (k := .terminator true collapsed)
        (by rw [hk]; rfl) (by simp), .taken collapsed, rfl, by simp⟩
    | _ =>
      rw [isConsumedTerminator, hk] at consumed
      cases consumed
  case isFalse here =>
    split at h
    · exact absurd h unexpected_ne_ok
    case isFalse ends =>
      cases h
      refine ⟨[], .refl sound, .none, rfl, fun _ => ?_⟩
      cases hk : s.symbol.kind <;>
        simp_all [isConsumedTerminator, isTerminator, isEnd, bare, isFlat]

/-- An `else` stands here, or behind one terminator. -/
def ElseFollows (s : Session) : Prop :=
  s.symbol.kind = .elseWord ∨
    s.symbol.isTerminator = true ∧ (s.table.symbol (s.cursor.peek 1).symbol).kind = .elseWord

/-- The statements that an inner compiler accepts have a tree, in which every body
has a statement. -/
def Compiled (shape : Awk.Shape) (levels : Nat) (s s' : Session) : Prop :=
  ∃ code ks n, s.Passed s' ks ∧ s.Wrote levels s' (Awk.Code.desugar code) ∧
    code.Spelled shape s s' ks n ∧ code.Fresh s.temporaries s'.temporaries ∧
    (code.loose = true → ¬ElseFollows s') ∧ code.Filled ∧
    (shape = .body → code.desugar.isDone = false)

def Compiles (inner : Compile Unit) : Prop :=
  ∀ s s', s.Sound → inner s = .ok () s' → Compiled .statement 0 s s'

lemma passed_keyword (sound : s.Sound) (kind : s.symbol.kind = .keyword word) :
    s.Passed { s with cursor := s.cursor.advance } [.keyword word] :=
  (Passed.refl sound).advance (by rw [kind]; rfl) (by simp)

lemma jump_ok (sound : s.Sound)
    (kind : s.symbol.kind = .keyword word) (python : s.symbol.python = text)
    (spelled : simple.Spelled Eq text) (h : jump s = .ok () s') : ∃ ending,
      s.Passed s' (.keyword word :: ending) ∧ Awk.Ending ending ∧
      s.Wrote 0 s' (.line simple .done) := by
  rw [jump, symbol_bind, advance_bind] at h
  obtain ⟨_, s1, h1, h⟩ := bind_ok.mp h
  have p := passed_keyword sound kind
  obtain ⟨ls, rfl, shows⟩ := emit_ok p.sound h1
  obtain ⟨ending, p', hending, same, -⟩ := endSimple_ok (p.written ls).sound h
  exact ⟨ending, (p.written ls).trans p', hending, ls, by rw [same]; rfl,
    .single spelled (python ▸ shows)⟩

lemma statement_of_keyword (inner : Compile Unit) (kind : s.symbol.kind = .keyword word) :
    statement inner s = keywordStatement inner word s := by
  rw [statement, kind_bind, kind]

/-- An expression does not start where a statement ends. -/
lemma isFlat_of_reads (read : Reads (.goal (.signed context)) s [f] s') :
    s.symbol.kind.bare.isFlat = true := by
  have operands : ∀ {g : Fragment} {s1 : Session}, Reads (.goal (.operand context)) s [g] s1 →
      s.symbol.kind.bare.isFlat = true := by
    intro g s1 operand
    cases operand <;> simp_all [bare, isFlat]
  cases read with
  | plain _ operand | stepAfter _ operand => exact operands operand
  | sign _ kind => rcases kind with ⟨_, _, kind, -⟩ | ⟨kind | kind, -⟩ <;> rw [kind] <;> rfl
  | negation _ kind | stepBefore _ kind =>
    rw [kind]
    rfl

section Alone

variable (run : ∀ inner, statement inner s = .ok () s')
include run

/-- A keyword, what an expression may do, and the end make a simple statement. The
end was not there where it starts. -/
lemma compiled_simple (front : s.symbol.kind.bare.isFlat = true) (passed : s.Passed s1 ks)
    (flat : ∀ k ∈ ks, k.isFlat) (same : s1.listing = s.listing) (effect : s1.Effect s2)
    (h : endSimple s2 = .ok () s') : Compiled .statement 0 s s' := by
  obtain ⟨ks', passed', flat'⟩ := effect.passed
  obtain ⟨b, ⟨ls, same2, written⟩, straight⟩ := effect.wrote
  obtain ⟨ending, passed'', hending, same', ends⟩ := endSimple_ok effect.sound h
  have whole := (passed.trans passed').trans passed''
  have wrote : s.Wrote 0 s' b := ⟨ls, by rw [same', same2, same], same ▸ written⟩
  have some : ks ++ ks' ++ ending ≠ [] := by
    intro none
    obtain ⟨before, last⟩ := List.append_eq_nil_iff.mp none
    have still := passed.trans passed'
    rw [before] at still
    have stops := ends last
    rw [still.kind_eq, front] at stops
    cases stops
  refine ⟨.simple b, _, 0, whole, wrote, .simple run whole wrote ?_ some straight, trivial,
    (fun loose => by cases loose), trivial, fun body => by cases body⟩
  intro k hk
  rcases List.mem_append.mp hk with hk | hk
  · rcases List.mem_append.mp hk with hk | hk
    · exact flat k hk
    · exact flat' k hk
  · exact hending.flat k hk

lemma expressionStatement_compiled (sound : s.Sound) (h : expressionStatement s = .ok () s') :
    Compiled .statement 0 s s' := by
  rw [expressionStatement, kind_bind] at h
  obtain ⟨f, s1, h1, h⟩ := bind_ok.mp h
  have front : s.symbol.kind.bare.isFlat = true := by
    cases reads_expression sound h1 with
    | argument _ _ inner | whole _ inner =>
      cases inner with
      | operation _ first => exact isFlat_of_reads first
  have e1 := (moves_expression _).ok sound h1
  have flat : ∀ k ∈ ([] : List SymbolKind), k.isFlat := by simp
  split at h
  · obtain ⟨_, s2, h2, h⟩ := bind_ok.mp h
    exact compiled_simple run front (.refl sound) flat rfl
      (e1.trans ((moves_emit (expression_plain sound h1).text).ok e1.sound h2)) h
  · exact compiled_simple run front (.refl sound) flat rfl e1 h

/-- A statement that starts with a keyword, goes on as an expression may and ends. -/
lemma compiled_keyword (sound : s.Sound)
    (kind : s.symbol.kind = .keyword word) (flat : (keyword word).isFlat)
    (moves : Moves x) (h : (do advance; x; endSimple) s = .ok () s') :
    Compiled .statement 0 s s' := by
  rw [advance_bind] at h
  obtain ⟨_, s1, h1, h⟩ := bind_ok.mp h
  have p := passed_keyword sound kind
  exact compiled_simple run (by rw [kind]; exact flat) p (by simpa using flat) rfl
    (moves.ok p.sound h1) h

lemma jump_compiled (sound : s.Sound) (kind : s.symbol.kind = .keyword word)
    (known : word = .breakLoop ∨ word = .continueLoop ∨ word = .next ∨ word = .nextFile)
    (h : jump s = .ok () s') : Compiled .statement 0 s s' := by
  cases word with
  | breakLoop =>
    have python := sound.current.regular.keyword (keywordEntry "break" .breakLoop "break")
      (by simp [keywords]) kind
    obtain ⟨ending, passed, hending, wrote⟩ := jump_ok sound kind python .breakLoop h
    exact ⟨.breakLoop, _, 0, passed, wrote, .breakLoop passed hending, trivial,
      (fun loose => by cases loose), trivial, fun body => by cases body⟩
  | continueLoop =>
    have python := sound.current.regular.keyword
      (keywordEntry "continue" .continueLoop "continue") (by simp [keywords]) kind
    obtain ⟨ending, passed, hending, wrote⟩ := jump_ok sound kind python .continueLoop h
    exact ⟨.continueLoop, _, 0, passed, wrote, .continueLoop passed hending, trivial,
      (fun loose => by cases loose), trivial, fun body => by cases body⟩
  | next =>
    have python := sound.current.regular.keyword (keywordEntry "next" .next "raise AwkNext")
      (by simp [keywords]) kind
    rw [jump, symbol_bind] at h
    exact compiled_keyword run sound kind rfl (moves_emit (by rw [python]; decide)) h
  | nextFile =>
    have python := sound.current.regular.keyword
      (keywordEntry "nextfile" .nextFile "raise AwkNextFile") (by simp [keywords]) kind
    rw [jump, symbol_bind] at h
    exact compiled_keyword run sound kind rfl (moves_emit (by rw [python]; decide)) h
  | _ => simp at known

lemma exit_compiled (sound : s.Sound) (kind : s.symbol.kind = .keyword .exit)
    (h : exit s = .ok () s') : Compiled .statement 0 s s' := by
  rw [exit, advance_bind, atStatementEnd_bind] at h
  have p := passed_keyword sound kind
  -- the last line and the end, after a code or without one
  have ending : ∀ {s1 : Session}, Effect { s with cursor := s.cursor.advance } s1 →
      (do emit "raise AwkExit"; endSimple) s1 = .ok () s' → Compiled .statement 0 s s' := by
    intro s1 e h
    obtain ⟨_, s2, h2, h⟩ := bind_ok.mp h
    exact compiled_simple run (by rw [kind]; rfl) p (by simp [isFlat]) rfl
      (e.trans ((moves_emit (by decide)).ok e.sound h2)) h
  split at h
  · obtain ⟨f, s1, h1, h⟩ := bind_ok.mp h
    obtain ⟨_, s2, h2, h⟩ := bind_ok.mp h
    have e := (moves_expression _).ok p.sound h1
    exact ending (e.trans ((moves_emit (IsPlain.append (by decide) _)).ok e.sound h2)) h
  · exact ending (.refl p.sound) h

lemma returnValue_compiled (sound : s.Sound) (kind : s.symbol.kind = .keyword .returnValue)
    (h : returnValue s = .ok () s') : Compiled .statement 0 s s' := by
  rw [returnValue, advance_bind, atStatementEnd_bind] at h
  have p := passed_keyword sound kind
  have flat : ∀ k ∈ [keyword .returnValue], k.isFlat := by
    simp [isFlat]
  have front : s.symbol.kind.bare.isFlat = true := by rw [kind]; rfl
  split at h
  · obtain ⟨_, s1, h1, h⟩ := bind_ok.mp h
    exact compiled_simple run front p flat rfl ((moves_emit (by decide)).ok p.sound h1) h
  · obtain ⟨f, s1, h1, h⟩ := bind_ok.mp h
    obtain ⟨_, s2, h2, h⟩ := bind_ok.mp h
    have e := (moves_expression _).ok p.sound h1
    exact compiled_simple run front p flat rfl
      (e.trans ((moves_emit (IsPlain.append (by decide) _)).ok e.sound h2)) h

lemma delete_compiled (sound : s.Sound) (kind : s.symbol.kind = .keyword .delete)
    (h : delete s = .ok () s') : Compiled .statement 0 s s' := by
  rw [delete, advance_bind, current_bind, symbol_bind] at h
  have p := passed_keyword sound kind
  have flat : ∀ k ∈ [keyword .delete], k.isFlat := by simp [isFlat]
  have front : s.symbol.kind.bare.isFlat = true := by rw [kind]; rfl
  obtain ⟨var, h⟩ := check_ok h
  obtain ⟨_, s1, h1, h⟩ := bind_ok.mp h
  have e1 := (moves_markArray _ _).ok p.sound h1
  obtain ⟨t, grows, rfl⟩ := markArray_ok h1
  rw [pythonOf_bind, advance_bind, atBracket_bind] at h
  have plain : IsPlain (t.symbol s.cursor.advance.current.symbol).python := by
    rw [python_of_word (grows.word _ p.sound.current.valid)]
    exact p.sound.current.regular.plain
      (beginsText_of_isVariable (by simpa using var))
  have e2 := e1.advance (by
    rw [isInner_of_grows p.sound grows]
    exact isInner_of_isVariable (by simpa using var))
  split at h
  case isTrue at_ =>
    rw [advance_bind] at h
    have e3 := e2.advance (by rw [Session.symbol, isInner, of_decide_eq_true at_])
    obtain ⟨key, s4, h4, h⟩ := bind_ok.mp h
    have e4 := e3.trans
      (moves_subscript.ok e3.sound h4)
    obtain ⟨_, s5, h5, h⟩ := bind_ok.mp h
    exact compiled_simple run front p flat rfl (e4.trans
      ((moves_emit (((plain.append _).append _).append _)).ok e4.sound h5)) h
  case isFalse =>
    obtain ⟨_, s3, h3, h⟩ := bind_ok.mp h
    exact compiled_simple run front p flat rfl
      (e2.trans ((moves_emit (plain.append _)).ok e2.sound h3)) h

end Alone

/-! ### Output -/

instance moves_moreOutput (context : Context) (first : Fragment) :
    Moves (moreOutput context first) := by
  unfold moreOutput
  infer_instance

instance moves_atOutputEnd : Moves atOutputEnd := by
  unfold atOutputEnd
  infer_instance

lemma moves_outputItems : Moves outputItems := by
  refine .next fun atEnd => ?_
  split
  · infer_instance
  · refine .next fun paren => ?_
    split
    · refine .next fun group => .next fun atEnd' => ?_
      split
      · infer_instance
      · split <;> infer_instance
    · infer_instance

lemma redirection_kind (sound : s.Sound) (found : redirectionMode? s.symbol.key = some mode) :
    s.symbol.kind ∈ [.binary .comparison, .binary .append, .binary .pipe] := by
  have all : ∀ key ∈ [">", ">>", "|"], ∃ e ∈ marks ++ binaryOperators,
      e.keyed ∧ e.symbol.key = key ∧
        e.symbol.kind ∈ [.binary .comparison, .binary .append, .binary .pipe] := by decide
  have key : s.symbol.key ∈ [">", ">>", "|"] := by
    rw [redirectionMode?] at found
    split at found
    · simp_all
    · split at found
      · simp_all
      · split at found <;> simp_all
  obtain ⟨e, he, keyed, same, kind⟩ := all _ key
  exact sound.current.regular.mark e he keyed same.symm ▸ kind

lemma moves_redirection : Moves redirection := by
  refine ⟨fun {s} sound => ?_⟩
  rw [redirection, symbol_bind]
  cases hm : redirectionMode? s.symbol.key with
  | none => exact .refl sound
  | some mode =>
    have inner : s.symbol.isInner := by
      have kind := redirection_kind sound hm
      simp only [List.mem_cons, List.not_mem_nil, or_false] at kind
      rcases kind with kind | kind | kind <;> rw [isInner, kind]
    dsimp only
    rw [advance_bind]
    refine (moves_compiler _).bind ((Effect.refl sound).advance inner)
      fun _ _ _ e => ?_
    exact (moves_useAsScalar _).bind e fun _ _ _ e => e

lemma moves_printfCall (items : List Fragment) : Moves (printfCall items) := by
  unfold printfCall
  infer_instance

lemma isPlain_printCall (items : List Fragment) : IsPlain (printCall items) := by
  rw [printCall]
  split
  · decide
  · exact (IsPlain.append (by decide) _).append _

lemma printfCall_plain {items : List Fragment} {call : String}
    (h : printfCall items s = .ok call s') : IsPlain call := by
  rw [printfCall] at h
  split at h
  · exact absurd h (by simp [bind_ok])
  · obtain ⟨code, s1, -, h⟩ := bind_ok.mp h
    rw [← (EStateM.Result.ok.inj h).1]
    exact (IsPlain.append (by decide) _).append _

lemma print_compiled (run : ∀ inner, statement inner s = .ok () s') (sound : s.Sound)
    (kind : s.symbol.kind = .keyword word) (flat : (keyword word).isFlat)
    (h : print withFormat s = .ok () s') : Compiled .statement 0 s s' := by
  rw [print, advance_bind] at h
  have p := passed_keyword sound kind
  obtain ⟨items, s1, h1, h⟩ := bind_ok.mp h
  have e1 := moves_outputItems.ok p.sound h1
  obtain ⟨redirect, s2, h2, h⟩ := bind_ok.mp h
  have e2 := e1.trans (moves_redirection.ok e1.sound h2)
  -- the lines and the end, for either call
  have ending : ∀ {call : String} {s3 : Session}, IsPlain call →
      Effect { s with cursor := s.cursor.advance } s3 →
      writeCall redirect call s3 = .ok () s' → Compiled .statement 0 s s' := by
    intro call s3 plain e h
    cases redirect with
    | none =>
      obtain ⟨_, s4, h4, h⟩ := bind_ok.mp h
      exact compiled_simple run (by rw [kind]; exact flat) p (by simpa using flat) rfl
        (e.trans ((moves_emit plain).ok e.sound h4)) h
    | some r =>
      obtain ⟨_, s4, h4, h⟩ := bind_ok.mp h
      obtain ⟨_, s5, h5, h⟩ := bind_ok.mp h
      have opens : IsPlain s!"file_handle = self._access_file({r.target}, \"{r.mode}\")" :=
        (((IsPlain.append (by decide) _).append _).append _).append _
      have e4 := e.trans ((moves_emit opens).ok e.sound h4)
      exact compiled_simple run (by rw [kind]; exact flat) p (by simpa using flat) rfl
        (e4.trans ((moves_emit (IsPlain.append (by decide) _)).ok e4.sound h5)) h
  cases withFormat with
  | true =>
    obtain ⟨call, s3, h3, h⟩ := bind_ok.mp h
    exact ending (printfCall_plain h3) (e2.trans ((moves_printfCall items).ok e2.sound h3)) h
  | false => exact ending (isPlain_printCall items) e2 h

end Statement

end AwkToPython
