import AwkToPython.Proofs.Emission.Reading
import AwkToPython.Proofs.Emission.Item

/-!
# Line breaks in a program

The lines of a program are put together from headers, imports, initial values and
the lines of the buckets. Headers show control characters and strings are written
anew, so a line break can only come from a text that is taken as it is: a comment, a
word, the name of a namespace or the path of a file.
-/
namespace AwkToPython

open Compile List Text Header Session Table

variable {p : Char → Prop}

/-! ### Headers and presets -/

namespace Text.Over

/-- The code of a control character is written with digits and letters. -/
lemma code [HoldsGraphic p] (h : isControl c = true) : Over p (hex c.toNat) := by
  have all : ∀ n < 0xa0, (hex n).toList.all isGraphic = true := by decide +kernel
  refine .fixed (all c.toNat ?_)
  simp only [isControl, Bool.or_eq_true, Bool.and_eq_true, decide_eq_true_eq] at h
  omega

lemma visible [HoldsGraphic p] (s : String) : Over p (visible s) := by
  have one : ∀ c, ∀ d ∈ escaped c, p d := by
    intro c d mem
    have open_ : Over p "\\u\x7b" := .fixed rfl
    have close : Over p "\x7d" := .fixed rfl
    rw [escaped] at mem
    split at mem
    · exact (fixed (by decide) : Over p "\\t") d mem
    split at mem
    · exact (fixed (by decide) : Over p "\\r") d mem
    split at mem
    · exact (fixed (by decide) : Over p "\\n") d mem
    split at mem
    case isTrue control => exact append.mpr ⟨append.mpr ⟨open_, code control⟩, close⟩ d mem
    case isFalse control =>
      rw [mem_singleton.mp mem]
      refine HoldsGraphic.holds c ?_
      simp only [isControl, Bool.or_eq_true, Bool.and_eq_true, decide_eq_true_eq, not_or,
        not_and] at control
      simp only [isGraphic, Bool.and_eq_true, decide_eq_true_eq, ne_eq]
      omega
  refine ofList.mpr fun d mem => ?_
  obtain ⟨c, -, inside⟩ := mem_flatMap.mp mem
  exact one c d inside

/-- A float is written with digits, a point, a sign and an exponent. -/
lemma float [HoldsGraphic p] {text : String} {negative : Bool} (h : Python.IsFloat text negative) :
    Over p text := by
  obtain ⟨w, f, x, same, decimal, -⟩ := h
  have digits : ∀ {ds : List Char}, ds.all Char.isDigit = true → ∀ c ∈ ds, p c := fun all c mem =>
    of_digit (all_eq_true.mp all c mem)
  have signs : ∀ sign : List Char, sign = [] ∨ sign = ['-'] ∨ sign = ['+'] → ∀ c ∈ sign, p c := by
    rintro sign (rfl | rfl | rfl) c mem
    · cases mem
    · rw [mem_singleton.mp mem]
      exact HoldsGraphic.holds '-' (by decide)
    · rw [mem_singleton.mp mem]
      exact HoldsGraphic.holds '+' (by decide)
  intro c mem
  rw [same, mem_append, mem_append, mem_append] at mem
  rcases mem with mem | mem | mem | mem
  · refine signs _ ?_ c mem
    cases negative
    · exact .inl rfl
    · exact .inr (.inl rfl)
  · exact digits decimal.whole c mem
  · rcases decimal.fraction with rfl | ⟨ds, rfl, all, -⟩
    · cases mem
    · rcases mem_cons.mp mem with rfl | mem
      · exact HoldsGraphic.holds '.' (by decide)
      · exact digits all c mem
  · rcases decimal.exponent with rfl | ⟨e, sign, ds, rfl, letter, signed, -, all⟩
    · cases mem
    · rcases mem_cons.mp mem with rfl | mem
      · rcases letter with rfl | rfl <;> exact HoldsGraphic.holds _ (by decide)
      · exact (mem_append.mp mem).elim (signs sign signed c) (digits all c)

lemma presetLiteral [HoldsGraphic p] (value : String) : Over p (Preset.literal value) := by
  have names : ∀ negative : Bool, Over p (if negative then "-inf" else "inf") := by
    rintro (_ | _)
    all_goals exact .fixed rfl
  rw [Preset.literal]
  split
  · exact .int _
  · cases found : Preset.decimal? value with
    | none => exact .literal _
    | some text =>
      rw [Preset.decimal?] at found
      split at found
      · obtain ⟨n, -, rfl⟩ := Option.map_eq_some_iff.mp found
        rcases Python.numeral_cases n with ⟨-, float⟩ | ⟨-, name⟩
        · exact .float float
        · rw [Option.getD_some, name]
          exact names _
      · cases found

end Text.Over

/-! ### Sessions -/

/-- No line break stands in what a session brings into its program. -/
structure Session.Tidy (s : Session) : Prop where
  legible : s.Over isInline
  clean : s.toVocabulary.Clean isInline s.options.debug

lemma Session.Extends.tidy {s s' : Session} (h : s.Extends isInline s') (tidy : s.Tidy) :
    s'.Tidy := by
  have registry : s'.registry = s.registry := congrArg (·.1) h.setting
  have options : s'.options = s.options := congrArg (·.2.2) h.setting
  have keyed := tidy.clean.table h.legible.symbols h.keys
  refine ⟨h.legible, h.legible.symbols, ?_, ?_⟩
  · rw [options]
    exact keyed.keys
  · rw [registry]
    exact tidy.clean.current

lemma Session.Tidy.header {s : Session} (h : s.Tidy) {header : Header}
    (ht : Text.Over isInline header.text) : Tidy { s with headers := s.headers ++ [header] } := by
  refine ⟨{ h.legible with headers := fun other mem => ?_ }, h.clean⟩
  rcases mem_append.mp mem with mem | mem
  · exact h.legible.headers other mem
  · rw [mem_singleton.mp mem]
    exact ht

/-- A dump shows the keys of words, and a line end by its escape. -/
lemma tokens_header {t : Table} {tokens : List Token}
    (h : ∀ id, (t.symbol id).key = "\n" ∨ Over isInline (t.symbol id).key) :
    Over isInline (Header.tokens (tokens.map (·.text t))).text := by
  have lead : Over isInline "# tokens: " := .fixed rfl
  have blank : Over isInline " " := .fixed rfl
  have escape : Over isInline "\\n" := .fixed rfl
  refine Over.append.mpr ⟨lead, .join blank fun text mem => ?_⟩
  obtain ⟨token, -, rfl⟩ := mem_map.mp mem
  rw [Token.text]
  split
  · exact escape
  case isFalse other => exact (h token.symbol).resolve_left other

namespace Compile

variable {s : Session}

lemma tidy_reading {text : String} (tidy : s.Tidy) (unbroken : Text.Unbroken s.options.debug text)
    (read : s.options.library.Unbroken s.options.debug
      (s.toVocabulary.lexed s.options.library text)) :
    (after (reading text s)).Tidy := by
  have clean := tidy.clean.tokens unbroken read
  have worded : Tidy
      { s with toVocabulary := (s.toVocabulary.tokens s.options.library text).2 } :=
    ⟨{ tidy.legible with symbols := clean.symbols }, clean⟩
  rw [reading_run]
  cases found : (s.toVocabulary.tokens s.options.library text).1 with
  | error e => exact worded
  | ok tokens =>
    cases debug : s.options.debug with
    | false => exact ⟨{ worded.legible with }, worded.clean⟩
    | true =>
      have title : Text.Over isInline (Header.tokens (tokens.map
          (·.text (s.toVocabulary.tokens s.options.library text).2.table))).text :=
        tokens_header (clean.keys debug)
      have titled := worded.header title
      exact ⟨{ titled.legible with }, titled.clean⟩

lemma tidy_fileReading {path : String} {header : Header} (tidy : s.Tidy)
    (title : Over isInline header.text)
    (read : ∀ text, s.options.library.tree.read path = .ok text →
      Unbroken s.options.debug text ∧ s.options.library.Unbroken s.options.debug
        (s.toVocabulary.lexed s.options.library text)) :
    (after (fileReading path header s)).Tidy := by
  rw [fileReading_run]
  cases found : s.options.library.tree.read path with
  | error fault => exact tidy
  | ok text =>
    obtain ⟨unbroken, files⟩ := read text found
    exact tidy_reading (tidy.header title) unbroken files

end Compile

/-- What a program takes as it is from a source, with the files that it includes and
the path that it is found at, has no line break. -/
def Source.Unbroken (s : Session) (source : Source) : Prop :=
  s.options.library.Unbroken s.options.debug (source.lexed s) ∧
    match source with
    | .program text => Text.Unbroken s.options.debug text
    | .file name | .included name =>
      '\n' ∉ (s.options.library.locate name).toList ∧ '\r' ∉ (s.options.library.locate name).toList

namespace Compile

variable {s : Session}

lemma tidy_load {source : Source} (tidy : s.Tidy) (unbroken : source.Unbroken s) :
    (after (load source s)).Tidy := by
  have recorded : ∀ files, Tidy { s with files } := fun _ =>
    ⟨{ tidy.legible with }, { tidy.clean with }⟩
  obtain ⟨files, own⟩ := unbroken
  cases source with
  | program text =>
    have lead : Text.Over isInline "# -e " := .fixed rfl
    have title : Text.Over isInline (ofProgram text).text :=
      Text.Over.append.mpr ⟨lead, .visible _⟩
    have titled := tidy.header title
    change (after ((do reading text; return true : Compile Bool)
      { s with headers := s.headers ++ [.ofProgram text] })).Tidy
    rw [after_found]
    exact tidy_reading titled own files
  | file name =>
    have lead : Text.Over isInline "# -f " := .fixed rfl
    have title : Text.Over isInline (file (s.options.library.locate name)).text :=
      Text.Over.append.mpr ⟨lead, over_isInline own.1 own.2⟩
    rw [load_file]
    rw [Source.lexed] at files
    cases added : s.files.addSource s.options.library.tree (s.options.library.locate name) with
    | error e => exact tidy
    | ok found =>
      dsimp only
      rw [after_found]
      refine tidy_fileReading (recorded found) title fun text read => ?_
      rw [added, read] at files
      exact ⟨files _ text mem_cons_self read, files.subset (subset_cons_self _ _)⟩
  | included name =>
    have lead : Text.Over isInline "# -i " := .fixed rfl
    have title : Text.Over isInline (included (s.options.library.locate name)).text :=
      Text.Over.append.mpr ⟨lead, over_isInline own.1 own.2⟩
    rw [load_included]
    rw [Source.lexed] at files
    cases added : s.files.addInclude s.options.library.tree (s.options.library.locate name) with
    | error e => exact tidy
    | ok found =>
      cases found with
      | none => exact tidy
      | some found =>
        dsimp only
        rw [after_found]
        refine tidy_fileReading (recorded found) title fun text read => ?_
        rw [added, read] at files
        exact ⟨files _ text mem_cons_self read, files.subset (subset_cons_self _ _)⟩

lemma tidy_addSource {source : Source} (tidy : s.Tidy) (unbroken : source.Unbroken s) :
    (after (addSource source s)).Tidy :=
  after_addSource (tidy_load tidy unbroken) fun s' read =>
    (lengthens_items s' read.legible).tidy read

/-- A preset is written anew, and its name is plain. -/
lemma tidy_preset {assignment : String} (tidy : s.Tidy) : (after (preset assignment s)).Tidy := by
  rcases preset_shape assignment s with
    ⟨e, run⟩ | ⟨name, value, space, bare, id, -, named, resolved, -, outcome⟩
  · rw [run]
    exact tidy
  obtain ⟨overSpace, overBare⟩ := Registry.resolve_over tidy.clean.current named
  rw [resolved] at overSpace overBare
  have clean : (met s space bare).toVocabulary.Clean isInline s.options.debug := by
    have entered := tidy.clean.internVariable overSpace overBare
    refine ⟨entered.symbols, entered.keys, ?_⟩
    change Over isInline (s.registry.meet space).current.name
    rw [Registry.meet]
    split <;> exact tidy.clean.current
  have entered : (met s space bare).Tidy :=
    ⟨{ tidy.legible with symbols := clean.symbols }, clean⟩
  rcases outcome with ⟨-, e, run⟩ | ⟨symbol, applied, run⟩ <;> rw [run]
  · exact entered
  obtain ⟨use, kind, -, applied⟩ := applied?_some applied
  have old := clean.symbols id
  have key := old.key (by simp [Symbol.isVariable, Symbol.variableUse?, kind])
  have legible : symbol.Over isInline :=
    applied ▸ .ofVar rfl old.python (.presetLiteral value) key
  have symbols : ∀ other, (((met s space bare).table.set id symbol).symbol other).Over isInline :=
    over_set clean.symbols legible
  have set := clean.table symbols (rekeys_set (.inl (by rw [applied])))
  have changed : Tidy
      { met s space bare with table := (met s space bare).table.set id symbol } :=
    ⟨{ entered.legible with symbols := set.symbols }, set⟩
  have lead : Over isInline "# -v " := .fixed rfl
  have equals : Over isInline "=" := .fixed rfl
  have title : Over isInline (Header.preset name value).text :=
    Over.append.mpr ⟨Over.append.mpr
      ⟨Over.append.mpr ⟨lead, .name named⟩, equals⟩, .visible _⟩
  exact changed.header title

end Compile

/-! ### Lines of a program -/

namespace Program

variable {s : Session}

lemma atDepth_over [HoldsGraphic p] (depth : Nat) {line : String} (h : Over p line) :
    Over p (atDepth depth line) := by
  rw [atDepth]
  split
  · exact .empty
  · exact Over.append.mpr ⟨.indentation depth, h⟩

lemma mapped_over [HoldsGraphic p] (depth : Nat) {lines : List String}
    (h : ∀ line ∈ lines, Over p line) : ∀ line ∈ lines.map (atDepth depth), Over p line := by
  intro line mem
  obtain ⟨inner, inside, rfl⟩ := mem_map.mp mem
  exact atDepth_over depth (h inner inside)

lemma append_over {as bs : List String} (ha : ∀ line ∈ as, Over p line)
    (hb : ∀ line ∈ bs, Over p line) : ∀ line ∈ as ++ bs, Over p line := fun line mem =>
  (mem_append.mp mem).elim (ha line) (hb line)

lemma fixed_over [HoldsGraphic p] {lines : List String}
    (h : lines.all (fun line => line.toList.all isGraphic) = true) :
    ∀ line ∈ lines, Over p line := fun line mem =>
  .fixed (all_eq_true.mp h line mem)

lemma constructorLines_over [HoldsGraphic p] (loop : Bool) {t : Table}
    (h : ∀ id, (t.symbol id).Over p) : ∀ line ∈ constructorLines loop t, Over p line := by
  have equals : Over p " = " := .fixed rfl
  have initialised : ∀ line ∈ t.entries.toList.filterMap initialiser?, Over p line := by
    intro line mem
    obtain ⟨symbol, inside, found⟩ := mem_filterMap.mp mem
    obtain ⟨id, bound, same⟩ := mem_iff_getElem.mp inside
    have entry : t.symbol id = symbol := by
      rw [Table.symbol, Array.getD_eq_getD_getElem?, ← Array.getElem?_toList,
        getElem?_eq_getElem bound, same]
      rfl
    have legible := h id
    rw [entry] at legible
    simp only [initialiser?, Option.ite_none_right_eq_some, Option.some.injEq] at found
    obtain ⟨-, rfl⟩ := found
    simp only [Over.append, Over.string]
    exact ⟨⟨legible.python, equals⟩, legible.initial⟩
  refine append_over (append_over (fixed_over (by decide)) ?_) (mapped_over 2 initialised)
  split
  · exact fixed_over (by decide)
  · nofun

lemma sectionLines_over [HoldsGraphic p] {l : Listing} (h : l.Over p) (part : Section) :
    ∀ line ∈ sectionLines l part, Over p line := by
  have body := h (.part part)
  have head : ∀ line ∈ ["", atDepth 1 s!"def {part.method}(self):"], Over p line :=
    fixed_over (by cases part <;> decide)
  rw [sectionLines]
  split
  · exact forall_mem_nil _
  · refine append_over head ?_
    rw [bodyLines]
    split
    · exact append_over (append_over (fixed_over (by decide)) (mapped_over 3 body))
        (fixed_over (by decide))
    · exact mapped_over 2 body

lemma lines_over [HoldsGraphic p] (h : s.Over p) : ∀ line ∈ lines s, Over p line := by
  have titles : ∀ line ∈ titleLines s.headers, Over p line := by
    refine append_over (fixed_over (by decide)) fun line mem => ?_
    obtain ⟨header, inside, rfl⟩ := mem_map.mp mem
    exact h.headers header inside
  have lead : Over p "import " := .fixed rfl
  have imports : ∀ line ∈ importLines s.imports, Over p line := by
    refine append_over (append_over (fixed_over (by decide)) fun line mem => ?_)
      (fixed_over (by decide +kernel))
    obtain ⟨name, inside, rfl⟩ := mem_map.mp mem
    exact Over.append.mpr ⟨lead, h.imports name inside⟩
  have sections : ∀ line ∈ Section.all.flatMap (sectionLines s.listing), Over p line := by
    intro line mem
    obtain ⟨part, -, inside⟩ := mem_flatMap.mp mem
    exact sectionLines_over h.listing part line inside
  refine append_over (append_over (append_over (append_over (append_over
    (append_over titles imports) (fixed_over (by decide)))
    (mapped_over 1 (h.listing .functions))) (constructorLines_over _ h.symbols)) sections)
    (fixed_over (by decide))

end Program

namespace Call

/-- What a program takes as it is from a call has no line break. A preset has nothing
of the kind. -/
def Unbroken (s : Session) : Call → Prop
  | .preset _ => True
  | .source input => input.Unbroken s

/-- What the initial table's functions name in the program is plain text. -/
lemma functions_graphic : ∀ e ∈ Symbol.initialEntries, (match e.symbol.kind with
    | .function f => f.library.all (fun name => name.toList.all isGraphic) &&
      match f.strategy with
      | .method name => name.toList.all isGraphic
      | _ => true
    | _ => true) = true := by decide +kernel

lemma tidy_initial (options : Options) : Tidy { options } := by
  have graphic : ∀ e ∈ Symbol.initialEntries, e.symbol.python.toList.all isGraphic = true ∧
      e.symbol.initial.toList.all isGraphic = true ∧
      (e.symbol.key = "\n" ∨ e.symbol.key.toList.all isGraphic = true) ∧
      (e.symbol.isVariable = true → e.symbol.key.toList.all isGraphic = true) := by decide +kernel
  have symbols : ∀ id, (initial.symbol id).Over isInline := by
    refine initial_symbol fun e mem => ?_
    obtain ⟨python, initial, -, key⟩ := graphic e mem
    have called := functions_graphic e mem
    refine ⟨.fixed python, .fixed initial, fun var => .fixed (key var), fun f kind => ?_⟩
    simp only [kind, Bool.and_eq_true] at called
    refine ⟨fun name mem => .fixed ?_, fun name strategy => .fixed ?_⟩
    · simpa [Option.mem_def.mp mem] using called.1
    · simpa [strategy] using called.2
  have keys : ∀ id, (initial.symbol id).key = "\n" ∨
      Over isInline (initial.symbol id).key :=
    initial_symbol (P := fun s => s.key = "\n" ∨ Over isInline s.key) fun e mem =>
      (graphic e mem).2.2.1.imp_right fun h => .fixed h
  have listing : Listing.Over isInline {} := by
    intro b
    rcases b with (_ | _ | _ | _ | _) | _ <;> exact forall_mem_nil _
  have awk : Over isInline Namespace.default.name := .fixed rfl
  exact ⟨⟨symbols, forall_mem_nil _, forall_mem_nil _, listing⟩, symbols, fun _ => keys, awk⟩

lemma tidy_last {calls : List Call} (tidy : s.Tidy)
    (unbroken : ∀ step ∈ trace s calls, step.2.Unbroken step.1) : (last s calls).Tidy := by
  induction calls generalizing s with
  | nil => exact tidy
  | cons call calls ih =>
    have own : call.Unbroken s := unbroken (s, call) mem_cons_self
    refine ih ?_ fun step mem => unbroken step (mem_cons_of_mem _ mem)
    cases call with
    | preset assignment => exact tidy_preset tidy
    | source input => exact tidy_addSource tidy own

/-- Whatever calls were made, whether they failed or not, no line of the program has a
line break, unless a comment or a word outside of strings holds a carriage return, or
the name of a namespace or the path of a file holds a line break. -/
theorem program_lines_unbroken (options : Options) (calls : List Call)
    (unbroken : ∀ step ∈ trace { options } calls, step.2.Unbroken step.1) :
    ∀ line ∈ Program.lines (last { options } calls), '\n' ∉ line.toList ∧ '\r' ∉ line.toList := by
  have tidy := tidy_last (tidy_initial options) unbroken
  intro line mem
  have legible := Program.lines_over tidy.legible line mem
  exact ⟨fun inside => (legible _ inside).1 rfl, fun inside => (legible _ inside).2 rfl⟩

/-- A preset with a line feed, and a source with carriage returns before its line ends
and in a string. -/
theorem program_lines_unbroken_strings :
    let calls : List Call := [.preset "v=a\nb", .source (.program
      "@namespace \"lib\"\r\nBEGIN \x7b x = \"a\rb\\n\" \x7d # set\r\n/a/ \x7b print \x7d\n")]
    (∀ step ∈ trace {} calls, step.2.Unbroken step.1) ∧
      ∀ line ∈ Program.lines (last {} calls), '\n' ∉ line.toList ∧ '\r' ∉ line.toList := by
  intro calls
  have unbroken : ∀ step ∈ trace {} calls, step.2.Unbroken step.1 := by
    intro step mem
    rcases List.mem_cons.mp mem with rfl | mem
    · trivial
    rw [List.mem_singleton.mp mem]
    have options : (after (Call.run (.preset "v=a\nb") {})).options = {} := by decide +kernel
    refine ⟨fun path text inside => ?_, ?_⟩
    · -- the source includes no file
      revert inside
      rw [show Source.lexed _ _ = [] by decide +kernel]
      nofun
    · rw [options]
      decide +kernel
  exact ⟨unbroken, program_lines_unbroken {} calls unbroken⟩

/-- A carriage return in a comment breaks the line that the comment is carried to. -/
theorem comment_breaks_line :
    ∃ line ∈ Program.lines (last {} [.source (.program "BEGIN \x7b print 1 # a\rimport os\n\x7d")]),
      '\r' ∈ line.toList := by
  decide +kernel

end Call

end AwkToPython
