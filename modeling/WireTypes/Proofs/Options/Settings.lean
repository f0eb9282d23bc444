import Mathlib.Data.List.Basic
import WireTypes.Options
import WireTypes.Proofs.Text.Blanks
import WireTypes.Proofs.Text.Digits

/-!
# What arguments set

Arguments come in groups, and a group that is in order sets one thing (`Group.Sets`); any other is
at fault (`Group.Fault`).  What is set is a `Setting` of a `Field`: of several settings of one field
the last one counts, and fields that none of them concerns keep what they had
(`Draft.current_foldl`).

* `Group.sets_or_fault`, `Group.read_of_sets`, `Group.read_of_fault`: what a group says by itself;
* `Draft.apply_eq`: reading an argument is finding out what it says, and then doing it.
-/

namespace WireTypes.Options

/-! ## Fields -/

/-- What options consist of. -/
inductive Field where
  | input
  | output
  | comments
  | annotateWidths
  | preamble
  | parallel
  | indentWidth
  | errorLimit
  | deduplicate
  | format
  deriving DecidableEq, Repr

/-- A field with a value. -/
inductive Setting where
  | input (path : String)
  | output (path : String)
  | comments (b : Bool)
  | annotateWidths (b : Bool)
  | preamble (b : Bool)
  | parallel (b : Bool)
  | indentWidth (n : Nat)
  | errorLimit (n : Nat)
  | deduplicate (b : Bool)
  | format (format : MessageFormat)
  deriving DecidableEq, Repr

def Setting.field : Setting → Field
  | .input _ => .input
  | .output _ => .output
  | .comments _ => .comments
  | .annotateWidths _ => .annotateWidths
  | .preamble _ => .preamble
  | .parallel _ => .parallel
  | .indentWidth _ => .indentWidth
  | .errorLimit _ => .errorLimit
  | .deduplicate _ => .deduplicate
  | .format _ => .format

namespace Draft

def set (d : Draft) : Setting → Draft
  | .input path => { d with input := some path }
  | .output path => { d with output := some path }
  | .comments b => { d with style.comments := b }
  | .annotateWidths b => { d with style.annotateWidths := b }
  | .preamble b => { d with style.preamble := b }
  | .parallel b => { d with style.parallel := b }
  | .indentWidth n => { d with style.indentWidth := n }
  | .errorLimit n => { d with diagnostics.errorLimit := n }
  | .deduplicate b => { d with diagnostics.deduplicate := b }
  | .format format => { d with format }

def current (d : Draft) : Field → Option Setting
  | .input => d.input.map .input
  | .output => d.output.map .output
  | .comments => some (.comments d.style.comments)
  | .annotateWidths => some (.annotateWidths d.style.annotateWidths)
  | .preamble => some (.preamble d.style.preamble)
  | .parallel => some (.parallel d.style.parallel)
  | .indentWidth => some (.indentWidth d.style.indentWidth)
  | .errorLimit => some (.errorLimit d.diagnostics.errorLimit)
  | .deduplicate => some (.deduplicate d.diagnostics.deduplicate)
  | .format => some (.format d.format)

theorem current_set (d : Draft) (s : Setting) (f : Field) :
    (d.set s).current f = if s.field = f then some s else d.current f := by
  cases s <;> cases f <;> rfl

end Draft

/-- The last of several settings of a field. -/
def lastSetting? (f : Field) (ss : List Setting) : Option Setting :=
  (ss.filter fun s => s.field = f).getLast?

theorem lastSetting?_eq_none_iff {f : Field} {ss : List Setting} :
    lastSetting? f ss = none ↔ ∀ s ∈ ss, s.field ≠ f := by
  unfold lastSetting?
  rw [List.getLast?_eq_none_iff, List.filter_eq_nil_iff]
  simp only [decide_eq_true_eq, ne_eq]

/-- The last setting of a field counts. -/
theorem Draft.current_foldl (f : Field) (ss : List Setting) :
    ∀ d : Draft, (ss.foldl set d).current f = (lastSetting? f ss).or (d.current f) := by
  unfold lastSetting?
  induction ss with
  | nil => intro d; rfl
  | cons s ss ih =>
    intro d
    rw [List.foldl_cons, ih, current_set]
    by_cases hf : s.field = f
    · rw [List.filter_cons_of_pos (by simp [hf]), List.getLast?_cons, if_pos hf]
      cases (ss.filter fun s => s.field = f).getLast? <;> rfl
    · rw [List.filter_cons_of_neg (by simp [hf]), if_neg hf]

def current (o : Options) : Field → Option Setting :=
  Draft.current ⟨some o.input, o.output, o.style, o.diagnostics, o.format⟩

theorem ext_current {o o' : Options} (h : ∀ f, o.current f = o'.current f) : o = o' := by
  obtain ⟨input, output, ⟨indentWidth, comments, annotateWidths, preamble, parallel⟩,
      ⟨limit, dup⟩, format⟩ := o
  obtain ⟨input', output', ⟨indentWidth', comments', annotateWidths', preamble', parallel'⟩,
      ⟨limit', dup'⟩,
    format'⟩ := o'
  have hinput := h .input
  have houtput := h .output
  have hcomments := h .comments
  have hannotate := h .annotateWidths
  have hpreamble := h .preamble
  have hparallel := h .parallel
  have hindent := h .indentWidth
  have hlimit := h .errorLimit
  have hdup := h .deduplicate
  have hformat := h .format
  simp only [current, Draft.current, Option.some.injEq, Option.map_some, Setting.input.injEq,
    Setting.comments.injEq, Setting.annotateWidths.injEq, Setting.preamble.injEq,
    Setting.parallel.injEq, Setting.indentWidth.injEq, Setting.errorLimit.injEq,
    Setting.deduplicate.injEq, Setting.format.injEq] at *
  have houtput : output = output' :=
    Option.map_injective (fun _ _ h => Setting.output.inj h) houtput
  subst_vars
  rfl

/-! ## Groups -/

/-- Arguments that belong together. -/
inductive Group where
  /-- `-o` and the argument behind it -/
  | output (path : String)
  /-- `-o` with nothing behind it -/
  | noPath
  /-- any other argument -/
  | single (argument : String)
  deriving DecidableEq, Repr

def Group.arguments : Group → List String
  | .output path => ["-o", path]
  | .noPath => ["-o"]
  | .single argument => [argument]

/-- The argument does not start with `-`. -/
def Positional (argument : String) : Prop := argument.toList.head? ≠ some '-'

instance (argument : String) : Decidable (Positional argument) :=
  inferInstanceAs (Decidable (argument.toList.head? ≠ some '-'))

/-- A number of 64 bits, with or without a `+`. -/
def IsCount (s : String) (n : Nat) : Prop := Text.IsNumeral s.toList n ∧ n < UInt64.size

/-- The options without a value. -/
def flags : List String := ["--no-comments", "--annotate-widths", "--no-preamble", "--sequential"]

/-- The options with a value behind them, up to it. -/
def valued : List String := ["--indent=", "--error-limit=", "--message-format="]

namespace Group

/-- What a group sets. -/
inductive Sets : Group → Setting → Prop
  | output (path : String) : Sets (.output path) (.output path)
  | noComments : Sets (.single "--no-comments") (.comments false)
  | annotateWidths : Sets (.single "--annotate-widths") (.annotateWidths true)
  | noPreamble : Sets (.single "--no-preamble") (.preamble false)
  | sequential : Sets (.single "--sequential") (.parallel false)
  | indent {s : String} {n : Nat} (h : IsCount s n) :
      Sets (.single ("--indent=" ++ s)) (.indentWidth n)
  | errorLimit {s : String} {n : Nat} (h : IsCount s n) :
      Sets (.single ("--error-limit=" ++ s)) (.errorLimit n)
  | human : Sets (.single ("--message-format=" ++ "human")) (.format .human)
  | json : Sets (.single ("--message-format=" ++ "json")) (.format .json)
  | input {argument : String} (h : Positional argument) : Sets (.single argument) (.input argument)

/-- What is wrong with a group, wherever it stands. -/
inductive Fault : Group → UsageError → Prop
  | noPath : Fault .noPath .noOutputName
  | indent {s : String} (h : ∀ n, ¬ IsCount s n) :
      Fault (.single ("--indent=" ++ s)) (.notANumber ("--indent=" ++ s))
  | errorLimit {s : String} (h : ∀ n, ¬ IsCount s n) :
      Fault (.single ("--error-limit=" ++ s)) (.notANumber ("--error-limit=" ++ s))
  | format {s : String} (human : s ≠ "human") (json : s ≠ "json") :
      Fault (.single ("--message-format=" ++ s)) (.unknownFormat s)
  | unknown {argument : String} (hdash : ¬ Positional argument) (hflag : argument ∉ flags)
      (hvalued : ∀ name ∈ valued, ∀ s, argument ≠ name ++ s) :
      Fault (.single argument) (.unknownOption argument)

end Group

/-! ## Reading a group -/

/-- What an option without a value sets. -/
def flagSetting? (argument : String) : Option Setting :=
  match argument with
  | "--no-comments" => some (.comments false)
  | "--annotate-widths" => some (.annotateWidths true)
  | "--no-preamble" => some (.preamble false)
  | "--sequential" => some (.parallel false)
  | _ => none

/-- What an argument that stands for itself sets, or what is wrong with it. -/
def readArgument (argument : String) : Except UsageError Setting :=
  match flagSetting? argument with
  | some s => .ok s
  | none =>
    match value? "--indent" argument, value? "--error-limit" argument,
      value? "--message-format" argument with
    | some v, _, _ => (count argument v).map .indentWidth
    | _, some v, _ => (count argument v).map .errorLimit
    | _, _, some v => (formatOfName (String.ofList v)).map .format
    | none, none, none =>
      if argument.startsWith "-" then .error (.unknownOption argument) else .ok (.input argument)

/-- What a group sets, or what is wrong with it. -/
def Group.read : Group → Except UsageError Setting
  | .output path => .ok (.output path)
  | .noPath => .error .noOutputName
  | .single argument => readArgument argument

/-- Sets a field; there is one input file only. -/
def Draft.put (d : Draft) : Setting → Except UsageError Draft
  | .input path =>
    if d.input.isNone then .ok (d.set (.input path)) else .error (.unexpectedArgument path)
  | s => .ok (d.set s)

theorem flag?_eq (argument : String) (d : Draft) :
    (flag? argument d.style).map (fun style => { d with style }) =
      (flagSetting? argument).map d.set := by
  unfold flag? flagSetting?
  split
  · rfl
  · rfl
  · rfl
  · rfl
  · simp [*]

theorem flagSetting?_put {argument : String} {s : Setting}
    (h : flagSetting? argument = some s) (d : Draft) : d.put s = .ok (d.set s) := by
  unfold flagSetting? at h
  split at h <;> cases h <;> rfl

/-- An argument that stands for itself is read, and what it says is done. -/
theorem Draft.apply_eq (d : Draft) (argument : String) :
    d.apply argument = (readArgument argument).bind d.put := by
  have hflag := flag?_eq argument d
  unfold apply readArgument
  cases hs : flagSetting? argument with
  | some s =>
    rw [hs] at hflag
    obtain ⟨style, hstyle, hset⟩ := Option.map_eq_some_iff.mp hflag
    rw [hstyle]
    exact (congrArg Except.ok hset).trans (flagSetting?_put hs d).symm
  | none =>
    rw [hs] at hflag
    rw [Option.map_eq_none_iff.mp hflag]
    cases value? "--indent" argument with
    | some v => cases h : count argument v <;> simp [h, Except.map, Except.bind, put, set]
    | none =>
      cases value? "--error-limit" argument with
      | some v => cases h : count argument v <;> simp [h, Except.map, Except.bind, put, set]
      | none =>
        cases value? "--message-format" argument with
        | some v =>
          cases h : formatOfName (String.ofList v) <;> simp [h, Except.map, Except.bind, put, set]
        | none =>
          cases argument.startsWith "-" with
          | true => rfl
          | false => rfl

/-! ## What is read -/

theorem startsWith_dash_iff (argument : String) :
    argument.startsWith "-" = true ↔ ¬ Positional argument := by
  rw [String.startsWith_string_iff]
  unfold Positional
  cases argument.toList with
  | nil => simp
  | cons c s => simp [eq_comm]

theorem value?_eq_some_iff {name argument : String} {v : List Char} :
    value? name argument = some v ↔ argument = name ++ "=" ++ String.ofList v := by
  unfold value?
  rw [Text.after?_eq_some_iff, ← String.toList_inj]
  simp

theorem count_of_isCount {s : String} {n : Nat} (h : IsCount s n) (argument : String) :
    count argument s.toList = .ok n := by
  unfold count
  rw [Text.numeral?_eq_some_iff.mpr h]

theorem count_of_not_isCount {s : String} (h : ∀ n, ¬ IsCount s n) (argument : String) :
    count argument s.toList = .error (.notANumber argument) := by
  unfold count
  cases hn : Text.numeral? UInt64.size s.toList with
  | some n => exact absurd (Text.numeral?_eq_some_iff.mp hn) (h n)
  | none => rfl

theorem flagSetting?_eq_none {argument : String} (h : argument ∉ flags) :
    flagSetting? argument = none := by
  unfold flagSetting?
  split
  · exact absurd (by decide) h
  · exact absurd (by decide) h
  · exact absurd (by decide) h
  · exact absurd (by decide) h
  · rfl

theorem not_positional_of_mem_flags {argument : String} (h : argument ∈ flags) :
    ¬ Positional argument := by
  simp only [flags, List.mem_cons, List.not_mem_nil, or_false] at h
  rcases h with rfl | rfl | rfl | rfl <;> decide

theorem not_positional_valued {name : String} (h : name ∈ valued) (s : String) :
    ¬ Positional (name ++ s) := by
  simp only [valued, List.mem_cons, List.not_mem_nil, or_false] at h
  rcases h with rfl | rfl | rfl <;> simp [Positional]

theorem valued_not_mem_flags {name : String} (h : name ∈ valued) (s : String) :
    name ++ s ∉ flags := by
  simp only [valued, List.mem_cons, List.not_mem_nil, or_false] at h
  simp only [flags, List.mem_cons, List.not_mem_nil, or_false, ← String.toList_inj,
    String.toList_append]
  rcases h with rfl | rfl | rfl <;> simp

theorem readArgument_indent (s : String) :
    readArgument ("--indent=" ++ s) = (count ("--indent=" ++ s) s.toList).map .indentWidth := by
  have hvalue : value? "--indent" ("--indent=" ++ s) = some s.toList := by simp [value?_eq_some_iff]
  unfold readArgument
  rw [flagSetting?_eq_none (valued_not_mem_flags (by simp [valued]) s), hvalue]

theorem readArgument_errorLimit (s : String) :
    readArgument ("--error-limit=" ++ s) =
      (count ("--error-limit=" ++ s) s.toList).map .errorLimit := by
  have hindent : value? "--indent" ("--error-limit=" ++ s) = none := by simp [value?, Text.after?]
  have hvalue : value? "--error-limit" ("--error-limit=" ++ s) = some s.toList := by
    simp [value?_eq_some_iff]
  unfold readArgument
  rw [flagSetting?_eq_none (valued_not_mem_flags (by simp [valued]) s), hindent, hvalue]

theorem readArgument_format (s : String) :
    readArgument ("--message-format=" ++ s) = (formatOfName s).map .format := by
  have hindent : value? "--indent" ("--message-format=" ++ s) = none := by
    simp [value?, Text.after?]
  have hlimit : value? "--error-limit" ("--message-format=" ++ s) = none := by
    simp [value?, Text.after?]
  have hvalue : value? "--message-format" ("--message-format=" ++ s) = some s.toList := by
    simp [value?_eq_some_iff]
  unfold readArgument
  rw [flagSetting?_eq_none (valued_not_mem_flags (by simp [valued]) s), hindent, hlimit, hvalue]
  show (formatOfName (String.ofList s.toList)).map _ = _
  rw [String.ofList_toList]

theorem readArgument_other {argument : String} (hflag : argument ∉ flags)
    (hvalued : ∀ name ∈ valued, ∀ s, argument ≠ name ++ s) :
    readArgument argument =
      if Positional argument then .ok (.input argument) else .error (.unknownOption argument) := by
  have hnone : ∀ name, name ++ "=" ∈ valued → value? name argument = none := by
    intro name hname
    rw [Option.eq_none_iff_forall_ne_some]
    intro v hv
    exact hvalued _ hname _ (value?_eq_some_iff.mp hv)
  unfold readArgument
  rw [flagSetting?_eq_none hflag, hnone "--indent" (by decide), hnone "--error-limit" (by decide),
    hnone "--message-format" (by decide)]
  simp only [startsWith_dash_iff, ite_not]

theorem readArgument_positional {argument : String} (h : Positional argument) :
    readArgument argument = .ok (.input argument) := by
  rw [readArgument_other, if_pos h]
  · exact fun hflag => not_positional_of_mem_flags hflag h
  · rintro name hname s rfl
    exact not_positional_valued hname s h

namespace Group

theorem read_of_sets {g : Group} {s : Setting} (h : g.Sets s) : g.read = .ok s := by
  cases h with
  | output | noComments | annotateWidths | noPreamble | sequential => rfl
  | indent h => exact (readArgument_indent _).trans (by rw [count_of_isCount h]; rfl)
  | errorLimit h => exact (readArgument_errorLimit _).trans (by rw [count_of_isCount h]; rfl)
  | human => exact readArgument_format "human"
  | json => exact readArgument_format "json"
  | input h => exact readArgument_positional h

theorem read_of_fault {g : Group} {e : UsageError} (h : g.Fault e) : g.read = .error e := by
  cases h with
  | noPath => rfl
  | indent h => exact (readArgument_indent _).trans (by rw [count_of_not_isCount h]; rfl)
  | errorLimit h => exact (readArgument_errorLimit _).trans (by rw [count_of_not_isCount h]; rfl)
  | format human json =>
    refine (readArgument_format _).trans ?_
    unfold formatOfName
    rw [if_neg human, if_neg json]
    rfl
  | unknown hdash hflag hvalued => exact (readArgument_other hflag hvalued).trans (if_neg hdash)

theorem sets_or_fault (g : Group) : (∃ s, g.Sets s) ∨ ∃ e, g.Fault e := by
  cases g with
  | output path => exact .inl ⟨_, .output path⟩
  | noPath => exact .inr ⟨_, .noPath⟩
  | single argument =>
    by_cases hflag : argument ∈ flags
    · simp only [flags, List.mem_cons, List.not_mem_nil, or_false] at hflag
      rcases hflag with rfl | rfl | rfl | rfl
      · exact .inl ⟨_, .noComments⟩
      · exact .inl ⟨_, .annotateWidths⟩
      · exact .inl ⟨_, .noPreamble⟩
      · exact .inl ⟨_, .sequential⟩
    by_cases hvalued : ∃ name ∈ valued, ∃ s, argument = name ++ s
    · obtain ⟨name, hname, s, rfl⟩ := hvalued
      simp only [valued, List.mem_cons, List.not_mem_nil, or_false] at hname
      rcases hname with rfl | rfl | rfl
      · by_cases hn : ∃ n, IsCount s n
        · exact .inl ⟨_, .indent hn.choose_spec⟩
        · exact .inr ⟨_, .indent (not_exists.mp hn)⟩
      · by_cases hn : ∃ n, IsCount s n
        · exact .inl ⟨_, .errorLimit hn.choose_spec⟩
        · exact .inr ⟨_, .errorLimit (not_exists.mp hn)⟩
      · by_cases human : s = "human"
        · subst human
          exact .inl ⟨_, .human⟩
        by_cases json : s = "json"
        · subst json
          exact .inl ⟨_, .json⟩
        exact .inr ⟨_, .format human json⟩
    by_cases hpos : Positional argument
    · exact .inl ⟨_, .input hpos⟩
    · exact .inr ⟨_, .unknown hpos hflag fun name hname s h => hvalued ⟨name, hname, s, h⟩⟩

theorem Sets.unique {g : Group} {s s' : Setting} (h : g.Sets s) (h' : g.Sets s') : s = s' :=
  Except.ok.inj ((read_of_sets h).symm.trans (read_of_sets h'))

theorem Fault.unique {g : Group} {e e' : UsageError} (h : g.Fault e) (h' : g.Fault e') : e = e' :=
  Except.error.inj ((read_of_fault h).symm.trans (read_of_fault h'))

theorem Sets.not_fault {g : Group} {s : Setting} (h : g.Sets s) (e : UsageError) : ¬ g.Fault e := by
  intro he
  have hread := (read_of_sets h).symm.trans (read_of_fault he)
  cases hread

theorem read_eq_ok_iff {g : Group} {s : Setting} : g.read = .ok s ↔ g.Sets s := by
  refine ⟨fun h => ?_, read_of_sets⟩
  rcases g.sets_or_fault with ⟨s', hs⟩ | ⟨e, he⟩
  · rw [read_of_sets hs] at h
    cases h
    exact hs
  · rw [read_of_fault he] at h
    cases h

end Group

end WireTypes.Options
