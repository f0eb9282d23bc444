import Mathlib.Data.List.Basic
import Mathlib.Data.List.Induction
import WireTypes.Proofs.Options.Settings

/-!
# The order of arguments

Arguments are read group by group (`applyAll_eq`).  Nothing depends on the order of groups that set
different fields: what goes wrong is the first offence (`run_cases`), and where nothing does, each
field has what the last group that sets it says, or its default.

* `clean_iff`: there is no offence if every group sets something, and at most one of them names an
  input file;
* `parse_outcome`: when arguments are accepted, what they give, which orders give the same, and
  which error is reported.
-/

namespace WireTypes.Options

/-- Splits arguments into groups, from the left. -/
def groups : List String → List Group
  | [] => []
  | ["-o"] => [.noPath]
  | "-o" :: path :: rest => .output path :: groups rest
  | argument :: rest => .single argument :: groups rest

theorem groups_single {argument : String} (h : argument ≠ "-o") (rest : List String) :
    groups (argument :: rest) = .single argument :: groups rest := by
  rw [groups]
  · exact fun hdash => absurd hdash h
  · exact fun _ _ hdash => absurd hdash h

theorem ne_dash {argument : String} {rest : List String}
    (hlast : argument = "-o" → rest = [] → False)
    (hout : ∀ path behind, argument = "-o" → rest = path :: behind → False) : argument ≠ "-o" := by
  rintro rfl
  cases rest with
  | nil => exact hlast rfl rfl
  | cons path behind => exact hout path behind rfl rfl

theorem flatMap_arguments_groups (arguments : List String) :
    (groups arguments).flatMap Group.arguments = arguments := by
  fun_induction groups arguments with
  | case1 => rfl
  | case2 => rfl
  | case3 path rest ih => rw [List.flatMap_cons, ih]; rfl
  | case4 argument rest _ _ ih => rw [List.flatMap_cons, ih]; rfl

theorem ne_dash_of_mem_groups {arguments : List String} {argument : String}
    (h : .single argument ∈ groups arguments) : argument ≠ "-o" := by
  fun_induction groups arguments with
  | case1 => cases h
  | case2 => simp at h
  | case3 path rest ih => exact ih (by simpa using h)
  | case4 first rest hlast hout ih =>
    rcases List.mem_cons.mp h with h | h
    · cases h
      exact ne_dash hlast hout
    · exact ih h

/-- Groups that are complete are found again when their arguments are read. -/
theorem groups_flatMap_arguments {gs : List Group} (hpath : Group.noPath ∉ gs)
    (hdash : ∀ argument, .single argument ∈ gs → argument ≠ "-o") :
    groups (gs.flatMap Group.arguments) = gs := by
  induction gs with
  | nil => rfl
  | cons g gs ih =>
    have hrest :=
      ih (fun h => hpath (List.mem_cons_of_mem g h)) fun a h => hdash a (List.mem_cons_of_mem g h)
    rw [List.flatMap_cons]
    cases g with
    | noPath => exact absurd List.mem_cons_self hpath
    | output path =>
      show groups ("-o" :: path :: gs.flatMap Group.arguments) = _
      rw [groups, hrest]
    | single argument =>
      show groups (argument :: gs.flatMap Group.arguments) = _
      rw [groups_single (hdash argument List.mem_cons_self), hrest]

/-- Reads a group and does what it says. -/
def Draft.applyGroup (d : Draft) (g : Group) : Except UsageError Draft := g.read.bind d.put

theorem Draft.applyAll_eq (d : Draft) (arguments : List String) :
    d.applyAll arguments = (groups arguments).foldlM applyGroup d := by
  fun_induction Draft.applyAll d arguments with
  | case1 d => rfl
  | case2 d => rfl
  | case3 d path rest ih => rw [ih, groups, List.foldlM_cons]; rfl
  | case4 d argument rest hlast hout d' happly ih =>
    have hstep : d.applyGroup (.single argument) = .ok d' := (d.apply_eq argument).symm.trans happly
    rw [ih, groups_single (ne_dash hlast hout), List.foldlM_cons, hstep]
    rfl
  | case5 d argument rest hlast hout e happly =>
    have hstep : d.applyGroup (.single argument) = .error e :=
      (d.apply_eq argument).symm.trans happly
    rw [groups_single (ne_dash hlast hout), List.foldlM_cons, hstep]
    rfl

/-! ## Offences -/

/-- The group names an input file. -/
def Group.IsPositional : Group → Prop
  | .single argument => Positional argument
  | _ => False

instance : DecidablePred Group.IsPositional
  | .single argument => inferInstanceAs (Decidable (Positional argument))
  | .output _ => inferInstanceAs (Decidable False)
  | .noPath => inferInstanceAs (Decidable False)

/-- What is wrong with a group behind others: it is at fault by itself, or names a second input
file. -/
inductive Offends (before : List Group) : Group → UsageError → Prop
  | fault {g : Group} {e : UsageError} (h : g.Fault e) : Offends before g e
  | again {argument : String} (h : Positional argument) (hbefore : ∃ g ∈ before, g.IsPositional) :
      Offends before (.single argument) (.unexpectedArgument argument)

/-- Nothing is wrong with any of the groups. -/
def Clean (gs : List Group) : Prop :=
  ∀ before g after, gs = before ++ g :: after → ∀ e, ¬ Offends before g e

/-- Something is wrong, and `e` is what comes first. -/
def FirstOffence (gs : List Group) (e : UsageError) : Prop :=
  ∃ before g after, gs = before ++ g :: after ∧ Clean before ∧ Offends before g e

theorem clean_nil : Clean [] := fun before g after h => by simp at h

theorem clean_concat {gs : List Group} {g : Group} :
    Clean (gs ++ [g]) ↔ Clean gs ∧ ∀ e, ¬ Offends gs g e := by
  constructor
  · intro h
    refine ⟨?_, h gs g [] rfl⟩
    rintro before g' after rfl
    exact h before g' (after ++ [g]) (by simp)
  · rintro ⟨h, hlast⟩ before g' after hgs
    rcases List.eq_nil_or_concat after with rfl | ⟨after, g'', rfl⟩
    · obtain ⟨rfl, hg⟩ := List.append_inj' hgs rfl
      cases hg
      exact hlast
    · refine h before g' after ?_
      have hsplit : gs ++ [g] = (before ++ g' :: after) ++ [g''] := by simpa using hgs
      exact (List.append_inj' hsplit rfl).1

/-- Behind an offence nothing matters. -/
theorem FirstOffence.append {gs : List Group} {e : UsageError} (h : FirstOffence gs e)
    (gs' : List Group) : FirstOffence (gs ++ gs') e := by
  obtain ⟨before, g, after, rfl, hclean, he⟩ := h
  exact ⟨before, g, after ++ gs', by simp, hclean, he⟩

theorem FirstOffence.not_clean {gs : List Group} {e : UsageError} (h : FirstOffence gs e) :
    ¬ Clean gs := by
  obtain ⟨before, g, after, rfl, -, he⟩ := h
  exact fun hclean => hclean before g after rfl e he

theorem Group.sets_input_iff {g : Group} {path : String} :
    g.Sets (.input path) ↔ g = .single path ∧ Positional path := by
  constructor
  · intro h
    cases h with
    | input h => exact ⟨rfl, h⟩
  · rintro ⟨rfl, h⟩
    exact .input h

theorem Group.isPositional_iff {g : Group} : g.IsPositional ↔ ∃ s, g.Sets s ∧ s.field = .input := by
  constructor
  · intro h
    cases g with
    | single argument => exact ⟨_, .input h, rfl⟩
    | output path => cases h
    | noPath => cases h
  · rintro ⟨s, hs, hfield⟩
    cases s with
    | input path =>
      obtain ⟨rfl, h⟩ := sets_input_iff.mp hs
      exact h
    | _ => cases hfield

/-- A group does not offend if it sets something, unless it names another input file. -/
theorem not_offends_iff {before : List Group} {g : Group} : (∀ e, ¬ Offends before g e) ↔
    (∃ s, g.Sets s) ∧ (g.IsPositional → ∀ b ∈ before, ¬ b.IsPositional) := by
  constructor
  · intro h
    refine ⟨?_, fun hg b hb hpos => ?_⟩
    · rcases g.sets_or_fault with hs | ⟨e, he⟩
      · exact hs
      · exact absurd (.fault he) (h e)
    · cases g with
      | single argument => exact h _ (.again hg ⟨b, hb, hpos⟩)
      | output path => cases hg
      | noPath => cases hg
  · rintro ⟨⟨s, hs⟩, honce⟩ e he
    cases he with
    | fault he => exact hs.not_fault e he
    | again hpos hbefore =>
      obtain ⟨b, hb, hb'⟩ := hbefore
      exact honce hpos b hb hb'

/-- Groups are in order if each of them sets something, and at most one names an input file. -/
theorem clean_iff {gs : List Group} :
    Clean gs ↔ (∀ g ∈ gs, ∃ s, g.Sets s) ∧ gs.countP Group.IsPositional ≤ 1 := by
  induction gs using List.reverseRecOn with
  | nil => simp [clean_nil]
  | append_singleton gs g ih =>
    rw [clean_concat, ih, not_offends_iff, List.forall_mem_append, List.forall_mem_singleton,
      List.countP_append, List.countP_singleton]
    by_cases hpos : g.IsPositional
    · have hnone : (∀ b ∈ gs, ¬ b.IsPositional) ↔ gs.countP Group.IsPositional = 0 := by
        simp [List.countP_eq_zero]
      simp only [hpos, decide_true, if_true, forall_const, hnone]
      constructor
      · rintro ⟨⟨hall, -⟩, hg, hzero⟩
        exact ⟨⟨hall, hg⟩, by omega⟩
      · rintro ⟨⟨hall, hg⟩, hle⟩
        exact ⟨⟨hall, by omega⟩, hg, by omega⟩
    · simp [hpos]
      tauto

/-! ## Runs -/

/-- What a group sets, if it is in order. -/
def Group.setting? (g : Group) : Option Setting := g.read.toOption

theorem Group.setting?_eq_some_iff {g : Group} {s : Setting} : g.setting? = some s ↔ g.Sets s := by
  rw [← read_eq_ok_iff]
  unfold setting?
  cases g.read with
  | ok s' => simp [Except.toOption]
  | error e => simp [Except.toOption]

/-- What groups set, in order. -/
def settings (gs : List Group) : List Setting := gs.filterMap Group.setting?

theorem mem_settings {gs : List Group} {s : Setting} : s ∈ settings gs ↔ ∃ g ∈ gs, g.Sets s := by
  unfold settings
  rw [List.mem_filterMap]
  simp only [Group.setting?_eq_some_iff]

def draft (gs : List Group) : Draft := (settings gs).foldl Draft.set .initial

theorem current_draft (gs : List Group) (f : Field) :
    (draft gs).current f = (lastSetting? f (settings gs)).or (Draft.initial.current f) :=
  Draft.current_foldl f (settings gs) .initial

theorem draft_concat {gs : List Group} {g : Group} {s : Setting} (h : g.Sets s) :
    draft (gs ++ [g]) = (draft gs).set s := by
  unfold draft settings
  rw [List.filterMap_append, List.filterMap_cons_some (Group.setting?_eq_some_iff.mpr h),
    List.filterMap_nil, List.foldl_concat]

theorem isSome_input_draft (gs : List Group) :
    (draft gs).input.isSome = true ↔ ∃ g ∈ gs, g.IsPositional := by
  have hinput : (draft gs).input.map Setting.input = lastSetting? .input (settings gs) := by
    rw [← Option.or_none (o := lastSetting? .input (settings gs))]
    exact current_draft gs .input
  rw [← Option.isSome_map (f := Setting.input), hinput, Option.isSome_iff_ne_none, ne_eq,
    lastSetting?_eq_none_iff]
  simp only [Group.isPositional_iff, mem_settings]
  constructor
  · intro h
    by_contra hnone
    refine h fun s hs hfield => ?_
    obtain ⟨g, hg, hs⟩ := hs
    exact hnone ⟨g, hg, s, hs, hfield⟩
  · rintro ⟨g, hg, s, hs, hfield⟩ h
    exact h s ⟨g, hg, hs⟩ hfield

theorem Draft.put_of_field_ne {s : Setting} (h : s.field ≠ .input) (d : Draft) :
    d.put s = .ok (d.set s) := by
  cases s with
  | input path => exact absurd rfl h
  | _ => rfl

/-- One group more: it does not offend, and sets what it says, or it offends. -/
theorem applyGroup_draft (gs : List Group) (g : Group) :
    (∀ e, ¬ Offends gs g e) ∧ (draft gs).applyGroup g = .ok (draft (gs ++ [g])) ∨
    ∃ e, Offends gs g e ∧ (draft gs).applyGroup g = .error e := by
  unfold Draft.applyGroup
  rcases g.sets_or_fault with ⟨s, hs⟩ | ⟨e, he⟩
  · have hput : g.read.bind (draft gs).put = (draft gs).put s := by
      rw [Group.read_of_sets hs]
      rfl
    by_cases hpos : g.IsPositional ∧ ∃ b ∈ gs, b.IsPositional
    · right
      obtain ⟨hg, hbefore⟩ := hpos
      obtain ⟨s', hs', hfield⟩ := Group.isPositional_iff.mp hg
      cases s' with
      | input path =>
        obtain ⟨rfl, hpath⟩ := Group.sets_input_iff.mp hs'
        obtain rfl := hs.unique hs'
        have hsome := (isSome_input_draft gs).mpr hbefore
        refine ⟨_, .again hpath hbefore, hput.trans (if_neg ?_)⟩
        rw [Option.isNone_iff_eq_none]
        exact fun hnone => by simp [hnone] at hsome
      | _ => cases hfield
    · left
      refine ⟨not_offends_iff.mpr ⟨⟨s, hs⟩, fun hg b hb hb' => hpos ⟨hg, b, hb, hb'⟩⟩, ?_⟩
      rw [hput, draft_concat hs]
      by_cases hfield : s.field = .input
      · have hnone : (draft gs).input.isNone = true := by
          rw [← Option.not_isSome, Bool.not_eq_true', Bool.eq_false_iff, ne_eq, isSome_input_draft]
          exact fun hbefore => hpos ⟨Group.isPositional_iff.mpr ⟨s, hs, hfield⟩, hbefore⟩
        cases s with
        | input path => exact if_pos hnone
        | _ => cases hfield
      · exact Draft.put_of_field_ne hfield _
  · right
    refine ⟨e, .fault he, ?_⟩
    rw [Group.read_of_fault he]
    rfl

/-- A run ends with the first offence, or with all that the groups set. -/
theorem run_cases (gs : List Group) :
    Clean gs ∧ gs.foldlM Draft.applyGroup .initial = .ok (draft gs) ∨
    ∃ e, FirstOffence gs e ∧ gs.foldlM Draft.applyGroup .initial = .error e := by
  induction gs using List.reverseRecOn with
  | nil => exact .inl ⟨clean_nil, rfl⟩
  | append_singleton gs g ih =>
    rw [List.foldlM_append]
    rcases ih with ⟨hclean, hrun⟩ | ⟨e, he, hrun⟩
    · rw [hrun]
      rcases applyGroup_draft gs g with ⟨hno, hstep⟩ | ⟨e, he, hstep⟩
      · refine .inl ⟨clean_concat.mpr ⟨hclean, hno⟩, ?_⟩
        show (draft gs).applyGroup g >>= pure = _
        rw [bind_pure, hstep]
      · refine .inr ⟨e, ⟨gs, g, [], rfl, hclean, he⟩, ?_⟩
        show (draft gs).applyGroup g >>= pure = _
        rw [bind_pure, hstep]
    · rw [hrun]
      exact .inr ⟨e, he.append [g], rfl⟩

/-! ## Complete options -/

/-- Arguments give options if nothing is wrong with them and one of them names an input file. -/
theorem parse_eq_ok_iff {arguments : List String} {o : Options} : parse arguments = .ok o ↔
    Clean (groups arguments) ∧ (draft (groups arguments)).finish = .ok o := by
  unfold parse
  rw [Draft.applyAll_eq]
  rcases run_cases (groups arguments) with ⟨hclean, hrun⟩ | ⟨e, he, hrun⟩
  · rw [hrun]
    exact (and_iff_right hclean).symm
  · rw [hrun]
    constructor
    · intro h
      cases h
    · intro h
      exact absurd h.1 he.not_clean

theorem finish_eq_ok_iff {d : Draft} {o : Options} :
    d.finish = .ok o ↔ d.input.isSome = true ∧ ∀ f, o.current f = d.current f := by
  obtain ⟨input, output, style, diagnostics, format⟩ := d
  unfold Draft.finish
  cases input with
  | none => simp
  | some input =>
    simp only [Except.ok.injEq, Option.isSome_some, true_and]
    constructor
    · rintro rfl f
      rfl
    · intro h
      exact ext_current fun f => (h f).symm

/-- Each group sets something, and exactly one names the input file. -/
structure Accepted (gs : List Group) : Prop where
  known : ∀ g ∈ gs, ∃ s, g.Sets s
  one : gs.countP Group.IsPositional = 1

theorem accepted_iff {gs : List Group} :
    Accepted gs ↔ Clean gs ∧ (draft gs).input.isSome = true := by
  have hsome : (∃ g ∈ gs, g.IsPositional) ↔ 0 < gs.countP Group.IsPositional := by
    simp [List.countP_pos_iff]
  rw [clean_iff, isSome_input_draft, hsome]
  constructor
  · rintro ⟨hknown, hone⟩
    exact ⟨⟨hknown, Nat.le_of_eq hone⟩, by omega⟩
  · rintro ⟨⟨hknown, hle⟩, hpos⟩
    exact ⟨hknown, by omega⟩

theorem exists_parse_iff {arguments : List String} :
    (∃ o, parse arguments = .ok o) ↔ Accepted (groups arguments) := by
  simp only [parse_eq_ok_iff, exists_and_left, accepted_iff]
  refine and_congr_right fun _ => ?_
  unfold Draft.finish
  cases (draft (groups arguments)).input <;> simp

/-- The group sets the field. -/
def Group.SetsField (f : Field) (g : Group) : Prop := ∃ s, g.Sets s ∧ s.field = f

instance (f : Field) : DecidablePred (Group.SetsField f) := fun g =>
  decidable_of_iff (∃ s ∈ g.setting?, s.field = f) <| by
    simp only [Group.SetsField, Option.mem_def, Group.setting?_eq_some_iff]

theorem Group.Sets.setsField_iff {g : Group} {s : Setting} (hs : g.Sets s) {f : Field} :
    g.SetsField f ↔ s.field = f := by
  constructor
  · rintro ⟨s', hs', hfield⟩
    exact hs.unique hs' ▸ hfield
  · exact fun hfield => ⟨s, hs, hfield⟩

/-- The field is set as the last group says that sets it, or as it was. -/
inductive SetByLast (gs : List Group) (f : Field) (initial : Option Setting) : Option Setting → Prop
  | last {before after : List Group} {g : Group} {s : Setting} (hgs : gs = before ++ g :: after)
      (hs : g.Sets s) (hfield : s.field = f) (hafter : ∀ g' ∈ after, ¬ g'.SetsField f) :
      SetByLast gs f initial (some s)
  | unset (h : ∀ g ∈ gs, ¬ g.SetsField f) : SetByLast gs f initial initial

theorem SetByLast.concat {gs : List Group} {f : Field} {initial current : Option Setting}
    (h : SetByLast gs f initial current) {g : Group} (hg : ¬ g.SetsField f) :
    SetByLast (gs ++ [g]) f initial current := by
  cases h with
  | @last before after g' s hgs hs hfield hafter =>
    have hsplit : gs ++ [g] = before ++ g' :: (after ++ [g]) := by
      rw [hgs, List.append_assoc, List.cons_append]
    refine .last hsplit hs hfield ?_
    exact List.forall_mem_append.mpr ⟨hafter, List.forall_mem_singleton.mpr hg⟩
  | unset h => exact .unset (List.forall_mem_append.mpr ⟨h, List.forall_mem_singleton.mpr hg⟩)

theorem setByLast_draft {gs : List Group} (hgs : ∀ g ∈ gs, ∃ s, g.Sets s) (f : Field) :
    SetByLast gs f (Draft.initial.current f) ((draft gs).current f) := by
  induction gs using List.reverseRecOn with
  | nil => exact .unset (List.forall_mem_nil _)
  | append_singleton gs g ih =>
    obtain ⟨hgs, s, hs⟩ :=
      (List.forall_mem_append.trans (and_congr_right fun _ => List.forall_mem_singleton)).mp hgs
    rw [draft_concat hs, Draft.current_set]
    by_cases hfield : s.field = f
    · rw [if_pos hfield]
      exact .last rfl hs hfield (List.forall_mem_nil _)
    · rw [if_neg hfield]
      exact (ih hgs).concat (hs.setsField_iff.not.mpr hfield)

/-! ## Other orders -/

theorem filter_setting? (f : Field) (g : Group) :
    g.setting?.filter (fun s => s.field = f) = if g.SetsField f then g.setting? else none := by
  cases hg : g.setting? with
  | none => rw [Option.filter_none, ite_self]
  | some s =>
    rw [Option.filter_some]
    simp only [(Group.setting?_eq_some_iff.mp hg).setsField_iff, decide_eq_true_eq]

theorem filter_settings (f : Field) (gs : List Group) :
    (settings gs).filter (fun s => s.field = f) = settings (gs.filter fun g => g.SetsField f) := by
  unfold settings
  rw [List.filter_filterMap, List.filterMap_filter]
  simp only [filter_setting?, decide_eq_true_eq]

/-- The groups that set a field, in their order, are all that its value depends on. -/
theorem current_draft_congr {gs gs' : List Group} {f : Field}
    (h : (gs.filter fun g => g.SetsField f) = gs'.filter fun g => g.SetsField f) :
    (draft gs).current f = (draft gs').current f := by
  rw [current_draft, current_draft]
  unfold lastSetting?
  rw [filter_settings, filter_settings, h]

theorem Accepted.perm {gs gs' : List Group} (h : Accepted gs) (hperm : gs'.Perm gs) :
    Accepted gs' :=
  ⟨fun g hg => h.known g (hperm.mem_iff.mp hg), (hperm.countP_eq _).trans h.one⟩

theorem parse_reordered {arguments : List String} {o : Options} (ho : parse arguments = .ok o)
    {gs : List Group} (hperm : gs.Perm (groups arguments))
    (hfields : ∀ f, (gs.filter fun g => g.SetsField f) =
      (groups arguments).filter fun g => g.SetsField f) :
    groups (gs.flatMap Group.arguments) = gs ∧ parse (gs.flatMap Group.arguments) = .ok o := by
  have haccepted := exists_parse_iff.mp ⟨o, ho⟩
  have hagain : groups (gs.flatMap Group.arguments) = gs := by
    refine groups_flatMap_arguments (fun hmem => ?_) fun argument hmem => ?_
    · obtain ⟨s, hs⟩ := haccepted.known _ (hperm.mem_iff.mp hmem)
      cases hs
    · exact ne_dash_of_mem_groups (hperm.mem_iff.mp hmem)
  refine ⟨hagain, ?_⟩
  rw [parse_eq_ok_iff, hagain, finish_eq_ok_iff]
  obtain ⟨hclean, hinput⟩ := accepted_iff.mp (haccepted.perm hperm)
  refine ⟨hclean, hinput, fun f => ?_⟩
  rw [current_draft_congr (hfields f)]
  exact (finish_eq_ok_iff.mp (parse_eq_ok_iff.mp ho).2).2 f

/-! ## The first offence -/

theorem Offends.unique {before : List Group} {g : Group} {e e' : UsageError}
    (h : Offends before g e) (h' : Offends before g e') : e = e' := by
  cases h with
  | fault h =>
    cases h' with
    | fault h' => exact h.unique h'
    | again hpos _ => exact absurd h (Group.Sets.not_fault (.input hpos) e)
  | again hpos _ =>
    cases h' with
    | fault h' => exact absurd h' (Group.Sets.not_fault (.input hpos) e')
    | again _ _ => rfl

theorem FirstOffence.unique {gs : List Group} {e e' : UsageError} (h : FirstOffence gs e)
    (h' : FirstOffence gs e') : e = e' := by
  obtain ⟨before, g, after, rfl, hclean, he⟩ := h
  obtain ⟨before', g', after', hsplit, hclean', he'⟩ := h'
  rcases List.append_eq_append_iff.mp hsplit with ⟨between, rfl, htail⟩ | ⟨between, rfl, htail⟩
  · cases between with
    | nil =>
      rw [List.append_nil] at he'
      cases htail
      exact he.unique he'
    | cons b between =>
      cases htail
      exact absurd he (hclean' before g between rfl e)
  · cases between with
    | nil =>
      rw [List.append_nil] at he
      cases htail
      exact he.unique he'
    | cons b between =>
      cases htail
      exact absurd he' (hclean before' g' between rfl e')

/-- What is reported is the first offence; that the input file is missing is said last. -/
theorem parse_eq_error_iff {arguments : List String} {e : UsageError} : parse arguments = .error e ↔
    FirstOffence (groups arguments) e ∨
      Clean (groups arguments) ∧ (∀ g ∈ groups arguments, ¬ g.IsPositional) ∧ e = .noInput := by
  have hinput := isSome_input_draft (groups arguments)
  unfold parse
  rw [Draft.applyAll_eq]
  rcases run_cases (groups arguments) with ⟨hclean, hrun⟩ | ⟨e', he', hrun⟩
  · rw [hrun]
    show (draft (groups arguments)).finish = .error e ↔ _
    unfold Draft.finish
    cases hd : (draft (groups arguments)).input with
    | some input =>
      rw [hd] at hinput
      obtain ⟨g, hg, hpos⟩ := hinput.mp rfl
      constructor
      · intro h
        cases h
      · rintro (h | ⟨-, hnone, -⟩)
        · exact absurd hclean h.not_clean
        · exact absurd hpos (hnone g hg)
    | none =>
      rw [hd] at hinput
      constructor
      · intro h
        cases h
        refine .inr ⟨hclean, fun g hg hpos => ?_, rfl⟩
        exact Bool.false_ne_true (hinput.mpr ⟨g, hg, hpos⟩)
      · rintro (h | ⟨-, -, rfl⟩)
        · exact absurd hclean h.not_clean
        · rfl
  · rw [hrun]
    constructor
    · intro h
      cases h
      exact .inl he'
    · rintro (h | ⟨hclean, -⟩)
      · rw [he'.unique h]
        rfl
      · exact absurd hclean he'.not_clean

/-- **The order of arguments.**  The groups are the arguments, split up.  They are accepted exactly
if each of them sets something and one names an input file; then each field is set by the last group
that sets it, or has its default, and any other order that keeps the order among the groups of each
field gives the same options.  Otherwise the error is the first offence, or, if there is none, that
the input file is missing. -/
theorem parse_outcome (arguments : List String) :
    (groups arguments).flatMap Group.arguments = arguments ∧
    ((∃ o, parse arguments = .ok o) ↔ Accepted (groups arguments)) ∧
    (∀ o, parse arguments = .ok o →
      (∀ f, SetByLast (groups arguments) f (Draft.initial.current f) (o.current f)) ∧
      ∀ gs : List Group, gs.Perm (groups arguments) →
        (∀ f, (gs.filter fun g => g.SetsField f) =
          (groups arguments).filter fun g => g.SetsField f) →
        groups (gs.flatMap Group.arguments) = gs ∧ parse (gs.flatMap Group.arguments) = .ok o) ∧
    (∀ e, parse arguments = .error e ↔ FirstOffence (groups arguments) e ∨
      Clean (groups arguments) ∧ (∀ g ∈ groups arguments, ¬ g.IsPositional) ∧ e = .noInput) := by
  refine ⟨flatMap_arguments_groups arguments, exists_parse_iff,
    fun o ho => ⟨fun f => ?_, fun gs hperm hfields => ?_⟩,
    fun e => parse_eq_error_iff⟩
  · have hknown := (exists_parse_iff.mp ⟨o, ho⟩).known
    rw [(finish_eq_ok_iff.mp (parse_eq_ok_iff.mp ho).2).2 f]
    exact setByLast_draft hknown f
  · exact parse_reordered ho hperm hfields

/-- An output file that looks like an option, and an option that is given twice. -/
theorem parse_outcome_reordered :
    let arguments := ["-o", "--indent=9", "--indent=+2", "t.json", "--sequential", "--indent=08"]
    ∃ o, parse arguments = .ok o ∧ o.output = some "--indent=9" ∧ o.style.indentWidth = 8 ∧
      parse ["--sequential", "--indent=+2", "--indent=08", "-o", "--indent=9",
        "t.json"] = .ok o := by
  intro arguments
  let o : Options :=
    ⟨"t.json", some "--indent=9", { Style.standard with indentWidth := 8, parallel := false },
    .standard, .human⟩
  have ho : parse arguments = .ok o := by decide +kernel
  obtain ⟨-, -, hok, -⟩ := parse_outcome arguments
  refine ⟨o, ho, rfl, rfl, ?_⟩
  have hperm := (hok o ho).2 [.single "--sequential", .single "--indent=+2", .single "--indent=08",
    .output "--indent=9", .single "t.json"]
      (by decide +kernel) fun f => by cases f <;> decide +kernel
  exact hperm.2

end WireTypes.Options
