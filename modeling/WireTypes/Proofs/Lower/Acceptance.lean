import WireTypes.Proofs.Lower.Cycles

/-!
# Which types are accepted

`WellFormed t ty` says what a type must be for C, over the graph of the table and without lowering
anything: no type of variable width, no header that ends within a byte or is too wide, no name
without a declaration and, the predicate being inductive, no cycle.

* `Lowers.isError`, `Lowers.foundByLowering`: all that lowering reports are errors, with codes of
  their own;
* `Lowers.sized`: where nothing is reported there is a C type of fixed width;
* `Lowers.reports_eq_nil_iff`: apart from cycles, silence and well-formedness are one;
* `WellFormed.ends`: a well-formed type has no cycles;
* `Built.create_clean_iff`: an empty queue is still empty after a type exactly if the type is
  well-formed.
-/

namespace WireTypes

/-- The codes of what can be wrong with a type when it is lowered; the others concern
what is done with types. -/
def Code.foundByLowering : Code → Bool
  | .widthOfUnsized => false
  | .internal => false
  | .tooManyErrors => false
  | _ => true

namespace TypeTable

/-- The type can be lowered to C as it stands. -/
inductive WellFormed (t : TypeTable) : TypeId → Prop
  | bool {ty : TypeId} (hk : t.kind ty = .bool) : WellFormed t ty
  | bits {ty : TypeId} {width : UInt32} {signed : Bool} (hk : t.kind ty = .bits width signed) :
      WellFormed t ty
  | enum {ty : TypeId} {n : Name} {members : List Name} (hk : t.kind ty = .enum n members) :
      WellFormed t ty
  | header {ty : TypeId} {n : Name} {fields : List Field} {widths : List Nat}
      (hk : t.kind ty = .header n fields)
      (hw : fields.map t.fieldWidth? = widths.map some) (hbytes : 8 ∣ widths.sum)
      (hmax : widths.sum < UInt32.size) : WellFormed t ty
  | aggregate {ty : TypeId} {form : AggregateForm} {n : Name} {fields : List Field}
      (hk : t.kind ty = .aggregate form n fields) (hf : ∀ f ∈ fields, WellFormed t f.type) :
      WellFormed t ty
  | stack {ty element : TypeId} {size : UInt32} (hk : t.kind ty = .stack element size)
      (he : WellFormed t element) :
      WellFormed t ty
  | named {ty target : TypeId} {n : Name} (hk : t.kind ty = .named n)
      (hl : t.lookup n = some target) (ht : WellFormed t target) : WellFormed t ty

/-- What well-formedness asks of a node of each shape. -/
theorem wellFormed_iff {t : TypeTable} {ty : TypeId} :
    t.WellFormed ty ↔ match t.kind ty with
      | .bool | .bits _ _ | .enum _ _ => True
      | .varbits _ => False
      | .header _ fields =>
        ∃ widths : List Nat, fields.map t.fieldWidth? = widths.map some ∧ 8 ∣ widths.sum ∧
          widths.sum < UInt32.size
      | .aggregate _ _ fields => ∀ f ∈ fields, t.WellFormed f.type
      | .stack element _ => t.WellFormed element
      | .named n => ∃ target, t.lookup n = some target ∧ t.WellFormed target := by
  constructor
  · intro h
    cases h with
    | bool hk | bits hk | enum hk => simp only [hk]
    | header hk hw hbytes hmax =>
      simp only [hk]
      exact ⟨_, hw, hbytes, hmax⟩
    | aggregate hk hf =>
      simp only [hk]
      exact hf
    | stack hk he =>
      simp only [hk]
      exact he
    | named hk hl ht =>
      simp only [hk]
      exact ⟨_, hl, ht⟩
  · intro h
    cases hk : t.kind ty with
    | bool => exact .bool hk
    | bits width signed => exact .bits hk
    | enum n members => exact .enum hk
    | varbits width => simp only [hk] at h
    | header n fields =>
      simp only [hk] at h
      obtain ⟨widths, hw, hbytes, hmax⟩ := h
      exact .header hk hw hbytes hmax
    | aggregate form n fields =>
      simp only [hk] at h
      exact .aggregate hk h
    | stack element size =>
      simp only [hk] at h
      exact .stack hk h
    | named n =>
      simp only [hk] at h
      obtain ⟨target, hl, ht⟩ := h
      exact .named hk hl ht

/-! ## What is reported -/

theorem Lowers.isError {t : TypeTable} {path : List Name} {ty : TypeId} {x : Lowered}
    (h : t.Lowers path ty x) : ∀ d ∈ x.reports, d.isError = true := by
  induction h with
  | bool hk | bits hk | enum hk =>
    intro d hd
    cases hd
  | varbits hk | cycle hk hn | unknown hk hn hl =>
    intro d hd
    obtain rfl := List.mem_singleton.mp hd
    rfl
  | header hk =>
    intro d hd
    rcases mem_reports_lowerHeader hd with ⟨f, -, rfl | ⟨w, rfl⟩ | ⟨kind, rfl⟩⟩ | ⟨w, rfl⟩ <;> rfl
  | aggregate hk hx ih =>
    intro d hd
    obtain ⟨f, hf, hd | ⟨-, rfl⟩⟩ := (mem_reports_assemble fun f hf => (hx f hf).reported).mp hd
    · exact ih f hf d hd
    · rfl
  | stack hk hx ih => exact ih
  | declared hk hn hl hx ih => exact ih

theorem Lowers.foundByLowering {t : TypeTable} {path : List Name} {ty : TypeId} {x : Lowered}
    (h : t.Lowers path ty x) : ∀ d ∈ x.reports, d.code.foundByLowering = true := by
  induction h with
  | bool hk | bits hk | enum hk =>
    intro d hd
    cases hd
  | varbits hk | cycle hk hn | unknown hk hn hl =>
    intro d hd
    obtain rfl := List.mem_singleton.mp hd
    rfl
  | header hk =>
    intro d hd
    rcases mem_reports_lowerHeader hd with ⟨f, -, rfl | ⟨w, rfl⟩ | ⟨kind, rfl⟩⟩ | ⟨w, rfl⟩ <;> rfl
  | aggregate hk hx ih =>
    intro d hd
    obtain ⟨f, hf, hd | ⟨-, rfl⟩⟩ := (mem_reports_assemble fun f hf => (hx f hf).reported).mp hd
    · exact ih f hf d hd
    · rfl
  | stack hk hx ih => exact ih
  | declared hk hn hl hx ih => exact ih

/-- A struct or union is silent if its fields are and none is left out. -/
theorem reports_assemble_eq_nil {t : TypeTable} {form : AggregateForm} {n : Name} {span : Span}
    {fields : List Field} {x : Field → Lowered} (hx : ∀ f ∈ fields, (x f).Reported) :
    (t.assemble form n span (fields.map fun f => (f, x f))).reports = [] ↔
      ∀ f ∈ fields, (x f).reports = [] ∧ ∃ c, (x f).result = .ok c := by
  rw [List.eq_nil_iff_forall_not_mem]
  constructor
  · intro h f hf
    constructor
    · rw [List.eq_nil_iff_forall_not_mem]
      intro d hd
      exact h d ((mem_reports_assemble hx).mpr ⟨f, hf, .inl hd⟩)
    · by_contra hnone
      refine h _ ((mem_reports_assemble hx).mpr ⟨f, hf, .inr ⟨fun c hc => ?_, rfl⟩⟩)
      exact hnone ⟨c, hc⟩
  · intro h d hd
    obtain ⟨f, hf, hd | ⟨hnone, -⟩⟩ := (mem_reports_assemble hx).mp hd
    · rw [(h f hf).1] at hd
      cases hd
    · obtain ⟨c, hc⟩ := (h f hf).2
      exact hnone c hc

theorem length_keptMembers_iff {t : TypeTable} {fields : List Field} {x : Field → Lowered} :
    (t.keptMembers (fields.map fun f => (f, x f))).length = fields.length ↔
      ∀ f ∈ fields, ∃ c, (x f).result = .ok c := by
  unfold keptMembers
  rw [List.filterMap_map, List.length_filterMap_eq_countP, List.countP_eq_length]
  refine forall₂_congr fun f _ => ?_
  cases hr : (x f).result <;> simp [hr, Except.toOption]

theorem length_keptMembers_le {t : TypeTable} (fields : List Field) (x : Field → Lowered) :
    (t.keptMembers (fields.map fun f => (f, x f))).length ≤ fields.length := by
  have hfilter :=
    List.length_filterMap_le (fun y : Field × Lowered => y.2.result.toOption.map fun ty =>
    (t.member y.1, ty)) (fields.map fun f => (f, x f))
  rwa [List.length_map] at hfilter

/-- A struct or union has a fixed width exactly if it lacks no member and all members have one. -/
theorem extent_aggregate_iff {form : AggregateForm} {name : String} {span : Span}
    {members : List (Member × CType)} {lossy : Bool} :
    (∃ e, (CType.aggregate form name span members lossy).extent? = some e) ↔
      lossy = false ∧ ∀ m c, (m, c) ∈ members → ∃ e, c.extent? = some e := by
  have hmembers : (CType.memberExtents members).any Option.isNone = false ↔
      ∀ m c, (m, c) ∈ members → ∃ e, c.extent? = some e := by
    simp only [CType.memberExtents_eq_map, List.any_map, List.any_eq_false, Prod.forall,
      Function.comp_apply, Option.isNone_iff_eq_none, ← ne_eq, Option.ne_none_iff_exists']
  rw [← hmembers, CType.extent?]
  generalize (CType.memberExtents members).any Option.isNone = missing
  cases lossy <;> cases missing <;> simp

/-- What is put together from fields has a fixed width exactly if all fields have. -/
theorem sized_assemble_iff {t : TypeTable} {form : AggregateForm} {n : Name} {span : Span}
    {fields : List Field} {x : Field → Lowered} (hx : ∀ f ∈ fields, (x f).Reported) :
    (∃ c e, (t.assemble form n span (fields.map fun f => (f, x f))).result = .ok c ∧
      c.extent? = some e) ↔
      ∀ f ∈ fields, ∃ c e, (x f).result = .ok c ∧ c.extent? = some e := by
  have hresult : (∃ c e, (t.assemble form n span (fields.map fun f => (f, x f))).result = .ok c ∧
      c.extent? = some e) ↔
      ∃ e, (CType.aggregate form (t.spelling n) span (t.keptMembers (fields.map fun f => (f, x f)))
        ((t.keptMembers (fields.map fun f => (f, x f))).length < fields.length)).extent? =
          some e := by
    simp [result_assemble hx]
  rw [hresult, extent_aggregate_iff, decide_eq_false_iff_not, Nat.not_lt,
    (length_keptMembers_le fields x).ge_iff_eq, length_keptMembers_iff]
  constructor
  · rintro ⟨hkept, hsized⟩ f hf
    obtain ⟨c, hc⟩ := hkept f hf
    obtain ⟨e, he⟩ := hsized _ c (mem_keptMembers.mpr ⟨f, hf, hc, rfl⟩)
    exact ⟨c, e, hc, he⟩
  · intro h
    constructor
    · intro f hf
      obtain ⟨c, -, hc, -⟩ := h f hf
      exact ⟨c, hc⟩
    · intro m c hm
      obtain ⟨f, hf, hc, -⟩ := mem_keptMembers.mp hm
      obtain ⟨c', e, hc', he⟩ := h f hf
      cases hc.symm.trans hc'
      exact ⟨e, he⟩

/-- Where nothing is reported there is a C type of fixed width. -/
theorem Lowers.sized {t : TypeTable} {path : List Name} {ty : TypeId} {x : Lowered}
    (h : t.Lowers path ty x) : x.reports = [] → ∃ c e, x.result = .ok c ∧ c.extent? = some e := by
  induction h with
  | bool hk | bits hk | enum hk | header hk =>
    intro _
    exact ⟨_, _, rfl, rfl⟩
  | varbits hk | cycle hk hn | unknown hk hn hl =>
    intro hx
    cases hx
  | @aggregate path ty form n fields x hk hx ih =>
    intro hsilent
    have hreported : ∀ f ∈ fields, (x f).Reported := fun f hf => (hx f hf).reported
    rw [reports_assemble_eq_nil hreported] at hsilent
    exact (sized_assemble_iff hreported).mpr fun f hf => ih f hf (hsilent f hf).1
  | @stack path ty element size x hk hx ih =>
    intro hsilent
    obtain ⟨c, e, hc, he⟩ := ih hsilent
    exact ⟨.stack c e size, e.scale size, Lowered.result_stack.mpr ⟨c, e, hc, he, rfl⟩, rfl⟩
  | @declared path ty target n x hk hn hl hx ih =>
    intro hsilent
    obtain ⟨c, e, hc, he⟩ := ih hsilent
    exact ⟨.named (t.spelling n) (t.node ty).span c, e, Lowered.result_rename.mpr ⟨c, hc, rfl⟩, he⟩

/-! ## Silence and well-formedness -/

theorem WellFormed.ends {t : TypeTable} {ty : TypeId} (h : t.WellFormed ty) : t.Ends ty := by
  induction h with
  | bool hk | bits hk | enum hk | header hk =>
    exact ends_leaf (by rw [hk]; rfl) (by rw [hk]; intro n hn; cases hn)
  | aggregate hk _ ih => exact ends_aggregate hk ih
  | stack hk _ ih => exact ends_stack hk ih
  | named hk hl _ ih => exact ends_declared hk hl ih

/-- Apart from cycles, nothing is reported exactly if the type is well-formed. -/
theorem Lowers.reports_eq_nil_iff {t : TypeTable} {path : List Name} {ty : TypeId} {x : Lowered}
    (h : t.Lowers path ty x) :
    (∀ d ∈ x.reports, d.code ≠ .typeCycle) → (x.reports = [] ↔ t.WellFormed ty) := by
  induction h with
  | bool hk =>
    intro _
    exact ⟨fun _ => .bool hk, fun _ => rfl⟩
  | bits hk =>
    intro _
    exact ⟨fun _ => .bits hk, fun _ => rfl⟩
  | enum hk =>
    intro _
    exact ⟨fun _ => .enum hk, fun _ => rfl⟩
  | varbits hk =>
    intro _
    rw [wellFormed_iff, hk]
    exact ⟨fun hx => (by cases hx), False.elim⟩
  | header hk =>
    intro _
    rw [wellFormed_iff, hk]
    exact reports_lowerHeader_eq_nil t _ _ _
  | @aggregate path ty form n fields x hk hx ih =>
    intro hcode
    rw [wellFormed_iff, hk]
    show (t.assemble form n _ _).reports = [] ↔ ∀ f ∈ fields, t.WellFormed f.type
    have hreported : ∀ f ∈ fields, (x f).Reported := fun f hf => (hx f hf).reported
    have ih : ∀ f ∈ fields, ((x f).reports = [] ↔ t.WellFormed f.type) := by
      intro f hf
      refine ih f hf fun d hd => hcode d ?_
      exact (mem_reports_assemble hreported).mpr ⟨f, hf, .inl hd⟩
    rw [reports_assemble_eq_nil hreported]
    constructor
    · intro h f hf
      exact (ih f hf).mp (h f hf).1
    · intro h f hf
      have hsilent : (x f).reports = [] := (ih f hf).mpr (h f hf)
      obtain ⟨c, e, hc, -⟩ := (hx f hf).sized hsilent
      exact ⟨hsilent, c, hc⟩
  | stack hk hx ih =>
    intro hcode
    rw [wellFormed_iff, hk]
    exact ih hcode
  | cycle hk hn =>
    intro hcode
    exact absurd rfl (hcode _ (List.mem_singleton_self _))
  | unknown hk hn hl =>
    intro _
    rw [wellFormed_iff, hk]
    refine ⟨fun hx => (by cases hx), ?_⟩
    rintro ⟨target, htarget, -⟩
    rw [hl] at htarget
    cases htarget
  | @declared path ty target n x hk hn hl hx ih =>
    intro hcode
    rw [wellFormed_iff, hk]
    refine (ih hcode).trans ⟨fun h => ⟨target, hl, h⟩, ?_⟩
    rintro ⟨target', hl', h⟩
    obtain rfl := Option.some.inj (hl.symm.trans hl')
    exact h

/-- From the outside, cycles are no exception. -/
theorem Sound.reports_lower_eq_nil_iff {t : TypeTable} (ht : t.Sound) (ty : TypeId) :
    (t.lower [] ty).reports = [] ↔ t.WellFormed ty := by
  have h := ht.lowers [] ty
  constructor
  · intro hsilent
    refine (h.reports_eq_nil_iff ?_).mp hsilent
    rw [hsilent]
    intro d hd
    cases hd
  · intro hwf
    refine (h.reports_eq_nil_iff fun d hd hcode => ?_).mpr hwf
    obtain ⟨ns, n, span, -, hn, htrail⟩ := h.trail d hd hcode
    exact hwf.ends.not_leadsToCycle (htrail.leadsToCycle hn)

/-- **The accepted types are the well-formed ones.**  However a fresh queue is configured,
it shows no error and is empty after a type exactly if the type is well-formed; there is a C
type of fixed width then. -/
theorem Built.create_clean_iff {t : TypeTable} (h : t.Built) (ty : TypeId) (config : QueueConfig) :
    (((t.create ty (.ofConfig config)).2.hasErrors = false ∧
      (t.create ty (.ofConfig config)).2.isEmpty = true) ↔
      t.WellFormed ty) ∧
    (t.WellFormed ty → ∃ c e, (t.create ty (.ofConfig config)).1 = .ok c ∧ c.extent? = some e) := by
  have hlowers := h.sound.lowers [] ty
  have hiff := h.sound.reports_lower_eq_nil_iff ty
  refine ⟨?_, fun hwf => hlowers.sized (hiff.mpr hwf)⟩
  rw [← hiff]
  show (((Queue.ofConfig config).addAll (t.lower [] ty).reports).hasErrors = false ∧ _) ↔ _
  rw [Queue.hasErrors_addAll _ (Queue.counted_ofConfig config)]
  constructor
  · rintro ⟨hnone, -⟩
    rw [Bool.or_eq_false_iff, List.any_eq_false] at hnone
    rw [List.eq_nil_iff_forall_not_mem]
    intro d hd
    exact hnone.2 d hd (hlowers.isError d hd)
  · intro hsilent
    show (_ ∧ ((Queue.ofConfig config).addAll (t.lower [] ty).reports).isEmpty = true)
    rw [hsilent]
    exact ⟨rfl, rfl⟩

/-- A struct that holds a header under its name is accepted. -/
theorem create_clean_mixed : mixed.Built ∧ mixed.WellFormed 3 ∧
    (mixed.create 3 (.ofConfig .unlimited)).2.isEmpty = true := by
  have hheader : mixed.WellFormed 1 := by
    have hk : mixed.kind 1 = .header ⟨7⟩ [⟨⟨8⟩, 0, .dummy⟩] := by decide +kernel
    have hw : [⟨⟨8⟩, 0, .dummy⟩].map mixed.fieldWidth? = [8].map some := by decide +kernel
    exact .header hk hw (by decide) (by decide)
  have hname : mixed.WellFormed 2 := by
    have hk : mixed.kind 2 = .named ⟨7⟩ := by decide +kernel
    exact .named hk (by decide +kernel) hheader
  have hstruct : mixed.WellFormed 3 := by
    have hk : mixed.kind 3 = .aggregate .struct ⟨9⟩ [⟨⟨10⟩, 2, .dummy⟩] := by decide +kernel
    refine .aggregate hk fun f hf => ?_
    obtain rfl := List.mem_singleton.mp hf
    exact hname
  exact ⟨built_mixed, hstruct, ((Built.create_clean_iff built_mixed 3 .unlimited).1.mpr hstruct).2⟩

end TypeTable

end WireTypes
