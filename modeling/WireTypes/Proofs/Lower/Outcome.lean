import WireTypes.Proofs.CType.Tags
import WireTypes.Proofs.Lower.Acceptance

/-!
# What becomes of erroneous types

A type with problems may still become a C type, with or without a fixed width.  Which of these it is
depends on the graph of the table alone: `Sizable` says that the width is fixed, and `Resolves`
follows names to the node they stand for.

* `Lowers.sizable`, `Sizable.lower`: fixed widths belong to sizable types.  A sizable type is not
  cut off by the names that are being expanded around it, for all of these lead to it (`Within`);
* `Lowers.resolves`, `Resolves.lower`: apart from these, only structs and unions become C types;
* `Built.create_outcome` puts the three outcomes together.
-/

namespace WireTypes

namespace TypeTable

/-- The type has a fixed width in C, whatever is wrong with its headers. -/
inductive Sizable (t : TypeTable) : TypeId → Prop
  | bool {ty : TypeId} (hk : t.kind ty = .bool) : Sizable t ty
  | bits {ty : TypeId} {width : UInt32} {signed : Bool} (hk : t.kind ty = .bits width signed) :
      Sizable t ty
  | enum {ty : TypeId} {n : Name} {members : List Name} (hk : t.kind ty = .enum n members) :
      Sizable t ty
  | header {ty : TypeId} {n : Name} {fields : List Field} (hk : t.kind ty = .header n fields) :
      Sizable t ty
  | aggregate {ty : TypeId} {form : AggregateForm} {n : Name} {fields : List Field}
      (hk : t.kind ty = .aggregate form n fields) (hf : ∀ f ∈ fields, Sizable t f.type) :
      Sizable t ty
  | stack {ty element : TypeId} {size : UInt32} (hk : t.kind ty = .stack element size)
      (he : Sizable t element) :
      Sizable t ty
  | named {ty target : TypeId} {n : Name} (hk : t.kind ty = .named n)
      (hl : t.lookup n = some target) (ht : Sizable t target) : Sizable t ty

/-- `a` is a name that stands for `b`. -/
def Renames (t : TypeTable) (a b : TypeId) : Prop := ∃ n, t.kind a = .named n ∧ t.lookup n = some b

/-- The names that start at `ty` lead to the node `a`, which is none. -/
inductive Resolves (t : TypeTable) : TypeId → TypeId → Prop
  | here {a : TypeId} (hk : ∀ n, t.kind a ≠ .named n) : Resolves t a a
  | name {ty b a : TypeId} (hb : t.Renames ty b) (h : Resolves t b a) : Resolves t ty a

/-! ## Names -/

theorem Renames.unique {t : TypeTable} {a b b' : TypeId} (h : t.Renames a b)
    (h' : t.Renames a b') : b = b' := by
  obtain ⟨n, hk, hl⟩ := h
  obtain ⟨n', hk', hl'⟩ := h'
  cases hk.symm.trans hk'
  exact Option.some.inj (hl.symm.trans hl')

theorem Renames.refers {t : TypeTable} {a b : TypeId} (h : t.Renames a b) : t.Refers a b := by
  obtain ⟨n, hk, hl⟩ := h
  exact .name hk hl

theorem Resolves.unique {t : TypeTable} {ty a a' : TypeId} (h : t.Resolves ty a)
    (h' : t.Resolves ty a') : a = a' := by
  induction h with
  | here hk =>
    cases h' with
    | here => rfl
    | name hb _ => exact absurd hb.choose_spec.1 (hk _)
  | name hb _ ih =>
    cases h' with
    | here hk => exact absurd hb.choose_spec.1 (hk _)
    | name hb' h' =>
      obtain rfl := hb.unique hb'
      exact ih h'

theorem Resolves.not_circular {t : TypeTable} {ty a : TypeId} (h : t.Resolves ty a) :
    ¬ Relation.TransGen t.Renames ty ty := by
  induction h with
  | here hk =>
    intro hcycle
    obtain ⟨b, hb, -⟩ := Relation.TransGen.head'_iff.mp hcycle
    exact absurd hb.choose_spec.1 (hk _)
  | @name ty b a hb _ ih =>
    -- the circle passes the next node too
    intro hcycle
    obtain ⟨b', hb', hback⟩ := Relation.TransGen.head'_iff.mp hcycle
    obtain rfl := hb.unique hb'
    exact ih (Relation.TransGen.tail' hback hb)

theorem Resolves.sizable_iff {t : TypeTable} {ty a : TypeId} (h : t.Resolves ty a) :
    t.Sizable ty ↔ t.Sizable a := by
  induction h with
  | here _ => exact Iff.rfl
  | @name ty b a hb _ ih =>
    obtain ⟨n, hk, hl⟩ := hb
    rw [← ih]
    constructor
    · intro hsizable
      cases hsizable with
      | named hk' hl' hb =>
        cases hk.symm.trans hk'
        cases hl.symm.trans hl'
        exact hb
      | bool hk' | bits hk' | enum hk' | header hk' | aggregate hk'
      | stack hk' => cases hk.symm.trans hk'
    · exact .named hk hl

/-! ## Fixed widths -/

theorem Sizable.ends {t : TypeTable} {ty : TypeId} (h : t.Sizable ty) : t.Ends ty := by
  induction h with
  | bool hk | bits hk | enum hk | header hk =>
    exact ends_leaf (by rw [hk]; rfl) (by rw [hk]; intro n hn; cases hn)
  | aggregate hk _ ih => exact ends_aggregate hk ih
  | stack hk _ ih => exact ends_stack hk ih
  | named hk hl _ ih => exact ends_declared hk hl ih

/-- Steps of one sort lead from the declaration of every name in `path` to `ty`. -/
def Within (t : TypeTable) (r : TypeId → TypeId → Prop) (path : List Name) (ty : TypeId) : Prop :=
  ∀ n ∈ path, ∃ a, t.lookup n = some a ∧ Relation.ReflTransGen r a ty

theorem within_nil {t : TypeTable} {r : TypeId → TypeId → Prop} {ty : TypeId} : t.Within r [] ty :=
  List.forall_mem_nil _

theorem Within.step {t : TypeTable} {r : TypeId → TypeId → Prop} {path : List Name} {a b : TypeId}
    (h : t.Within r path a) (hb : r a b) : t.Within r path b := by
  intro n hn
  obtain ⟨c, hl, hc⟩ := h n hn
  exact ⟨c, hl, hc.tail hb⟩

theorem Within.expand {t : TypeTable} {r : TypeId → TypeId → Prop} {path : List Name}
    {n : Name} {b : TypeId} (h : t.Within r path b) (hl : t.lookup n = some b) :
    t.Within r (path ++ [n]) b := by
  intro m hm
  rcases List.mem_append.mp hm with hm | hm
  · exact h m hm
  · obtain rfl := List.mem_singleton.mp hm
    exact ⟨b, hl, .refl⟩

theorem Within.refers {t : TypeTable} {path : List Name} {ty : TypeId}
    (h : t.Within t.Renames path ty) : t.Within t.Refers path ty := by
  intro n hn
  obtain ⟨a, hl, ha⟩ := h n hn
  exact ⟨a, hl, Relation.ReflTransGen.mono (fun _ _ => Renames.refers) a ty ha⟩

/-- A name that is met inside its own expansion lies on a circle. -/
theorem Within.circular {t : TypeTable} {r : TypeId → TypeId → Prop} {path : List Name}
    {ty b : TypeId} {n : Name} (h : t.Within r path ty) (hn : n ∈ path) (hl : t.lookup n = some b)
    (hb : r ty b) : Relation.TransGen r ty ty := by
  obtain ⟨a, hl', ha⟩ := h n hn
  obtain rfl := Option.some.inj (hl.symm.trans hl')
  exact Relation.TransGen.head' hb ha

theorem Lowers.sizable {t : TypeTable} {path : List Name} {ty : TypeId} {x : Lowered}
    (h : t.Lowers path ty x) : (∃ c e, x.result = .ok c ∧ c.extent? = some e) → t.Sizable ty := by
  induction h with
  | bool hk => exact fun _ => .bool hk
  | bits hk => exact fun _ => .bits hk
  | enum hk => exact fun _ => .enum hk
  | header hk => exact fun _ => .header hk
  | varbits hk | cycle hk hn | unknown hk hn hl =>
    rintro ⟨c, e, hc, -⟩
    cases hc
  | aggregate hk hx ih =>
    intro hsized
    rw [sized_assemble_iff fun f hf => (hx f hf).reported] at hsized
    exact .aggregate hk fun f hf => ih f hf (hsized f hf)
  | stack hk hx ih =>
    rintro ⟨c, e, hc, -⟩
    obtain ⟨element, extent, helement, hextent, -⟩ := Lowered.result_stack.mp hc
    exact .stack hk (ih ⟨element, extent, helement, hextent⟩)
  | declared hk hn hl hx ih =>
    rintro ⟨c, e, hc, he⟩
    obtain ⟨canonical, hcanonical, rfl⟩ := Lowered.result_rename.mp hc
    exact .named hk hl (ih ⟨canonical, e, hcanonical, he⟩)

/-- A sizable type becomes a C type of fixed width, wherever it is met. -/
theorem Sizable.lower {t : TypeTable} (ht : t.Sound) {ty : TypeId} (h : t.Sizable ty) :
    ∀ {path : List Name}, t.Within t.Refers path ty →
      ∃ c e, (t.lower path ty).result = .ok c ∧ c.extent? = some e := by
  induction h with
  | bool hk | bits hk | enum hk | header hk =>
    intro path _
    rw [TypeTable.lower, hk]
    exact ⟨_, _, rfl, rfl⟩
  | aggregate hk _ ih =>
    intro path hpath
    rw [ht.lower_aggregate hk]
    refine (sized_assemble_iff fun f _ => (ht.lowers path f.type).reported).mpr fun f hf => ?_
    exact ih f hf (hpath.step (.part (mem_parts_of_field hk hf)))
  | @stack ty element size hk _ ih =>
    intro path hpath
    obtain ⟨c, e, hc, he⟩ := ih (hpath.step (.part (mem_parts_of_element hk)))
    rw [ht.lower_stack hk]
    exact ⟨_, e.scale size, Lowered.result_stack.mpr ⟨c, e, hc, he, rfl⟩, rfl⟩
  | @named ty target n hk hl htarget ih =>
    intro path hpath
    have hstep : t.Refers ty target := .name hk hl
    have hn : n ∉ path := by
      intro hn
      have hends : t.Ends ty := Sizable.ends (.named hk hl htarget)
      exact hends.not_leadsToCycle ⟨ty, .refl, hpath.circular hn hl hstep⟩
    obtain ⟨c, e, hc, he⟩ := ih ((hpath.step hstep).expand hl)
    rw [lower_declared hk hn hl]
    exact ⟨_, e, Lowered.result_rename.mpr ⟨c, hc, rfl⟩, he⟩

/-! ## C types -/

/-- A node becomes a C type if names are no obstacle. -/
def Lowerable (t : TypeTable) (a : TypeId) : Prop :=
  (∃ form n fields, t.kind a = .aggregate form n fields) ∨ t.Sizable a

/-- Behind every C type there is a node with a fixed width, or a struct or union. -/
theorem Lowers.resolves {t : TypeTable} {path : List Name} {ty : TypeId} {x : Lowered}
    (h : t.Lowers path ty x) : ∀ c, x.result = .ok c → ∃ a, t.Resolves ty a ∧ t.Lowerable a := by
  have hnone : ∀ {ty : TypeId} {k : Kind}, t.kind ty = k → (∀ n, k ≠ .named n) →
      ∀ n, t.kind ty ≠ .named n :=
    fun hk hne n hn => hne n (hk.symm.trans hn)
  induction h with
  | bool hk => exact fun _ _ => ⟨_, .here (hnone hk (by simp)), .inr (.bool hk)⟩
  | bits hk => exact fun _ _ => ⟨_, .here (hnone hk (by simp)), .inr (.bits hk)⟩
  | enum hk => exact fun _ _ => ⟨_, .here (hnone hk (by simp)), .inr (.enum hk)⟩
  | header hk => exact fun _ _ => ⟨_, .here (hnone hk (by simp)), .inr (.header hk)⟩
  | aggregate hk _ => exact fun _ _ => ⟨_, .here (hnone hk (by simp)), .inl ⟨_, _, _, hk⟩⟩
  | varbits hk | cycle hk hn | unknown hk hn hl =>
    intro c hc
    cases hc
  | stack hk hx _ =>
    intro c hc
    obtain ⟨element, extent, helement, hextent, -⟩ := Lowered.result_stack.mp hc
    exact ⟨_, .here (hnone hk (by simp)),
      .inr (.stack hk (hx.sizable ⟨element, extent, helement, hextent⟩))⟩
  | declared hk hn hl _ ih =>
    intro c hc
    obtain ⟨canonical, hcanonical, -⟩ := Lowered.result_rename.mp hc
    obtain ⟨a, ha, hkind⟩ := ih canonical hcanonical
    exact ⟨a, .name ⟨_, hk, hl⟩ ha, hkind⟩

theorem Resolves.lower {t : TypeTable} (ht : t.Sound) {ty a : TypeId} (h : t.Resolves ty a)
    (ha : t.Lowerable a) :
    ∀ {path : List Name}, t.Within t.Renames path ty → ∃ c, (t.lower path ty).result = .ok c := by
  induction h with
  | here _ =>
    intro path hpath
    rcases ha with ⟨form, n, fields, hk⟩ | ha
    · rw [ht.lower_aggregate hk]
      exact ⟨_, result_assemble fun f _ => (ht.lowers path f.type).reported⟩
    · obtain ⟨c, -, hc, -⟩ := ha.lower ht hpath.refers
      exact ⟨c, hc⟩
  | @name ty b a hb h ih =>
    intro path hpath
    obtain ⟨n, hk, hl⟩ := id hb
    have hn : n ∉ path := fun hn => (Resolves.name hb h).not_circular (hpath.circular hn hl hb)
    obtain ⟨c, hc⟩ := ih ha ((hpath.step hb).expand hl)
    rw [lower_declared hk hn hl]
    exact ⟨_, Lowered.result_rename.mpr ⟨c, hc, rfl⟩⟩

/-- The elements of an array have the extent that the array is measured by. -/
theorem Lowers.extent_element {t : TypeTable} {path : List Name} {ty : TypeId} {x : Lowered}
    (h : t.Lowers path ty x) :
    ∀ {c element : CType} {extent : Extent} {size : UInt32}, x.result = .ok c →
      (CType.stack element extent size).OccursIn c → element.extent? = some extent := by
  induction h with
  | bool hk | bits hk | enum hk | header hk =>
    intro c element extent size hc hin
    cases hc
    cases hin
  | varbits hk | cycle hk hn | unknown hk hn hl =>
    intro c element extent size hc
    cases hc
  | aggregate hk hx ih =>
    intro c element extent size hc hin
    rw [result_assemble fun f hf => (hx f hf).reported] at hc
    cases hc
    cases hin with
    | member hm hin =>
      obtain ⟨f, hf, hc, -⟩ := mem_keptMembers.mp hm
      exact ih f hf hc hin
  | stack hk hx ih =>
    intro c element extent size hc hin
    obtain ⟨element', extent', helement, hextent, rfl⟩ := Lowered.result_stack.mp hc
    cases hin with
    | here => exact hextent
    | element hin => exact ih helement hin
  | declared hk hn hl hx ih =>
    intro c element extent size hc hin
    obtain ⟨canonical, hcanonical, rfl⟩ := Lowered.result_rename.mp hc
    cases hin with
    | canonical hin => exact ih hcanonical hin

/-! ## Outcomes -/

theorem Sound.exists_ok_iff {t : TypeTable} (ht : t.Sound) (ty : TypeId) :
    (∃ c, (t.lower [] ty).result = .ok c) ↔ ∃ a, t.Resolves ty a ∧ t.Lowerable a := by
  constructor
  · rintro ⟨c, hc⟩
    exact (ht.lowers [] ty).resolves c hc
  · rintro ⟨a, ha, hkind⟩
    exact ha.lower ht hkind within_nil

theorem Sound.exists_extent_iff {t : TypeTable} (ht : t.Sound) (ty : TypeId) :
    (∃ c e, (t.lower [] ty).result = .ok c ∧ c.extent? = some e) ↔ t.Sizable ty := by
  constructor
  · exact (ht.lowers [] ty).sizable
  · intro h
    exact h.lower ht within_nil

/-- The nodes that are no names and become no C type. -/
theorem Resolves.not_lowerable_iff {t : TypeTable} {ty a : TypeId} (h : t.Resolves ty a) :
    ¬ t.Lowerable a ↔ (∃ width, t.kind a = .varbits width) ∨
      ∃ element size, t.kind a = .stack element size ∧ ¬ t.Sizable element := by
  have hname : ∀ n, t.kind a ≠ .named n := by
    induction h with
    | here hk => exact hk
    | name _ _ ih => exact ih
  unfold Lowerable
  cases hk : t.kind a with
  | named n => exact absurd hk (hname n)
  | bool => simp [Sizable.bool hk]
  | bits width signed => simp [Sizable.bits hk]
  | enum n members => simp [Sizable.enum hk]
  | header n fields => simp [Sizable.header hk]
  | aggregate form n fields => simp
  | varbits width =>
    have hnot : ¬ t.Sizable a := by
      intro h
      cases h with
      | bool hk' | bits hk' | enum hk' | header hk' | aggregate hk' | stack hk'
      | named hk' => cases hk.symm.trans hk'
    simp [hnot]
  | stack element size =>
    have hiff : t.Sizable a ↔ t.Sizable element := by
      constructor
      · intro h
        cases h with
        | stack hk' he =>
          cases hk.symm.trans hk'
          exact he
        | bool hk' | bits hk' | enum hk' | header hk' | aggregate hk'
        | named hk' => cases hk.symm.trans hk'
      · exact .stack hk
    simp [hiff]

theorem Sound.exists_error {t : TypeTable} (ht : t.Sound) {ty : TypeId} (hty : ¬ t.Sizable ty) :
    ∃ d ∈ (t.lower [] ty).reports, d.isError = true := by
  have hlowers := ht.lowers [] ty
  obtain ⟨d, hd⟩ : ∃ d, d ∈ (t.lower [] ty).reports := by
    refine List.exists_mem_of_ne_nil _ fun hsilent => hty ?_
    exact hlowers.sizable (hlowers.sized hsilent)
  exact ⟨d, hd, hlowers.isError d hd⟩

/-- What has no fixed width has been reported, however the queue is configured. -/
theorem Sound.hasErrors_create {t : TypeTable} (ht : t.Sound) {ty : TypeId}
    (hty : ¬ t.Sizable ty) {q : Queue} (hq : q.Counted) : (t.create ty q).2.hasErrors = true := by
  show (q.addAll (t.lower [] ty).reports).hasErrors = true
  rw [Queue.hasErrors_addAll _ hq, Bool.or_eq_true, List.any_eq_true]
  exact .inr (ht.exists_error hty)

/-- **The outcome of lowering.**  A type becomes a C type of fixed width exactly if it is sizable; a
C type without one exactly if its names lead to a struct or union that is not; and no C type if they
lead nowhere, to a type of variable width or to an array of something that is not sizable.  Nothing
fails for another reason than what has been reported, whatever lacks a fixed width has been, and no
array inside a C type has elements without one. -/
theorem Built.create_outcome {t : TypeTable} (h : t.Built) (ty : TypeId) {q : Queue}
    (hq : q.Reachable) :
    ((∃ c e, (t.create ty q).1 = .ok c ∧ c.extent? = some e) ↔ t.Sizable ty) ∧
    ((∃ c, (t.create ty q).1 = .ok c ∧ c.extent? = none) ↔
      ∃ a form n fields, t.Resolves ty a ∧ t.kind a = .aggregate form n fields ∧ ¬ t.Sizable a) ∧
    ((∃ e, (t.create ty q).1 = .error e) ↔ (∀ a, ¬ t.Resolves ty a) ∨ ∃ a, t.Resolves ty a ∧
      ((∃ width, t.kind a = .varbits width) ∨ ∃ element size, t.kind a = .stack element size ∧
        ¬ t.Sizable element)) ∧
    (∀ e, (t.create ty q).1 = .error e → e = .reported) ∧
    (¬ t.Sizable ty → (t.create ty q).2.hasErrors = true) ∧
    ∀ c, (t.create ty q).1 = .ok c →
      ∀ element extent size, (CType.stack element extent size).OccursIn c →
      ∃ e, element.extent? = some e := by
  have ht := h.sound
  have hlowers := ht.lowers [] ty
  have hok := ht.exists_ok_iff ty
  have hsized := ht.exists_extent_iff ty
  have hresult : (t.create ty q).1 = (t.lower [] ty).result := rfl
  rw [hresult]
  refine ⟨hsized, ?_, ?_, hlowers.reported, fun hty => ht.hasErrors_create hty hq.counted, ?_⟩
  · constructor
    · rintro ⟨c, hc, hnone⟩
      have hty : ¬ t.Sizable ty := by
        intro hty
        obtain ⟨c', e, hc', he⟩ := hsized.mpr hty
        cases hc.symm.trans hc'
        cases hnone.symm.trans he
      obtain ⟨a, ha, ⟨form, n, fields, hk⟩ | hsizable⟩ := hok.mp ⟨c, hc⟩
      · exact ⟨a, form, n, fields, ha, hk, fun hsizable => hty (ha.sizable_iff.mpr hsizable)⟩
      · exact absurd (ha.sizable_iff.mpr hsizable) hty
    · rintro ⟨a, form, n, fields, ha, hk, hsizable⟩
      obtain ⟨c, hc⟩ := hok.mpr ⟨a, ha, .inl ⟨form, n, fields, hk⟩⟩
      refine ⟨c, hc, Option.eq_none_iff_forall_ne_some.mpr fun e he => hsizable ?_⟩
      exact ha.sizable_iff.mp (hsized.mp ⟨c, e, hc, he⟩)
  · have herror : (∃ e, (t.lower [] ty).result = .error e) ↔
        ¬ ∃ c, (t.lower [] ty).result = .ok c := by
      cases (t.lower [] ty).result <;> simp
    rw [herror, hok]
    constructor
    · intro hnone
      by_cases hto : ∃ a, t.Resolves ty a
      · obtain ⟨a, ha⟩ := hto
        exact .inr ⟨a, ha, ha.not_lowerable_iff.mp fun hlowerable => hnone ⟨a, ha, hlowerable⟩⟩
      · exact .inl fun a ha => hto ⟨a, ha⟩
    · rintro (hnone | ⟨a, ha, hkind⟩) ⟨a', ha', hlowerable⟩
      · exact hnone a' ha'
      · obtain rfl := ha.unique ha'
        exact ha.not_lowerable_iff.mpr hkind hlowerable
  · intro c hc element extent size hin
    exact ⟨extent, hlowers.extent_element hc hin⟩

/-- A struct that holds itself becomes a C type without a fixed width. -/
theorem create_outcome_mixed : mixed.Built ∧ (Queue.ofConfig .standard).Reachable ∧
    (∃ c, (mixed.create 5 (.ofConfig .standard)).1 = .ok c ∧ c.extent? = none) ∧
    (mixed.create 5 (.ofConfig .standard)).2.hasErrors = true := by
  have hfield : mixed.Refers 5 4 := .part (by decide +kernel)
  have hkind : mixed.kind 4 = .named ⟨11⟩ := by decide +kernel
  have hname : mixed.Refers 4 5 := .name hkind (by decide +kernel)
  have hstruct : mixed.kind 5 = .aggregate .struct ⟨11⟩ [⟨⟨12⟩, 4, .dummy⟩] := by decide +kernel
  have hsizable : ¬ mixed.Sizable 5 :=
    fun h => h.ends.not_leadsToCycle ⟨5, .refl, .head hfield (.single hname)⟩
  have hqueue := Queue.Reachable.ofConfig .standard
  obtain ⟨-, hunsized, -, -, herrors, -⟩ := Built.create_outcome built_mixed 5 hqueue
  have hhere : mixed.Resolves 5 5 := .here fun n hn => by cases hstruct.symm.trans hn
  exact ⟨built_mixed, hqueue, hunsized.mpr ⟨5, _, _, _, hhere, hstruct, hsizable⟩, herrors hsizable⟩

end TypeTable

end WireTypes
