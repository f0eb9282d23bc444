import WireTypes.Proofs.CType.Tags
import WireTypes.Proofs.Lower.Acceptance

/-!
# Types inside others

Wherever a type is used it is lowered anew, inside the names that are being expanded there.  Where
nothing is reported this makes no difference.

* `Sound.lower_eq`: a type that is lowered without reports is lowered so from the outside, to the
  same C type;
* `Sound.lower_of_occurs`: hence every part with a tag is what its own node becomes from the
  outside.
-/

namespace WireTypes

theorem Lowered.eq_ok {x : Lowered} {c : CType} (hreports : x.reports = [])
    (hresult : x.result = .ok c) : x = .ok c := by
  obtain ⟨result, reports⟩ := x
  cases hreports
  cases hresult
  rfl

namespace TypeTable

/-- Silent lowering does not depend on the names that are being expanded. -/
theorem WellFormed.lower_eq {t : TypeTable} (ht : t.Sound) {ty : TypeId} (h : t.WellFormed ty) :
    ∀ {path path' : List Name}, (t.lower path ty).reports = [] → (t.lower path' ty).reports = [] →
      t.lower path ty = t.lower path' ty := by
  induction h with
  | bool hk | bits hk | enum hk | header hk =>
    intro path path' _ _
    rw [lower, lower, hk]
  | @aggregate ty form n fields hk _ ih =>
    intro path path' h h'
    rw [ht.lower_aggregate hk] at h h' ⊢
    rw [ht.lower_aggregate hk]
    rw [reports_assemble_eq_nil fun f _ => (ht.lowers path f.type).reported] at h
    rw [reports_assemble_eq_nil fun f _ => (ht.lowers path' f.type).reported] at h'
    congr 1
    refine List.map_congr_left fun f hf => ?_
    rw [ih f hf (h f hf).1 (h' f hf).1]
  | @stack ty element size hk _ ih =>
    intro path path' h h'
    rw [ht.lower_stack hk] at h h' ⊢
    rw [ht.lower_stack hk, ih h h']
  | @named ty target n hk hl _ ih =>
    have hsilent : ∀ {path : List Name}, (t.lower path ty).reports = [] →
        n ∉ path ∧ (t.lower (path ++ [n]) target).reports = [] := by
      intro path h
      by_cases hn : n ∈ path
      · rw [lower_cycle hk hn] at h
        cases h
      · rw [lower_declared hk hn hl] at h
        exact ⟨hn, h⟩
    intro path path' h h'
    obtain ⟨hn, htarget⟩ := hsilent h
    obtain ⟨hn', htarget'⟩ := hsilent h'
    rw [lower_declared hk hn hl, lower_declared hk hn' hl, ih htarget htarget']

/-- What is lowered without reports somewhere is lowered so from the outside. -/
theorem Sound.lower_eq {t : TypeTable} (ht : t.Sound) {path : List Name} {ty : TypeId} {c : CType}
    (h : t.lower path ty = .ok c) : t.lower [] ty = .ok c := by
  have hsilent : (t.lower path ty).reports = [] := by rw [h]; rfl
  have hwf : t.WellFormed ty := by
    refine ((ht.lowers path ty).reports_eq_nil_iff ?_).mp hsilent
    rw [hsilent]
    exact List.forall_mem_nil _
  rw [hwf.lower_eq ht ((ht.reports_lower_eq_nil_iff ty).mpr hwf) hsilent, h]

theorem Lowers.tag? {t : TypeTable} {path : List Name} {ty : TypeId} {x : Lowered}
    (h : t.Lowers path ty x) {c : CType} (hc : x.result = .ok c) : c.tag? = t.tag? ty := by
  unfold TypeTable.tag?
  cases h with
  | bool hk | bits hk | enum hk | header hk =>
    cases hc
    rw [hk]
    rfl
  | aggregate hk hx =>
    rw [result_assemble fun f hf => (hx f hf).reported] at hc
    cases hc
    rw [hk]
    rfl
  | varbits hk | cycle hk | unknown hk => cases hc
  | stack hk hx =>
    obtain ⟨element, extent, -, -, rfl⟩ := Lowered.result_stack.mp hc
    rw [hk]
    rfl
  | declared hk hn hl hx =>
    obtain ⟨canonical, -, rfl⟩ := Lowered.result_rename.mp hc
    rw [hk]
    rfl

theorem Lowers.lower_nil {t : TypeTable} (ht : t.Sound) {path : List Name}
    {ty : TypeId} {x : Lowered} (h : t.Lowers path ty x) {c : CType} {tag : Tag}
    (hsilent : x.reports = []) (hc : x.result = .ok c) (htag : c.tag? = some tag) :
    ∃ a, t.lower [] a = .ok c ∧ t.tag? a = some tag := by
  have hlower : t.lower path ty = .ok c := by
    rw [← h.eq_lower ht]
    exact Lowered.eq_ok hsilent hc
  exact ⟨ty, ht.lower_eq hlower, (h.tag? hc).symm.trans htag⟩

/-- Every part with a tag is what a node with this tag becomes. -/
theorem Lowers.occurs {t : TypeTable} (ht : t.Sound) {path : List Name} {ty : TypeId} {x : Lowered}
    (h : t.Lowers path ty x) :
    ∀ {c e : CType} {tag : Tag}, x.reports = [] → x.result = .ok c → e.OccursIn c →
      e.tag? = some tag → ∃ a, t.lower [] a = .ok e ∧ t.tag? a = some tag := by
  induction h with
  | bool hk | bits hk =>
    intro c e tag _ hc he htag
    cases hc
    cases he
    cases htag
  | enum hk =>
    intro c e tag hsilent hc he htag
    cases hc
    cases he
    exact (Lowers.enum hk : t.Lowers [] _ _).lower_nil ht hsilent rfl htag
  | header hk =>
    intro c e tag hsilent hc he htag
    cases hc
    cases he
    exact (Lowers.header hk : t.Lowers [] _ _).lower_nil ht hsilent rfl htag
  | varbits hk | cycle hk hn | unknown hk hn hl =>
    intro c e tag _ hc
    cases hc
  | @aggregate path ty form n fields x hk hx ih =>
    intro c e tag hsilent hc he htag
    have hreported : ∀ f ∈ fields, (x f).Reported := fun f hf => (hx f hf).reported
    have hresult := (result_assemble hreported).symm.trans hc
    cases hresult
    cases he with
    | here => exact (Lowers.aggregate hk hx).lower_nil ht hsilent hc htag
    | member hm he =>
      obtain ⟨f, hf, hc, -⟩ := mem_keptMembers.mp hm
      exact ih f hf ((reports_assemble_eq_nil hreported).mp hsilent f hf).1 hc he htag
  | stack hk hx ih =>
    intro c e tag hsilent hc he htag
    obtain ⟨element, extent, helement, -, rfl⟩ := Lowered.result_stack.mp hc
    cases he with
    | here => cases htag
    | element he => exact ih hsilent helement he htag
  | declared hk hn hl hx ih =>
    intro c e tag hsilent hc he htag
    obtain ⟨canonical, hcanonical, rfl⟩ := Lowered.result_rename.mp hc
    cases he with
    | here => cases htag
    | canonical he => exact ih hsilent hcanonical he htag

/-- From the outside: every part with a tag is the C type of a node with this tag. -/
theorem Sound.lower_of_occursIn {t : TypeTable} (ht : t.Sound) {ty : TypeId}
    {c e : CType} {tag : Tag} (h : t.lower [] ty = .ok c) (he : e.OccursIn c)
    (htag : e.tag? = some tag) : ∃ a, t.lower [] a = .ok e ∧ t.tag? a = some tag := by
  refine (ht.lowers [] ty).occurs ht ?_ ?_ he htag
  · rw [h]
    rfl
  · rw [h]
    rfl

end TypeTable

end WireTypes
