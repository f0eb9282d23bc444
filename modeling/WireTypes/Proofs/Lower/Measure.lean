import Mathlib.Algebra.Order.BigOperators.Group.List
import Mathlib.Algebra.Order.Group.Nat
import Mathlib.Tactic.Choose
import WireTypes.Proofs.CType.Extent
import WireTypes.Proofs.Lower.Outcome

/-!
# The widths of lowered types

`Measures t ty m` says what a type takes, over the graph of the table and in numbers without a
bound.  Lowering works with words that stop at `maxWidth`, and an array keeps the width of its
element beside it; still its widths are the exact ones, stopped once.

* `Measures.unique`: a type has one measure, if any;
* `Lowers.holds`: a C type of fixed width holds the measure of its node;
* `Built.extent_exact` puts these together.
-/

namespace WireTypes

namespace TypeTable

/-- Bits of the fields of a header that are numbers of bits or booleans. -/
def headerBits (t : TypeTable) (fields : List Field) : Nat := (fields.filterMap t.fieldWidth?).sum

/-- The type takes these widths, with no bound. -/
inductive Measures (t : TypeTable) : TypeId → Measure → Prop
  | bool {ty : TypeId} (hk : t.kind ty = .bool) : Measures t ty ⟨1, 8⟩
  | bits {ty : TypeId} {width : UInt32} {signed : Bool} (hk : t.kind ty = .bits width signed) :
      Measures t ty ⟨width.toNat, storageBits width.toNat⟩
  | enum {ty : TypeId} {n : Name} {members : List Name} (hk : t.kind ty = .enum n members) :
      Measures t ty ⟨32, 32⟩
  | header {ty : TypeId} {n : Name} {fields : List Field} (hk : t.kind ty = .header n fields) :
      Measures t ty ⟨t.headerBits fields, t.headerBits fields⟩
  | aggregate {ty : TypeId} {form : AggregateForm} {n : Name} {fields : List Field}
      {m : Field → Measure}
      (hk : t.kind ty = .aggregate form n fields) (hm : ∀ f ∈ fields, Measures t f.type (m f)) :
      Measures t ty (.sum (fields.map m))
  | stack {ty element : TypeId} {size : UInt32} {m : Measure} (hk : t.kind ty = .stack element size)
      (hm : Measures t element m) : Measures t ty (m.scale size.toNat)
  | named {ty target : TypeId} {n : Name} {m : Measure} (hk : t.kind ty = .named n)
      (hl : t.lookup n = some target) (hm : Measures t target m) : Measures t ty m

/-- What a node of each shape takes. -/
theorem measures_iff {t : TypeTable} {ty : TypeId} {m : Measure} :
    t.Measures ty m ↔ match t.kind ty with
      | .bool => m = ⟨1, 8⟩
      | .bits width _ => m = ⟨width.toNat, storageBits width.toNat⟩
      | .varbits _ => False
      | .enum _ _ => m = ⟨32, 32⟩
      | .header _ fields => m = ⟨t.headerBits fields, t.headerBits fields⟩
      | .aggregate _ _ fields => ∃ ms : Field → Measure, (∀ f ∈ fields, t.Measures f.type (ms f)) ∧
          m = .sum (fields.map ms)
      | .stack element size => ∃ m', t.Measures element m' ∧ m = m'.scale size.toNat
      | .named n => ∃ target, t.lookup n = some target ∧ t.Measures target m := by
  constructor
  · intro h
    cases h with
    | bool hk | bits hk | enum hk | header hk => simp only [hk]
    | aggregate hk hm =>
      simp only [hk]
      exact ⟨_, hm, rfl⟩
    | stack hk hm =>
      simp only [hk]
      exact ⟨_, hm, rfl⟩
    | named hk hl hm =>
      simp only [hk]
      exact ⟨_, hl, hm⟩
  · intro h
    cases hk : t.kind ty with
    | varbits width => simp only [hk] at h
    | bool =>
      simp only [hk] at h
      rw [h]
      exact .bool hk
    | bits width signed =>
      simp only [hk] at h
      rw [h]
      exact .bits hk
    | enum n members =>
      simp only [hk] at h
      rw [h]
      exact .enum hk
    | header n fields =>
      simp only [hk] at h
      rw [h]
      exact .header hk
    | aggregate form n fields =>
      simp only [hk] at h
      obtain ⟨ms, hms, rfl⟩ := h
      exact .aggregate hk hms
    | stack element size =>
      simp only [hk] at h
      obtain ⟨m', hm', rfl⟩ := h
      exact .stack hk hm'
    | named n =>
      simp only [hk] at h
      obtain ⟨target, hl, hm⟩ := h
      exact .named hk hl hm

theorem Measures.unique {t : TypeTable} {ty : TypeId} {m : Measure} (h : t.Measures ty m) :
    ∀ m', t.Measures ty m' → m' = m := by
  induction h with
  | bool hk | bits hk | enum hk | header hk =>
    intro m' h'
    rw [measures_iff, hk] at h'
    exact h'
  | aggregate hk _ ih =>
    intro m' h'
    rw [measures_iff, hk] at h'
    obtain ⟨ms, hms, rfl⟩ := h'
    exact congrArg Measure.sum (List.map_congr_left fun f hf => ih f hf _ (hms f hf))
  | stack hk _ ih =>
    intro m' h'
    rw [measures_iff, hk] at h'
    obtain ⟨m₀, hm₀, rfl⟩ := h'
    rw [ih m₀ hm₀]
  | named hk hl _ ih =>
    intro m' h'
    rw [measures_iff, hk] at h'
    obtain ⟨target, hl', hm'⟩ := h'
    obtain rfl := Option.some.inj (hl.symm.trans hl')
    exact ih m' hm'

theorem Measures.logical_le {t : TypeTable} {ty : TypeId} {m : Measure} (h : t.Measures ty m) :
    m.logical ≤ m.stored := by
  induction h with
  | bool _ => exact (by decide : 1 ≤ 8)
  | enum _ | header _ => exact Nat.le_refl _
  | bits _ => exact le_storageBits _
  | @aggregate ty form n fields ms _ _ ih =>
    show ((fields.map ms).map (·.logical)).sum ≤ ((fields.map ms).map (·.stored)).sum
    rw [List.map_map, List.map_map]
    exact List.sum_le_sum ih
  | stack _ _ ih => exact Nat.mul_le_mul_left _ ih
  | named _ _ _ ih => exact ih

/-! ## What lowering holds -/

theorem toNat_headerWidth (t : TypeTable) (n : Name) (span : Span) (fields : List Field) :
    ((soundBits (fields.map (t.headerField n span))).foldl satAdd 0).toNat =
      min (t.headerBits fields) maxWidth := by
  have hbits : (soundBits (fields.map (t.headerField n span))).map UInt32.toNat =
      fields.filterMap t.fieldWidth? := by
    unfold soundBits
    rw [List.filterMap_map, List.map_filterMap]
    refine List.filterMap_congr fun f _ => ?_
    rcases headerField_cases t n span f with ⟨w, he, hw⟩ | ⟨d, he, hw, -⟩
    · simp [he, hw, Except.toOption]
    · simp [he, hw, Except.toOption]
  rw [toNat_foldl_satAdd, hbits, UInt32.toNat_zero, Nat.zero_add]
  rfl

theorem extents_keptMembers {t : TypeTable} {fields : List Field} {x : Field → Lowered} :
    (CType.memberExtents (t.keptMembers (fields.map fun f => (f, x f)))).filterMap id =
      fields.filterMap fun f => (x f).result.toOption.bind CType.extent? := by
  rw [CType.memberExtents_eq_map, List.filterMap_map, keptMembers, List.filterMap_map,
    List.filterMap_filterMap]
  refine List.filterMap_congr fun f _ => ?_
  cases hr : (x f).result with
  | error e => simp [hr, Except.toOption]
  | ok c => simp [hr, Except.toOption]

/-- A C type of fixed width holds the measure of its node. -/
theorem Lowers.holds {t : TypeTable} {path : List Name} {ty : TypeId} {x : Lowered}
    (h : t.Lowers path ty x) :
    ∀ {c : CType} {e : Extent}, x.result = .ok c → c.extent? = some e → ∃ m, t.Measures ty m ∧
      m.Holds e := by
  induction h with
  | bool hk =>
    intro c e hc he
    cases hc
    cases he
    exact ⟨_, .bool hk, rfl, rfl⟩
  | bits hk =>
    intro c e hc he
    cases hc
    cases he
    exact ⟨_, .bits hk, Measure.holds_scalar _⟩
  | enum hk =>
    intro c e hc he
    cases hc
    cases he
    exact ⟨_, .enum hk, rfl, rfl⟩
  | header hk =>
    intro c e hc he
    cases hc
    cases he
    exact ⟨_, .header hk, toNat_headerWidth t _ _ _, toNat_headerWidth t _ _ _⟩
  | varbits hk | cycle hk hn | unknown hk hn hl =>
    intro c e hc
    cases hc
  | @aggregate path ty form n fields x hk hx ih =>
    intro c e hc he
    have hreported : ∀ f ∈ fields, (x f).Reported := fun f hf => (hx f hf).reported
    have hsized := (sized_assemble_iff hreported).mp ⟨c, e, hc, he⟩
    have hfield : ∀ f ∈ fields, ∃ (m : Measure) (e : Extent), t.Measures f.type m ∧ m.Holds e ∧
        (x f).result.toOption.bind CType.extent? = some e := by
      intro f hf
      obtain ⟨c, e, hc, he⟩ := hsized f hf
      obtain ⟨m, hm, hholds⟩ := ih f hf hc he
      exact ⟨m, e, hm, hholds, by rw [hc]; exact he⟩
    choose! m es hm hholds hes using hfield
    refine ⟨_, .aggregate hk hm, ?_⟩
    have hextents : fields.filterMap (fun f => (x f).result.toOption.bind CType.extent?) =
        fields.map es := by
      rw [← List.filterMap_eq_map]
      exact List.filterMap_congr hes
    have hsum : e = (fields.map es).foldl Extent.add .zero := by
      rw [result_assemble hreported] at hc
      cases hc
      rw [CType.extent?] at he
      split at he
      · cases he
      · rw [← hextents, ← extents_keptMembers]
        exact (Option.some.inj he).symm
    rw [hsum]
    refine Measure.holds_sum (List.forall₂_map_left_iff.mpr (List.forall₂_map_right_iff.mpr ?_))
    exact List.forall₂_same.mpr hholds
  | stack hk _ ih =>
    intro c e hc he
    obtain ⟨element, extent, helement, hextent, rfl⟩ := Lowered.result_stack.mp hc
    cases he
    obtain ⟨m, hm, hholds⟩ := ih helement hextent
    exact ⟨_, .stack hk hm, hholds.scale _⟩
  | declared hk hn hl _ ih =>
    intro c e hc he
    obtain ⟨canonical, hcanonical, rfl⟩ := Lowered.result_rename.mp hc
    obtain ⟨m, hm, hholds⟩ := ih hcanonical he
    exact ⟨m, .named hk hl hm, hholds⟩

/-- **Widths are exact up to one bound.**  A type that becomes a C type of fixed width has one exact
measure; its widths are the measure, each `maxWidth` where the measure is larger, and the stored
width is no smaller than the logical one. -/
theorem Built.extent_exact {t : TypeTable} (h : t.Built) {ty : TypeId} {q : Queue}
    {c : CType} {e : Extent} (hc : (t.create ty q).1 = .ok c) (he : c.extent? = some e) :
    ∃ m, t.Measures ty m ∧ (∀ m', t.Measures ty m' → m' = m) ∧
      e.logical.toNat = min m.logical maxWidth ∧
      e.stored.toNat = min m.stored maxWidth ∧ e.logical ≤ e.stored := by
  obtain ⟨m, hm, hholds⟩ := (h.sound.lowers [] ty).holds hc he
  exact ⟨m, hm, hm.unique, hholds.logical, hholds.stored, hholds.logical_le hm.logical_le⟩

/-- Two of the widest scalars are too large for a word; an array of none of these pairs is empty. -/
def huge : TypeTable :=
  let t := (Growth.alloc (.bits 4294967295 false) .dummy).grow ∅
  let t := (Growth.alloc (.stack 0 2) .dummy).grow t
  (Growth.alloc (.stack 1 0) .dummy).grow t

theorem built_huge : huge.Built :=
  .alloc_stack (.alloc_stack (built_single .dummy rfl rfl) 2 .dummy (by decide)) 0 .dummy
    (by decide)

/-- The empty array has no width, though its elements are held at the largest. -/
theorem extent_exact_huge : huge.Built ∧ ∃ element c : CType,
    (huge.create 2 (.ofConfig .unlimited)).1 = .ok c ∧
      c = .stack element ⟨4294967295, 4294967295⟩ 0 ∧
    huge.Measures 1 ⟨8589934590, 8589934592⟩ ∧ huge.Measures 2 ⟨0, 0⟩ ∧ ∀ m', huge.Measures 2 m' →
      m' = ⟨0, 0⟩ := by
  have h0 : huge.kind 0 = .bits 4294967295 false := by decide +kernel
  have h1 : huge.kind 1 = .stack 0 2 := by decide +kernel
  have h2 : huge.kind 2 = .stack 1 0 := by decide +kernel
  have hpair : huge.Measures 1 ⟨8589934590, 8589934592⟩ := .stack h1 (.bits h0)
  have hcreate : (huge.create 2 (.ofConfig .unlimited)).1 = .ok
      (.stack (.stack (.scalar 4294967295 false) ⟨4294967295, 4294967295⟩ 2)
        ⟨4294967295, 4294967295⟩ 0) := by
    show (huge.lower [] 2).result = _
    rw [built_huge.sound.lower_stack h2, built_huge.sound.lower_stack h1, lower, h0]
    rfl
  obtain ⟨m, -, hunique, -⟩ := Built.extent_exact built_huge hcreate rfl
  have hnone : huge.Measures 2 ⟨0, 0⟩ := by
    have hscale : huge.Measures 2 (Measure.scale _ _) := .stack h2 hpair
    simpa [Measure.scale] using hscale
  obtain rfl := hunique ⟨0, 0⟩ hnone
  exact ⟨built_huge, _, _, hcreate, rfl, hpair, hnone, hunique⟩

end TypeTable

end WireTypes
