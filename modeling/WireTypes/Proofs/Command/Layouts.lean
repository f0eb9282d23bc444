import Mathlib.Order.Bounds.Defs
import WireTypes.Proofs.Command.Results
import WireTypes.Proofs.Diagnostic.Repeats
import WireTypes.Proofs.Lower.Measure

/-!
# Layouts of types

The rows of a list of types do not depend on the queue, which only takes what each of the types
reports (`Sound.layoutReport_eq`).  A type without a fixed width has a row too, and a report for it.

* `CType.Row`: what a row says of a C type;
* `Sound.mem_layoutReports_iff`: which types are reported to have no width;
* `Lowers.span_of_unsized`: such a report points at the node of the type;
* `Built.layoutReport_outcome` puts these together.
-/

namespace WireTypes

/-! ## Rows -/

/-- The row describes the type.  Bytes are as few as hold the bits that are stored. -/
structure CType.Row (c : CType) (entry : LayoutEntry) : Prop where
  names : entry.name = c.display ∧ entry.kind = c.kindName ∧ entry.alignment = c.alignment
  sized : entry.sized = true ↔ ∃ e, c.extent? = some e
  widths : ∀ e, c.extent? = some e → entry.bits = e.logical ∧ entry.storedBits = e.stored
  unsized : c.extent? = none → entry.bits = 0 ∧ entry.storedBits = 0 ∧ entry.bytes = 0
  le : entry.bits ≤ entry.storedBits
  bytes : IsLeast {n : ℕ | entry.storedBits.toNat ≤ 8 * n} entry.bytes.toNat

theorem isLeast_byteCount (bits : UInt32) :
    IsLeast {n : ℕ | bits.toNat ≤ 8 * n} (byteCount bits).toNat := by
  rw [toNat_byteCount]
  constructor
  · show bits.toNat ≤ 8 * ((bits.toNat + 7) / 8)
    omega
  · intro n hn
    have hn : bits.toNat ≤ 8 * n := hn
    omega

theorem CType.row_layout {c : CType} (h : ∀ e, c.extent? = some e → e.logical ≤ e.stored) :
    c.Row c.layout where
  names := ⟨rfl, rfl, rfl⟩
  sized := Option.isSome_iff_exists
  widths e he := by
    unfold layout extentOrZero
    rw [he]
    exact ⟨rfl, rfl⟩
  unsized hnone := by
    unfold layout extentOrZero
    rw [hnone]
    exact ⟨rfl, rfl, rfl⟩
  le := by
    show c.extentOrZero.logical ≤ c.extentOrZero.stored
    unfold extentOrZero
    cases he : c.extent? with
    | none => exact UInt32.le_refl 0
    | some e => exact h e he
  bytes := isLeast_byteCount _

namespace TypeTable

/-! ## What is reported -/

/-- A type is reported to have no width if it becomes a C type without one. -/
theorem Sound.mem_layoutReports_iff {t : TypeTable} (ht : t.Sound) {ty : TypeId} {d : Diagnostic} :
    d ∈ t.layoutReports ty ∧ d.code = .widthOfUnsized ↔
      ∃ c, (t.lower [] ty).result = .ok c ∧ c.extent? = none ∧ d = c.widthOfUnsized := by
  have hlowering : d ∈ (t.lower [] ty).reports → d.code ≠ .widthOfUnsized := by
    intro hd hcode
    have hfound := (ht.lowers [] ty).foundByLowering d hd
    rw [hcode] at hfound
    cases hfound
  have hwidth : ∀ c : CType, d ∈ c.widthReports ↔ c.extent? = none ∧ d = c.widthOfUnsized := by
    intro c
    unfold CType.widthReports CType.isSized
    cases c.extent? <;> simp
  unfold layoutReports
  rw [List.mem_append]
  constructor
  · rintro ⟨hd | hd, hcode⟩
    · exact absurd hcode (hlowering hd)
    · cases hresult : (t.lower [] ty).result with
      | error e =>
        rw [hresult] at hd
        cases hd
      | ok c =>
        rw [hresult] at hd
        have hd := (List.mem_append.mp hd).elim id id
        exact ⟨c, rfl, (hwidth c).mp hd⟩
  · rintro ⟨c, hresult, hnone, rfl⟩
    rw [hresult]
    exact ⟨.inr (List.mem_append_left _ ((hwidth c).mpr ⟨hnone, rfl⟩)), rfl⟩

/-- What has no width is a struct or union, or another name for one, and knows where it comes
from. -/
theorem Lowers.span_of_unsized {t : TypeTable} {path : List Name} {ty : TypeId} {x : Lowered}
    (h : t.Lowers path ty x) {c : CType} (hc : x.result = .ok c) (hnone : c.extent? = none) :
    c.span? = some (t.node ty).span := by
  cases h with
  | bool hk | bits hk | enum hk | header hk =>
    cases hc
    cases hnone
  | varbits hk | cycle hk hn | unknown hk hn hl => cases hc
  | aggregate hk hx =>
    rw [result_assemble fun f hf => (hx f hf).reported] at hc
    cases hc
    rfl
  | stack hk hx =>
    obtain ⟨element, extent, -, -, rfl⟩ := Lowered.result_stack.mp hc
    cases hnone
  | declared hk hn hl hx =>
    obtain ⟨canonical, -, rfl⟩ := Lowered.result_rename.mp hc
    rfl

end TypeTable

/-! ## Queues without a limit -/

namespace Queue

theorem mem_kept_addAll_iff {q : Queue} (h : q.config.errorLimit = 0) {ds : List Diagnostic}
    {d : Diagnostic} : d ∈ (q.addAll ds).kept ↔ d ∈ q.kept ∨ d ∈ ds := by
  constructor
  · intro hd
    have honce := (fates_addAll ds q).once d
    have hafter := List.count_pos_iff.mpr hd
    by_contra hnot
    rw [not_or] at hnot
    rw [List.count_eq_zero.mpr hnot.1, List.count_eq_zero.mpr hnot.2] at honce
    omega
  · rintro (hd | hd)
    · exact (grows_addAll ds q).kept.subset hd
    · refine (mem_kept_addAll hd).resolve_right fun hfull => ?_
      have hlimit := (limitReached_iff.mp hfull.2).1
      rw [(grows_addAll ds q).config, h] at hlimit
      exact absurd hlimit (Nat.lt_irrefl 0)

end Queue

/-! ## Reports -/

namespace TypeTable

/-- **Layouts.**  Every list of types has its rows: one for each type that becomes a C type, in
the order of the list.  A row gives the widths of its type, and how many bytes it takes, or
zeros and that there are none.  The queue takes what each type reports; that is the lack of a
width exactly for the types whose row says so, at the place of the type.  In a queue without a
limit all of these are kept, if it forgets repetitions each of them once.  Types without a row
leave an error in any queue. -/
theorem Built.layoutReport_outcome {t : TypeTable} (h : t.Built) (ids : List TypeId) {q : Queue}
    (hq : q.Reachable) :
    ∃ entries r, t.layoutReport q ids = (.ok entries, r) ∧
      List.Forall₂ CType.Row (ids.filterMap fun ty => (t.create ty q).1.toOption) entries ∧
      r = q.addAll (ids.flatMap t.layoutReports) ∧
      (∀ ty d, d ∈ t.layoutReports ty ∧ d.code = .widthOfUnsized ↔
        ∃ c, (t.create ty q).1 = .ok c ∧ c.extent? = none ∧ d = c.widthOfUnsized) ∧
      (∀ ty c, (t.create ty q).1 = .ok c → c.extent? = none →
        c.widthOfUnsized.primarySpan? = some (t.node ty).span) ∧
      (q.config.errorLimit = 0 → ∀ d, d.code = .widthOfUnsized →
        (d ∈ r.kept ↔ d ∈ q.kept ∨
          ∃ ty ∈ ids, ∃ c, (t.create ty q).1 = .ok c ∧ c.extent? = none ∧ d = c.widthOfUnsized) ∧
        (q.config.deduplicate = true → d ∈ r.kept → r.kept.count d = 1)) ∧
      ∀ ty ∈ ids, ∀ e, (t.create ty q).1 = .error e → r.hasErrors = true := by
  have ht := h.sound
  have hgrows := Queue.grows_addAll (ids.flatMap t.layoutReports) q
  refine ⟨_, _, ht.layoutReport_eq ids q, ?_, rfl, fun ty d => ht.mem_layoutReports_iff, ?_, ?_, ?_⟩
  · refine List.forall₂_map_right_iff.mpr (List.forall₂_same.mpr fun c hc =>
      CType.row_layout fun e he => ?_)
    obtain ⟨ty, -, hresult⟩ := List.mem_filterMap.mp hc
    cases hcreate : (t.create ty q).1 with
    | error e' =>
      rw [hcreate] at hresult
      cases hresult
    | ok c' =>
      rw [hcreate] at hresult
      obtain rfl := Option.some.inj hresult
      obtain ⟨m, -, -, -, -, hle⟩ := h.extent_exact hcreate he
      exact hle
  · intro ty c hc hnone
    have hspan := (ht.lowers [] ty).span_of_unsized hc hnone
    unfold CType.widthOfUnsized
    rw [hspan]
    rfl
  · intro hlimit d hcode
    refine ⟨?_, fun hdup hd => ?_⟩
    · rw [Queue.mem_kept_addAll_iff hlimit, List.mem_flatMap]
      refine or_congr_right (exists_congr fun ty => and_congr_right' ?_)
      exact (and_iff_left hcode).symm.trans ht.mem_layoutReports_iff
    · rw [← hgrows.config] at hdup
      exact List.count_eq_one_of_mem (Queue.nodup_addAll _ hq.nodup hdup) hd
  · intro ty hty e he
    have hunsized : ¬ t.Sizable ty := by
      intro hsizable
      obtain ⟨c, e', hc, -⟩ := (ht.exists_extent_iff ty).mpr hsizable
      cases he.symm.trans hc
    obtain ⟨d, hd, herror⟩ := ht.exists_error hunsized
    have hreport : d ∈ ids.flatMap t.layoutReports :=
      List.mem_flatMap.mpr ⟨ty, hty, List.mem_append_left _ hd⟩
    rw [Queue.hasErrors_addAll _ hq.counted, Bool.or_eq_true, List.any_eq_true]
    exact .inr ⟨d, hreport, herror⟩

/-- A byte, a struct that holds itself, and a type of variable width. -/
def uneven : TypeTable := (Growth.alloc (.varbits 8) .dummy).grow mixed

theorem built_uneven : uneven.Built := built_mixed.alloc_leaf (.varbits 8) .dummy rfl rfl

/-- Two of the three types have rows, and one of these has widths. -/
theorem layoutReport_outcome_uneven :
    let q := Queue.ofConfig ⟨0, true⟩
    uneven.Built ∧ q.Reachable ∧ ∃ entries r, uneven.layoutReport q [0, 5, 6] = (.ok entries, r) ∧
      entries.map (·.sized) = [true, false] ∧ entries.map (·.storedBits) = [8, 0] ∧
      (∃ d, d.code = .widthOfUnsized ∧ r.kept.count d = 1) ∧ r.hasErrors = true := by
  intro q
  have hq : q.Reachable := .ofConfig _
  have ht := built_uneven.sound
  have hscalar : uneven.lower [] 0 = .ok (.scalar 8 false) := by
    rw [lower, show uneven.kind 0 = .bits 8 false by decide +kernel]
  have hvarbits : uneven.lower [] 6 = .fail (uneven.unsupportedType 6) := by
    rw [lower, show uneven.kind 6 = .varbits 8 by decide +kernel]
  obtain ⟨c, hc, hnone⟩ : ∃ c, (uneven.lower [] 5).result = .ok c ∧ c.extent? = none := by
    have hstruct : uneven.kind 5 = .aggregate .struct ⟨11⟩ [⟨⟨12⟩, 4, .dummy⟩] := by decide +kernel
    have hname : uneven.kind 4 = .named ⟨11⟩ := by decide +kernel
    have hsizable : ¬ uneven.Sizable 5 := fun h => h.ends.not_leadsToCycle
      ⟨5, .refl, .head (.part (by decide +kernel)) (.single (.name hname (by decide +kernel)))⟩
    have hhere : uneven.Resolves 5 5 := .here fun n hn => by cases hstruct.symm.trans hn
    exact (built_uneven.create_outcome 5 hq).2.1.mpr ⟨5, _, _, _, hhere, hstruct, hsizable⟩
  obtain ⟨entries, r, hreport, hrows, -, -, -, hkept, herrors⟩ :=
    Built.layoutReport_outcome built_uneven [0, 5, 6] hq
  have htypes : ([0, 5, 6] : List TypeId).filterMap (fun ty => (uneven.create ty q).1.toOption) =
      [.scalar 8 false, c] := by
    simp only [create, hscalar, hvarbits, hc, List.filterMap_cons, List.filterMap_nil]
    rfl
  rw [htypes] at hrows
  obtain ⟨byte, others, hbyte, hothers, rfl⟩ := List.forall₂_cons_left_iff.mp hrows
  obtain ⟨node, rest, hnode, hrest, rfl⟩ := List.forall₂_cons_left_iff.mp hothers
  obtain rfl := List.forall₂_nil_left_iff.mp hrest
  have hunsized : node.sized = false := by
    rw [Bool.eq_false_iff]
    intro hsized
    obtain ⟨e, he⟩ := hnode.sized.mp hsized
    cases hnone.symm.trans he
  have hzero := hnode.unsized hnone
  have hwidths := hbyte.widths _ rfl
  refine ⟨built_uneven, hq, _, r, hreport, ?_, ?_, ⟨c.widthOfUnsized, rfl, ?_⟩, ?_⟩
  · simp [hbyte.sized.mpr ⟨_, rfl⟩, hunsized]
  · simp only [List.map_cons, List.map_nil, hwidths.2, hzero.2.1]
    decide
  · obtain ⟨hmem, hcount⟩ := hkept rfl c.widthOfUnsized rfl
    exact hcount rfl (hmem.mpr (.inr ⟨5, by decide, c, hc, hnone, rfl⟩))
  · exact herrors 6 (by decide) .reported (congrArg Lowered.result hvarbits)

end TypeTable

end WireTypes
