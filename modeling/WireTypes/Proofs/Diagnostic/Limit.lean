import Mathlib.Data.List.Induction
import Mathlib.Data.List.Nodup
import Mathlib.Data.List.Perm.Subperm
import WireTypes.Proofs.Diagnostic.Counts

/-!
# What the limit lets through

A queue only grows until it is flushed.  What is reported and not kept was equal to something kept,
or came too late: an error, when the limit was reached (`mem_kept_addAll`).  So as many different
errors as the limit allows are enough to reach it, whatever the queue held before
(`limitReached_addAll_of_full`).

`Agree q r` says that two queues differ at most in the number of errors they dropped;
reporting keeps it.
-/

namespace WireTypes

namespace Queue

theorem limitReached_iff {q : Queue} :
    q.limitReached = true ↔ 0 < q.config.errorLimit ∧ q.config.errorLimit ≤ q.errors := by
  simp [limitReached]

theorem errors_lt_of_room {q : Queue} (h : q.limitReached = false)
    (hpos : 0 < q.config.errorLimit) : q.errors < q.config.errorLimit := by
  by_contra hle
  rw [limitReached_iff.mpr ⟨hpos, Nat.le_of_not_lt hle⟩] at h
  cases h

theorem addAll_concat (q : Queue) (ds : List Diagnostic) (d : Diagnostic) :
    q.addAll (ds ++ [d]) = (q.addAll ds).add d := addAll_append q ds [d]

/-! ## Growth -/

/-- `r` is a later state of `q`, with no flush in between. -/
structure Grows (q r : Queue) : Prop where
  config : r.config = q.config
  kept : q.kept <+: r.kept
  errors : q.errors ≤ r.errors
  dropped : q.dropped ≤ r.dropped

theorem Grows.refl (q : Queue) : q.Grows q := ⟨rfl, List.prefix_rfl, Nat.le_refl _, Nat.le_refl _⟩

theorem Grows.trans {q r s : Queue} (h : q.Grows r) (h' : r.Grows s) : q.Grows s :=
  ⟨h'.config.trans h.config, h.kept.trans h'.kept, Nat.le_trans h.errors h'.errors,
    Nat.le_trans h.dropped h'.dropped⟩

theorem grows_add (q : Queue) (d : Diagnostic) : q.Grows (q.add d) := by
  rcases add_cases q d with ⟨-, -, h⟩ | ⟨-, -, h⟩ | ⟨-, h⟩
  · rw [h]
    exact ⟨rfl, List.prefix_rfl, Nat.le_refl _, Nat.le_succ _⟩
  · rw [h]
    exact .refl q
  · rw [h]
    exact ⟨rfl, List.prefix_append _ _, Nat.le_add_right _ _, Nat.le_refl _⟩

theorem grows_addAll (ds : List Diagnostic) : ∀ q : Queue, q.Grows (q.addAll ds) := by
  induction ds with
  | nil => intro q; exact .refl q
  | cons d ds ih => intro q; exact (grows_add q d).trans (ih (q.add d))

theorem grows_append (q other : Queue) : q.Grows (q.append other) := by
  have hcount : q.Grows { q with dropped := q.dropped + other.dropped } :=
    ⟨rfl, List.prefix_rfl, Nat.le_refl _, Nat.le_add_right _ _⟩
  exact hcount.trans (grows_addAll other.kept _)

theorem Grows.limitReached {q r : Queue} (h : q.Grows r) (hq : q.limitReached = true) :
    r.limitReached = true := by
  rw [limitReached_iff] at hq ⊢
  have herrors := h.errors
  rw [h.config]
  omega

theorem Grows.hasErrors {q r : Queue} (h : q.Grows r) (hq : q.hasErrors = true) :
    r.hasErrors = true := by
  unfold Queue.hasErrors at hq ⊢
  rw [decide_eq_true_eq] at hq ⊢
  have herrors := h.errors
  have hdropped := h.dropped
  omega

/-! ## What is not kept -/

/-- A diagnostic that was just reported is kept, or an error that came too late. -/
theorem mem_kept_add_self (q : Queue) (d : Diagnostic) :
    d ∈ (q.add d).kept ∨ d.isError = true ∧ (q.add d).limitReached = true := by
  rcases add_cases q d with ⟨he, hl, h⟩ | ⟨-, hd, h⟩ | ⟨-, h⟩
  · right
    exact ⟨he, (grows_add q d).limitReached hl⟩
  · left
    rw [h]
    exact hd
  · left
    rw [h]
    exact List.mem_append_right q.kept (List.mem_singleton_self d)

theorem mem_kept_addAll {q : Queue} {d : Diagnostic} {ds : List Diagnostic} (hd : d ∈ ds) :
    d ∈ (q.addAll ds).kept ∨ d.isError = true ∧ (q.addAll ds).limitReached = true := by
  induction ds using List.reverseRecOn with
  | nil => cases hd
  | append_singleton ds e ih =>
    rw [addAll_concat]
    rcases List.mem_append.mp hd with hd | hd
    · rcases ih hd with hk | ⟨he, hl⟩
      · exact .inl ((grows_add _ e).kept.subset hk)
      · exact .inr ⟨he, (grows_add _ e).limitReached hl⟩
    · obtain rfl := List.mem_singleton.mp hd
      exact mem_kept_add_self _ _

/-- A queue that keeps repetitions and has room is longer by all that was reported. -/
theorem kept_addAll_of_room {q : Queue} (hdup : q.config.deduplicate = false) {ds : List Diagnostic}
    (hroom : (q.addAll ds).limitReached = false) : (q.addAll ds).kept = q.kept ++ ds := by
  induction ds using List.reverseRecOn with
  | nil => simp [addAll_nil]
  | append_singleton ds d ih =>
    rw [addAll_concat] at hroom ⊢
    have hbefore : (q.addAll ds).limitReached = false := by
      rw [Bool.eq_false_iff] at hroom ⊢
      exact fun hl => hroom ((grows_add _ d).limitReached hl)
    rcases add_cases (q.addAll ds) d with ⟨-, hl, -⟩ | ⟨hd, -, -⟩ | ⟨-, h⟩
    · rw [hbefore] at hl
      cases hl
    · rw [(grows_addAll ds q).config, hdup] at hd
      cases hd
    · rw [h]
      show (q.addAll ds).kept ++ [d] = q.kept ++ (ds ++ [d])
      rw [ih hbefore, List.append_assoc]

/-- A queue with room has counted every different error that was reported. -/
theorem errorCount_le_of_room {q : Queue} (hq : q.Counted) {ds : List Diagnostic}
    (hnodup : q.config.deduplicate = true → ds.Nodup) (hroom : (q.addAll ds).limitReached = false) :
    Diagnostic.errorCount ds ≤ (q.addAll ds).errors := by
  rw [(hq.addAll ds).errors]
  unfold Diagnostic.errorCount
  cases hdup : q.config.deduplicate with
  | false =>
    rw [kept_addAll_of_room hdup hroom, List.countP_append]
    exact Nat.le_add_left _ _
  | true =>
    rw [List.countP_eq_length_filter, List.countP_eq_length_filter]
    -- the errors are pairwise different, so that all of them being kept makes them a part of what
    -- is kept
    have hsub : ds.filter Diagnostic.isError ⊆ (q.addAll ds).kept.filter Diagnostic.isError := by
      intro d hd
      obtain ⟨hmem, he⟩ := List.mem_filter.mp hd
      rcases mem_kept_addAll (q := q) hmem with hk | ⟨-, hl⟩
      · exact List.mem_filter.mpr ⟨hk, he⟩
      · rw [hroom] at hl
        cases hl
    exact (((hnodup hdup).filter _).subperm hsub).length_le

/-- As many different errors as the limit allows reach it. -/
theorem limitReached_addAll_of_full {q : Queue} (hq : q.Counted) {ds : List Diagnostic}
    (hnodup : q.config.deduplicate = true → ds.Nodup) (hpos : 0 < q.config.errorLimit)
    (hfull : q.config.errorLimit ≤ Diagnostic.errorCount ds) :
    (q.addAll ds).limitReached = true := by
  by_contra hl
  have hroom : (q.addAll ds).limitReached = false := by simpa using hl
  have hcount := errorCount_le_of_room hq hnodup hroom
  refine hl (limitReached_iff.mpr ?_)
  rw [(grows_addAll ds q).config]
  exact ⟨hpos, Nat.le_trans hfull hcount⟩

/-! ## Queues that show the same -/

/-- The queues differ at most in what they dropped. -/
structure Agree (q r : Queue) : Prop where
  config : q.config = r.config
  kept : q.kept = r.kept
  errors : q.errors = r.errors
  warnings : q.warnings = r.warnings

theorem Agree.refl (q : Queue) : q.Agree q := ⟨rfl, rfl, rfl, rfl⟩

theorem Agree.trans {q r s : Queue} (h : q.Agree r) (h' : r.Agree s) : q.Agree s :=
  ⟨h.config.trans h'.config, h.kept.trans h'.kept, h.errors.trans h'.errors,
    h.warnings.trans h'.warnings⟩

theorem Agree.symm {q r : Queue} (h : q.Agree r) : r.Agree q :=
  ⟨h.config.symm, h.kept.symm, h.errors.symm, h.warnings.symm⟩

theorem Agree.limitReached {q r : Queue} (h : q.Agree r) : q.limitReached = r.limitReached := by
  unfold Queue.limitReached
  rw [h.config, h.errors]

theorem Agree.exceeds {q r : Queue} (h : q.Agree r) (d : Diagnostic) :
    q.exceeds d = r.exceeds d := by
  unfold Queue.exceeds
  rw [h.limitReached]

theorem Agree.add {q r : Queue} (h : q.Agree r) (d : Diagnostic) : (q.add d).Agree (r.add d) := by
  have hx := h.exceeds d
  have hr : q.repeats d = r.repeats d := by
    unfold repeats
    rw [h.config, h.kept]
  unfold Queue.add
  rw [hx, hr]
  split
  · exact ⟨h.config, h.kept, h.errors, h.warnings⟩
  · split
    · exact h
    · refine ⟨h.config, ?_, ?_, ?_⟩
      · show q.kept ++ [d] = r.kept ++ [d]
        rw [h.kept]
      · show q.errors + _ = r.errors + _
        rw [h.errors]
      · show q.warnings + _ = r.warnings + _
        rw [h.warnings]

theorem Agree.addAll (ds : List Diagnostic) :
    ∀ {q r : Queue}, q.Agree r → (q.addAll ds).Agree (r.addAll ds) := by
  induction ds with
  | nil => intro q r h; exact h
  | cons d ds ih => intro q r h; exact ih (h.add d)

/-- What is not accepted leaves no trace among what is shown. -/
theorem agree_add_of_not_accepts {q : Queue} {d : Diagnostic} (h : q.accepts d = false) :
    (q.add d).Agree q := by
  rcases add_cases q d with ⟨-, -, he⟩ | ⟨-, -, he⟩ | ⟨ha, -⟩
  · rw [he]
    exact ⟨rfl, rfl, rfl, rfl⟩
  · rw [he]
    exact .refl q
  · rw [h] at ha
    cases ha

theorem agree_append (q other : Queue) : (q.append other).Agree (q.addAll other.kept) :=
  Agree.addAll other.kept ⟨rfl, rfl, rfl, rfl⟩

/-! ## The invariant of queues -/

theorem accepts_iff {q : Queue} {d : Diagnostic} : q.accepts d = true ↔
    (d.isError = true → q.limitReached = false) ∧ (q.config.deduplicate = true → d ∉ q.kept) := by
  cases he : d.isError <;> cases hdup : q.config.deduplicate <;>
    simp [accepts, exceeds, repeats, he, hdup]

theorem nodup_add {q : Queue} (hq : q.config.deduplicate = true → q.kept.Nodup) (d : Diagnostic) :
    (q.add d).config.deduplicate = true → (q.add d).kept.Nodup := by
  rcases add_cases q d with ⟨-, -, h⟩ | ⟨-, -, h⟩ | ⟨ha, h⟩
  · rw [h]
    exact hq
  · rw [h]
    exact hq
  · rw [h]
    intro hdup
    show (q.kept ++ [d]).Nodup
    exact List.concat_eq_append ▸ (hq hdup).concat ((accepts_iff.mp ha).2 hdup)

theorem nodup_addAll (ds : List Diagnostic) :
    ∀ {q : Queue}, (q.config.deduplicate = true → q.kept.Nodup) →
    (q.addAll ds).config.deduplicate = true → (q.addAll ds).kept.Nodup := by
  induction ds with
  | nil => intro q hq; exact hq
  | cons d ds ih => intro q hq; exact ih (nodup_add hq d)

theorem Reachable.nodup {q : Queue} (h : q.Reachable) :
    q.config.deduplicate = true → q.kept.Nodup := by
  induction h with
  | ofConfig config => exact fun _ => List.nodup_nil
  | add _ d ih => exact nodup_add ih d
  | fork _ _ => exact fun _ => List.nodup_nil
  | @append q other _ _ ih _ =>
    exact nodup_addAll other.kept (q := { q with dropped := q.dropped + other.dropped }) ih
  | flush _ _ => exact fun _ => List.nodup_nil

theorem bounded_add {q : Queue} (hq : 0 < q.config.errorLimit → q.errors ≤ q.config.errorLimit)
    (d : Diagnostic) :
    0 < (q.add d).config.errorLimit → (q.add d).errors ≤ (q.add d).config.errorLimit := by
  rcases add_cases q d with ⟨-, -, h⟩ | ⟨-, -, h⟩ | ⟨ha, h⟩
  · rw [h]
    exact hq
  · rw [h]
    exact hq
  · rw [h]
    intro hpos
    show q.errors + (if d.isError then 1 else 0) ≤ q.config.errorLimit
    cases he : d.isError with
    | false => exact hq hpos
    | true => exact errors_lt_of_room ((accepts_iff.mp ha).1 he) hpos

theorem bounded_addAll (ds : List Diagnostic) :
    ∀ {q : Queue}, (0 < q.config.errorLimit → q.errors ≤ q.config.errorLimit) →
      0 < (q.addAll ds).config.errorLimit →
        (q.addAll ds).errors ≤ (q.addAll ds).config.errorLimit := by
  induction ds with
  | nil => intro q hq; exact hq
  | cons d ds ih => intro q hq; exact ih (bounded_add hq d)

theorem Reachable.bounded {q : Queue} (h : q.Reachable) :
    0 < q.config.errorLimit → q.errors ≤ q.config.errorLimit := by
  induction h with
  | ofConfig config => exact fun _ => Nat.zero_le _
  | add _ d ih => exact bounded_add ih d
  | fork _ _ => exact fun _ => Nat.zero_le _
  | @append q other _ _ ih _ =>
    exact bounded_addAll other.kept (q := { q with dropped := q.dropped + other.dropped }) ih
  | flush _ _ => exact fun _ => Nat.zero_le _

/-- What holds of a queue at any time.  Nothing is dropped unless as many errors as the
limit allows are kept. -/
structure Consistent (q : Queue) : Prop extends q.Counted where
  bounded : 0 < q.config.errorLimit → q.errors ≤ q.config.errorLimit
  nodup : q.config.deduplicate = true → q.kept.Nodup
  full : 0 < q.dropped → 0 < q.config.errorLimit ∧ q.errors = q.config.errorLimit

theorem consistent_ofConfig (config : QueueConfig) : (ofConfig config).Consistent where
  toCounted := counted_ofConfig config
  bounded _ := Nat.zero_le _
  nodup _ := List.nodup_nil
  full h := absurd h (Nat.lt_irrefl 0)

theorem Consistent.add {q : Queue} (hq : q.Consistent) (d : Diagnostic) : (q.add d).Consistent := by
  have hcounted := hq.toCounted.add d
  rcases add_cases q d with ⟨-, hl, h⟩ | ⟨-, -, h⟩ | ⟨ha, h⟩
  · rw [h] at hcounted ⊢
    rw [limitReached_iff] at hl
    exact ⟨hcounted, hq.bounded, hq.nodup, fun _ => ⟨hl.1, Nat.le_antisymm (hq.bounded hl.1) hl.2⟩⟩
  · rw [h]
    exact hq
  · rw [h] at hcounted ⊢
    have hroom := (accepts_iff.mp ha).1
    have hbounded := bounded_add hq.bounded d
    have hnodup := nodup_add hq.nodup d
    rw [h] at hbounded hnodup
    refine ⟨hcounted, hbounded, hnodup, fun hdropped => ?_⟩
    obtain ⟨hpos, hfull⟩ := hq.full hdropped
    have he : d.isError = false := by
      by_contra he
      have hlt := errors_lt_of_room (hroom (by simpa using he)) hpos
      omega
    have herrors : (q.keep d).errors = q.errors := by simp [keep, he]
    rw [herrors]
    exact ⟨hpos, hfull⟩

theorem Consistent.addAll (ds : List Diagnostic) :
    ∀ {q : Queue}, q.Consistent → (q.addAll ds).Consistent := by
  induction ds with
  | nil => intro q hq; exact hq
  | cons d ds ih => intro q hq; exact ih (hq.add d)

/-- A queue that dropped errors has enough of them to fill the other one too. -/
theorem Consistent.append {q other : Queue} (hq : q.Consistent) (ho : other.Consistent)
    (hconfig : other.config = q.config) : (q.append other).Consistent := by
  have hagree := agree_append q other
  have hshown := hq.addAll other.kept
  refine ⟨⟨?_, ?_⟩, ?_, ?_, ?_⟩
  · rw [hagree.errors, hagree.kept]
    exact hshown.errors
  · rw [hagree.warnings, hagree.kept]
    exact hshown.warnings
  · rw [hagree.config, hagree.errors]
    exact hshown.bounded
  · rw [hagree.config, hagree.kept]
    exact hshown.nodup
  · intro hdropped
    rcases Nat.eq_zero_or_pos other.dropped with hnone | hsome
    · have hsame : q.append other = q.addAll other.kept := by
        unfold Queue.append
        rw [hnone]
        rfl
      rw [hsame] at hdropped ⊢
      exact hshown.full hdropped
    · obtain ⟨hpos, hfull⟩ := ho.full hsome
      rw [hconfig] at hpos hfull
      have hreached : (q.addAll other.kept).limitReached = true := by
        refine limitReached_addAll_of_full hq.toCounted ?_ hpos ?_
        · rw [← hconfig]
          exact ho.nodup
        · rw [← ho.errors]
          exact Nat.le_of_eq hfull.symm
      rw [limitReached_iff] at hreached
      rw [hagree.config, hagree.errors]
      exact ⟨hreached.1, Nat.le_antisymm (hshown.bounded hreached.1) hreached.2⟩

theorem Consistent.clear {q : Queue} (_ : q.Consistent) : q.clear.Consistent :=
  consistent_ofConfig q.config

/-- Whoever was told of errors can be shown one. -/
theorem Consistent.exists_error {q : Queue} (hq : q.Consistent) (h : q.hasErrors = true) :
    ∃ d ∈ q.kept, d.isError = true := by
  unfold hasErrors at h
  rw [decide_eq_true_eq] at h
  have hpos : 0 < q.errors := by
    rcases Nat.eq_zero_or_pos q.dropped with hnone | hsome
    · omega
    · have := hq.full hsome
      omega
  rw [hq.errors] at hpos
  exact List.countP_pos_iff.mp hpos

end Queue

end WireTypes
