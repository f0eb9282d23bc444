import WireTypes.Proofs.Diagnostic.Limit

/-!
# Joining queues

Reports may be spread over queues of their own, one for each part of the work, and the queues joined
in order.  A queue of its own knows neither what the joined one keeps nor how much room is left
there, so it may keep what is a repetition over there, and drop errors when it is full itself.
Neither shows: a repetition is found when the queues are joined, and a full queue fills the other
one as well.

* `agree_addAll_fork`: what a fork keeps of some reports does for all of them;
* `agree_funnel`: so do all forks, joined in order;
* `Reachable.funnel_agrees`: joining forks and reporting directly show the same.
-/

namespace WireTypes

namespace Queue

/-- Some reports, made to a fork of `q`. -/
def worker (q : Queue) (ds : List Diagnostic) : Queue := q.fork.addAll ds

/-- Reports in several parts, each made to a fork of its own; then the forks are joined in order. -/
def funnel (q : Queue) (parts : List (List Diagnostic)) : Queue :=
  (parts.map q.worker).foldl append q

theorem config_worker (q : Queue) (ds : List Diagnostic) : (q.worker ds).config = q.config :=
  (grows_addAll ds q.fork).config

theorem consistent_worker (q : Queue) (ds : List Diagnostic) : (q.worker ds).Consistent :=
  (consistent_ofConfig q.config).addAll ds

/-! ## One fork -/

/-- A report that a fork does not accept is not accepted where the fork's reports went already. -/
theorem not_accepts_of_worker {q : Queue} (hq : q.Counted) {ds : List Diagnostic} {d : Diagnostic}
    (h : (q.worker ds).accepts d = false) : (q.addAll (q.worker ds).kept).accepts d = false := by
  have hfork := consistent_worker q ds
  have hconfig := config_worker q ds
  have hjoined := (grows_addAll (q.worker ds).kept q).config
  have hreached : d.isError = true → (q.addAll (q.worker ds).kept).limitReached = true →
      (q.addAll (q.worker ds).kept).accepts d = false := by
    intro he hl
    simp [accepts, exceeds, he, hl]
  cases hx : (q.worker ds).exceeds d with
  | true =>
    -- a full fork keeps enough different errors to fill the other queue
    simp only [exceeds, Bool.and_eq_true] at hx
    obtain ⟨he, hl⟩ := hx
    rw [limitReached_iff, hconfig, hfork.errors] at hl
    refine hreached he (limitReached_addAll_of_full hq ?_ hl.1 hl.2)
    rw [← hconfig]
    exact hfork.nodup
  | false =>
    have hr : (q.worker ds).repeats d = true := by
      simpa [accepts, hx] using h
    simp only [repeats, hconfig, Bool.and_eq_true, List.contains_iff_mem] at hr
    rcases mem_kept_addAll (q := q) hr.2 with hk | ⟨he, hl⟩
    · simp [accepts, repeats, hjoined, hr.1, hk]
    · exact hreached he hl

theorem agree_addAll_fork {q : Queue} (hq : q.Counted) (ds : List Diagnostic) :
    (q.addAll (q.worker ds).kept).Agree (q.addAll ds) := by
  induction ds using List.reverseRecOn with
  | nil => exact .refl q
  | append_singleton ds d ih =>
    have hworker : q.worker (ds ++ [d]) = (q.worker ds).add d := addAll_concat q.fork ds d
    rw [addAll_concat, hworker]
    cases ha : (q.worker ds).accepts d with
    | true =>
      have hkept : ((q.worker ds).add d).kept = (q.worker ds).kept ++ [d] := by
        rcases add_cases (q.worker ds) d with ⟨he, hl, -⟩ | ⟨hdup, hmem, -⟩ | ⟨-, h⟩
        · simp [accepts, exceeds, he, hl] at ha
        · simp [accepts, repeats, hdup, hmem] at ha
        · rw [h]
          rfl
      rw [hkept, addAll_concat]
      exact ih.add d
    | false =>
      have hkept : ((q.worker ds).add d).kept = (q.worker ds).kept :=
        (agree_add_of_not_accepts ha).kept
      rw [hkept]
      -- the report is not accepted on either side
      have hleft := agree_add_of_not_accepts (not_accepts_of_worker hq ha)
      exact hleft.symm.trans (ih.add d)

theorem agree_append_worker {q : Queue} (hq : q.Counted) (ds : List Diagnostic) :
    (q.append (q.worker ds)).Agree (q.addAll ds) :=
  (agree_append q (q.worker ds)).trans (agree_addAll_fork hq ds)

/-! ## Several forks -/

/-- Forks of one queue, joined to a queue that agrees with another, agree with all their
reports made to the other. -/
theorem agree_foldl_append {p : Queue} (parts : List (List Diagnostic)) :
    ∀ {q r : Queue}, q.Counted → q.config = p.config → q.Agree r →
      ((parts.map p.worker).foldl append q).Agree (r.addAll parts.flatten) := by
  induction parts with
  | nil => intro q r _ _ h; exact h
  | cons ds parts ih =>
    intro q r hq hconfig h
    have hworker : p.worker ds = q.worker ds := by
      unfold worker fork
      rw [hconfig]
    rw [List.map_cons, List.foldl_cons, List.flatten_cons, addAll_append, hworker]
    refine ih (hq.append _) ?_ ((agree_append_worker hq ds).trans (h.addAll ds))
    rw [(grows_append q (q.worker ds)).config, hconfig]

theorem agree_funnel {q : Queue} (hq : q.Counted) (parts : List (List Diagnostic)) :
    (q.funnel parts).Agree (q.addAll parts.flatten) :=
  agree_foldl_append parts hq rfl (.refl q)

theorem consistent_funnel {q : Queue} (hq : q.Consistent) (parts : List (List Diagnostic)) :
    (q.funnel parts).Consistent := by
  have hforks : ∀ {r : Queue}, r.Consistent → r.config = q.config →
      ((parts.map q.worker).foldl append r).Consistent := by
    induction parts with
    | nil => intro r hr _; exact hr
    | cons ds parts ih =>
      intro r hr hconfig
      refine ih (hr.append (consistent_worker q ds) ?_) ?_
      · rw [config_worker, hconfig]
      · rw [(grows_append r _).config, hconfig]
  exact hforks hq rfl

/-- Joining forks counts an error if there is one, dropped or not. -/
theorem hasErrors_foldl_append {p : Queue} (parts : List (List Diagnostic)) :
    ∀ {q : Queue}, q.Counted →
    ((parts.map p.worker).foldl append q).hasErrors =
      (q.hasErrors || parts.flatten.any Diagnostic.isError) := by
  induction parts with
  | nil => intro q _; simp
  | cons ds parts ih =>
    intro q hq
    have hfork : p.fork.hasErrors = false := by simp [fork, ofConfig, hasErrors]
    have hworker : (p.worker ds).hasErrors = ds.any Diagnostic.isError := by
      unfold worker
      rw [hasErrors_addAll ds (q := p.fork) (counted_ofConfig p.config), hfork, Bool.false_or]
    rw [List.map_cons, List.foldl_cons, ih (hq.append _),
      hasErrors_append hq (consistent_worker p ds).toCounted, hworker, List.flatten_cons,
      List.any_append, Bool.or_assoc]

theorem hasErrors_funnel {q : Queue} (hq : q.Counted) (parts : List (List Diagnostic)) :
    (q.funnel parts).hasErrors = (q.addAll parts.flatten).hasErrors := by
  unfold funnel
  rw [hasErrors_foldl_append parts hq, hasErrors_addAll _ hq]

/-- **Joining forks is reporting directly.**  However the reports are split into consecutive parts,
the joined queue keeps the same diagnostics in the same order, has the same counts, and says the
same of its limit and of errors. -/
theorem Reachable.funnel_agrees {p : Queue} (hp : p.Reachable) {ds : List Diagnostic}
    {parts : List (List Diagnostic)} (hparts : parts.flatten = ds) :
    (p.funnel parts).kept = (p.addAll ds).kept ∧
    (p.funnel parts).errors = (p.addAll ds).errors ∧
    (p.funnel parts).warnings = (p.addAll ds).warnings ∧
    (p.funnel parts).limitReached = (p.addAll ds).limitReached ∧
    (p.funnel parts).hasErrors = (p.addAll ds).hasErrors := by
  have h := agree_funnel hp.counted parts
  have herrors := hasErrors_funnel hp.counted parts
  rw [hparts] at h herrors
  exact ⟨h.kept, h.errors, h.warnings, h.limitReached, herrors⟩

/-- Two forks repeat an error that is kept and one of each other's, with room for one more. -/
theorem funnel_agrees_repeated :
    let a := Diagnostic.error .unknownType "a"
    let b := Diagnostic.error .unknownType "b"
    let c := Diagnostic.warning .unknownType "c"
    let p := (ofConfig ⟨2, true⟩).add a
    p.Reachable ∧ (p.funnel [[a, b, a], [b, c]]).kept = [a, b, c] := by
  intro a b c p
  have hp : p.Reachable := .add (.ofConfig ⟨2, true⟩) a
  have hparts : [[a, b, a], [b, c]].flatten = [a, b, a, b, c] := rfl
  refine ⟨hp, (hp.funnel_agrees hparts).1.trans ?_⟩
  decide +kernel

end Queue

end WireTypes
