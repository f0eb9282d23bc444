import WireTypes.Diagnostic.Queue

/-!
# What a queue counts

`Counted q` says that the counts of a queue are those of what it keeps.  Reporting keeps it
(`Counted.add`, `Counted.addAll`), so it holds of every queue that operations lead to
(`Reachable.counted`), and under it no error goes by unnoticed: it is kept, or counted as dropped,
or equal to one that is kept (`hasErrors_add`, `hasErrors_addAll`, `hasErrors_append`).
-/

namespace WireTypes

namespace Queue

/-- The counts of a queue are those of the diagnostics it keeps. -/
structure Counted (q : Queue) : Prop where
  errors : q.errors = Diagnostic.errorCount q.kept
  warnings : q.warnings = Diagnostic.warningCount q.kept

/-- All that a report can do to a queue. -/
theorem add_cases (q : Queue) (d : Diagnostic) :
    (d.isError = true ∧ q.limitReached = true ∧ q.add d = { q with dropped := q.dropped + 1 }) ∨
    (q.config.deduplicate = true ∧ d ∈ q.kept ∧ q.add d = q) ∨
    (q.accepts d = true ∧ q.add d = q.keep d) := by
  unfold add accepts
  cases hx : q.exceeds d with
  | true =>
    left
    have h : d.isError = true ∧ q.limitReached = true := by simpa [exceeds] using hx
    exact ⟨h.1, h.2, rfl⟩
  | false =>
    right
    cases hr : q.repeats d with
    | true =>
      left
      have h : q.config.deduplicate = true ∧ d ∈ q.kept := by simpa [repeats] using hr
      exact ⟨h.1, h.2, rfl⟩
    | false => exact .inr ⟨rfl, rfl⟩

@[simp]
theorem config_add (q : Queue) (d : Diagnostic) : (q.add d).config = q.config := by
  rcases add_cases q d with ⟨-, -, h⟩ | ⟨-, -, h⟩ | ⟨-, h⟩
  · rw [h]
  · rw [h]
  · rw [h]
    rfl

theorem counted_ofConfig (config : QueueConfig) : (ofConfig config).Counted := ⟨rfl, rfl⟩

theorem Counted.add {q : Queue} (hq : q.Counted) (d : Diagnostic) : (q.add d).Counted := by
  rcases add_cases q d with ⟨-, -, h⟩ | ⟨-, -, h⟩ | ⟨-, h⟩
  · rw [h]
    exact ⟨hq.errors, hq.warnings⟩
  · rw [h]
    exact hq
  · rw [h]
    constructor
    · simp [keep, hq.errors, Diagnostic.errorCount, List.countP_append, List.countP_singleton]
    · simp [keep, hq.warnings, Diagnostic.warningCount, List.countP_append, List.countP_singleton]

theorem Counted.addAll (ds : List Diagnostic) :
    ∀ {q : Queue}, q.Counted → (q.addAll ds).Counted := by
  induction ds with
  | nil => intro q hq; exact hq
  | cons d ds ih => intro q hq; exact ih (hq.add d)

theorem Counted.hasErrors_of_mem {q : Queue} (hq : q.Counted) {d : Diagnostic} (hd : d ∈ q.kept)
    (he : d.isError = true) : q.hasErrors = true := by
  have hpos : 0 < Diagnostic.errorCount q.kept := List.countP_pos_iff.mpr ⟨d, hd, he⟩
  rw [← hq.errors] at hpos
  unfold hasErrors
  rw [decide_eq_true_eq]
  omega

/-- A reported error is noticed, kept or not. -/
theorem hasErrors_add {q : Queue} (hq : q.Counted) (d : Diagnostic) :
    (q.add d).hasErrors = (q.hasErrors || d.isError) := by
  rcases add_cases q d with ⟨he, -, h⟩ | ⟨-, hmem, h⟩ | ⟨-, h⟩
  · rw [h, he, Bool.or_true]
    unfold hasErrors
    rw [decide_eq_true_eq]
    exact Nat.lt_add_left q.errors (Nat.succ_pos q.dropped)
  · rw [h]
    cases he : d.isError with
    | false => rw [Bool.or_false]
    | true => rw [Bool.or_true, hq.hasErrors_of_mem hmem he]
  · rw [h]
    cases he : d.isError with
    | false => simp [hasErrors, keep, he]
    | true =>
      rw [Bool.or_true]
      exact ((h ▸ hq.add d : (q.keep d).Counted)).hasErrors_of_mem (by simp [keep]) he

theorem hasErrors_addAll (ds : List Diagnostic) :
    ∀ {q : Queue}, q.Counted → (q.addAll ds).hasErrors =
      (q.hasErrors || ds.any Diagnostic.isError) := by
  induction ds with
  | nil => intro q _; simp [addAll_nil]
  | cons d ds ih =>
    intro q hq
    rw [addAll_cons, ih (hq.add d), hasErrors_add hq d, List.any_cons, Bool.or_assoc]

/-- Errors of a joined queue are noticed too, those that it dropped included. -/
theorem hasErrors_append {q other : Queue} (hq : q.Counted) (ho : other.Counted) :
    (q.append other).hasErrors = (q.hasErrors || other.hasErrors) := by
  have hq' : Counted { q with dropped := q.dropped + other.dropped } := ⟨hq.errors, hq.warnings⟩
  have hany : other.kept.any Diagnostic.isError = true ↔ 0 < other.errors := by
    rw [ho.errors, Diagnostic.errorCount, List.countP_pos_iff, List.any_eq_true]
  unfold append
  rw [hasErrors_addAll _ hq', Bool.eq_iff_iff, Bool.or_eq_true, hany, Bool.or_eq_true]
  simp only [hasErrors, decide_eq_true_eq]
  omega

/-! ## Queues that operations lead to -/

/-- The queue came about by operations, on it and on the queues that were joined to it. -/
inductive Reachable : Queue → Prop
  | ofConfig (config : QueueConfig) : Reachable (.ofConfig config)
  | add {q : Queue} (h : Reachable q) (d : Diagnostic) : Reachable (q.add d)
  | fork {q : Queue} (h : Reachable q) : Reachable q.fork
  | append {q other : Queue} (h : Reachable q) (ho : Reachable other) : Reachable (q.append other)
  | flush {q : Queue} (h : Reachable q) : Reachable q.flush.2

theorem Counted.append {q : Queue} (hq : q.Counted) (other : Queue) : (q.append other).Counted :=
  Counted.addAll other.kept ⟨hq.errors, hq.warnings⟩

theorem Reachable.counted {q : Queue} (h : q.Reachable) : q.Counted := by
  induction h with
  | ofConfig config => exact counted_ofConfig config
  | add _ d ih => exact ih.add d
  | @fork q _ _ => exact counted_ofConfig q.config
  | append _ _ ih _ => exact ih.append _
  | flush _ _ => exact ⟨rfl, rfl⟩

/-- A queue that everything fits into keeps it all, in order. -/
theorem kept_addAll_unlimited (ds : List Diagnostic) :
    ∀ {q : Queue}, q.config = .unlimited → (q.addAll ds).kept = q.kept ++ ds := by
  induction ds with
  | nil => intro q _; simp [addAll_nil]
  | cons d ds ih =>
    intro q hq
    rcases add_cases q d with ⟨-, hl, -⟩ | ⟨hd, -, -⟩ | ⟨-, h⟩
    · simp [limitReached, hq, QueueConfig.unlimited] at hl
    · simp [hq, QueueConfig.unlimited] at hd
    · rw [addAll_cons, ih (by rw [config_add, hq]), h]
      simp [keep]

end Queue

end WireTypes
