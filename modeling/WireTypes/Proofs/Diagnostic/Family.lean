import Mathlib.Data.List.Basic
import WireTypes.Proofs.Diagnostic.Limit

/-!
# Families of queues

A family is a queue with all its forks, the forks of these, and so on; queues are named by their
position.  Beside each queue stands the number of errors that were reported to it since it was last
flushed, by itself or through queues that were joined to it.

* `Watched.Sound`: what holds of a queue of a family; `Family.Sound.step` keeps it at every
  position;
* `Family.grows_step`, `Family.grows_foldl`: while it is neither flushed nor joined to another, a
  queue only grows;
* `Family.run_invariant`: what holds in every queue of a family at any time, and of the errors its
  users were told of.
-/

namespace WireTypes

/-- A queue, and the errors reported to it since it was last flushed. -/
structure Watched where
  queue : Queue
  reported : Nat
  deriving DecidableEq

namespace Watched

def report (w : Watched) (d : Diagnostic) : Watched :=
  ⟨w.queue.add d, w.reported + if d.isError then 1 else 0⟩

def join (w other : Watched) : Watched := ⟨w.queue.append other.queue, w.reported + other.reported⟩

def fork (w : Watched) : Watched := ⟨w.queue.fork, 0⟩

def flush (w : Watched) : Watched := ⟨w.queue.flush.2, 0⟩

end Watched

/-- What can be done to the queues of a family. -/
inductive QueueOp where
  | add (i : Nat) (d : Diagnostic)
  /-- like `add`; the answer is a guarantee that there is an error -/
  | emitError (i : Nat) (d : Diagnostic)
  /-- makes a new queue, at the next position -/
  | fork (i : Nat)
  /-- moves the second queue into the first; a fork takes its place -/
  | append (i j : Nat)
  | flush (i : Nat)

/-- The queues of a family, by position. -/
abbrev Family := List Watched

namespace Family

/-- One operation.  Where a position has no queue nothing happens there. -/
def step (ws : Family) : QueueOp → Family
  | .add i d => ws.modify i (·.report d)
  | .emitError i d => ws.modify i (·.report d)
  | .fork i => ws ++ (ws[i]?.map Watched.fork).toList
  | .append i j =>
    match ws[j]? with
    | some other => (ws.modify i (·.join other)).modify j Watched.fork
    | none => ws
  | .flush i => ws.modify i Watched.flush

/-- Operations on the family of a new queue. -/
def run (config : QueueConfig) (ops : List QueueOp) : Family :=
  ops.foldl step [⟨.ofConfig config, 0⟩]

end Family

namespace QueueOp

/-- The queue at position `i` is neither flushed nor moved away. -/
def Spares (i : Nat) : QueueOp → Prop
  | .append _ j => j ≠ i
  | .flush j => j ≠ i
  | _ => True

/-- Someone was told that there are errors in the queue at position `i`: whoever reported one, or
whoever was told so of a queue that is moved there. -/
def Tells (ws : Family) (i : Nat) : QueueOp → Prop
  | .emitError j d => j = i ∧ d.isError = true
  | .append j k => j = i ∧ k ≠ i ∧ ∃ other, ws[k]? = some other ∧ other.queue.hasErrors = true
  | _ => False

end QueueOp

/-! ## What one operation keeps -/

namespace Watched

/-- What holds of a queue of a family.  The last clause counts every error that was reported; where
repetitions are forgotten some are in neither count. -/
structure Sound (config : QueueConfig) (w : Watched) : Prop where
  config_eq : w.queue.config = config
  consistent : w.queue.Consistent
  reported_eq : config.deduplicate = false → w.queue.errors + w.queue.dropped = w.reported

variable {config : QueueConfig} {w other : Watched}

theorem sound_ofConfig (config : QueueConfig) : Sound config ⟨.ofConfig config, 0⟩ :=
  ⟨rfl, Queue.consistent_ofConfig config, fun _ => rfl⟩

theorem Sound.fork (hw : w.Sound config) : w.fork.Sound config := by
  have h := hw.config_eq
  subst h
  exact sound_ofConfig w.queue.config

theorem Sound.flush (hw : w.Sound config) : w.flush.Sound config :=
  ⟨hw.config_eq, hw.consistent.clear, fun _ => rfl⟩

end Watched

namespace Queue

/-- Without deduplication every error is kept or dropped. -/
theorem errors_add_dropped {q : Queue} (hdup : q.config.deduplicate = false) (d : Diagnostic) :
    (q.add d).errors + (q.add d).dropped = q.errors + q.dropped + if d.isError then 1 else 0 := by
  rcases add_cases q d with ⟨he, -, h⟩ | ⟨hd, -, -⟩ | ⟨-, h⟩
  · rw [h, he]
    show q.errors + (q.dropped + 1) = q.errors + q.dropped + 1
    omega
  · rw [hdup] at hd
    cases hd
  · rw [h]
    show q.errors + _ + q.dropped = _
    omega

theorem errors_addAll_dropped (ds : List Diagnostic) : ∀ {q : Queue}, q.config.deduplicate = false →
    (q.addAll ds).errors + (q.addAll ds).dropped =
      q.errors + q.dropped + Diagnostic.errorCount ds := by
  induction ds with
  | nil => intro q _; rfl
  | cons d ds ih =>
    intro q hdup
    have hstep := errors_add_dropped hdup d
    rw [addAll_cons, ih ((grows_add q d).config.symm ▸ hdup), hstep]
    unfold Diagnostic.errorCount
    rw [List.countP_cons]
    omega

theorem errors_append_dropped {q other : Queue} (hdup : q.config.deduplicate = false)
    (ho : other.Counted) :
    (q.append other).errors + (q.append other).dropped =
      q.errors + q.dropped + (other.errors + other.dropped) := by
  have hcount :=
    errors_addAll_dropped other.kept (q := { q with dropped := q.dropped + other.dropped }) hdup
  rw [← ho.errors] at hcount
  unfold append
  rw [hcount]
  show q.errors + (q.dropped + other.dropped) + other.errors = _
  omega

end Queue

namespace Watched

variable {config : QueueConfig} {w other : Watched}

theorem Sound.report (hw : w.Sound config) (d : Diagnostic) : (w.report d).Sound config where
  config_eq := (Queue.grows_add w.queue d).config.trans hw.config_eq
  consistent := hw.consistent.add d
  reported_eq hdup := by
    have hcount := Queue.errors_add_dropped (hw.config_eq.symm ▸ hdup) d
    rw [hw.reported_eq hdup] at hcount
    exact hcount

theorem Sound.join (hw : w.Sound config) (ho : other.Sound config) :
    (w.join other).Sound config where
  config_eq := (Queue.grows_append w.queue other.queue).config.trans hw.config_eq
  consistent := hw.consistent.append ho.consistent (ho.config_eq.trans hw.config_eq.symm)
  reported_eq hdup := by
    have hcount := Queue.errors_append_dropped (hw.config_eq.symm ▸ hdup) ho.consistent.toCounted
    rw [hw.reported_eq hdup, ho.reported_eq hdup] at hcount
    exact hcount

end Watched

namespace Family

variable {config : QueueConfig}

theorem step_append {ws : Family} {i j : Nat} {other : Watched} (hj : ws[j]? = some other) :
    ws.step (.append i j) = (ws.modify i (·.join other)).modify j Watched.fork := by
  simp only [step, hj]

theorem step_append_none {ws : Family} {i j : Nat} (hj : ws[j]? = none) :
    ws.step (.append i j) = ws := by
  simp only [step, hj]

theorem getElem?_modify_eq_some {ws : Family} {f : Watched → Watched} {i k : Nat} {w : Watched}
    (h : (ws.modify i f)[k]? = some w) : ∃ v, ws[k]? = some v ∧ w = if i = k then f v else v := by
  rw [List.getElem?_modify] at h
  cases hv : ws[k]? with
  | none => simp [hv] at h
  | some v =>
    refine ⟨v, rfl, ?_⟩
    simpa [hv, eq_comm] using h

def Sound (config : QueueConfig) (ws : Family) : Prop :=
  ∀ (k : Nat) (w : Watched), ws[k]? = some w → w.Sound config

theorem Sound.modify {ws : Family} (hws : Sound config ws) (i : Nat) {f : Watched → Watched}
    (hf : ∀ v, v.Sound config → (f v).Sound config) : Sound config (ws.modify i f) := by
  intro k w hk
  obtain ⟨v, hv, rfl⟩ := getElem?_modify_eq_some hk
  split
  · exact hf v (hws k v hv)
  · exact hws k v hv

theorem Sound.step {ws : Family} (hws : Sound config ws) (op : QueueOp) :
    Sound config (ws.step op) := by
  cases op with
  | add i d => exact hws.modify i fun v hv => hv.report d
  | emitError i d => exact hws.modify i fun v hv => hv.report d
  | flush i => exact hws.modify i fun v hv => hv.flush
  | fork i =>
    intro k w hk
    have hmem : w ∈ ws ++ (ws[i]?.map Watched.fork).toList := List.mem_of_getElem? hk
    rcases List.mem_append.mp hmem with hmem | hmem
    · obtain ⟨k', hk'⟩ := List.mem_iff_getElem?.mp hmem
      exact hws k' w hk'
    · rw [Option.mem_toList, Option.map_eq_some_iff] at hmem
      obtain ⟨v, hv, rfl⟩ := hmem
      exact (hws i v hv).fork
  | append i j =>
    cases hj : ws[j]? with
    | none =>
      rw [step_append_none hj]
      exact hws
    | some other =>
      rw [step_append hj]
      exact (hws.modify i fun v hv => hv.join (hws j other hj)).modify j fun v hv => hv.fork

theorem sound_run (config : QueueConfig) (ops : List QueueOp) : Sound config (run config ops) := by
  induction ops using List.reverseRecOn with
  | nil =>
    intro k w hk
    obtain rfl := List.mem_singleton.mp (List.mem_of_getElem? hk)
    exact Watched.sound_ofConfig config
  | append_singleton ops op ih =>
    unfold run at ih ⊢
    rw [List.foldl_append]
    exact ih.step op

/-! ## What stays while a queue is spared -/

theorem grows_modify {ws : Family} {f : Watched → Watched}
    (hf : ∀ v : Watched, v.queue.Grows (f v).queue) (i : Nat) {k : Nat} {w : Watched}
    (hk : ws[k]? = some w) : ∃ w', (ws.modify i f)[k]? = some w' ∧ w.queue.Grows w'.queue := by
  refine ⟨if i = k then f w else w, by rw [List.getElem?_modify, hk]; rfl, ?_⟩
  split
  · exact hf w
  · exact .refl w.queue

theorem grows_step {ws : Family} {op : QueueOp} {k : Nat} (hop : op.Spares k) {w : Watched}
    (hk : ws[k]? = some w) : ∃ w', (ws.step op)[k]? = some w' ∧ w.queue.Grows w'.queue := by
  cases op with
  | add i d => exact grows_modify (fun v => Queue.grows_add v.queue d) i hk
  | emitError i d => exact grows_modify (fun v => Queue.grows_add v.queue d) i hk
  | fork i =>
    refine ⟨w, ?_, .refl w.queue⟩
    obtain ⟨hlt, -⟩ := List.getElem?_eq_some_iff.mp hk
    exact (List.getElem?_append_left hlt).trans hk
  | append i j =>
    cases hj : ws[j]? with
    | none => exact ⟨w, by rw [step_append_none hj, hk], .refl w.queue⟩
    | some other =>
      obtain ⟨w', hk', hgrows⟩ := grows_modify (f := (·.join other))
        (fun v => Queue.grows_append v.queue other.queue) i hk
      refine ⟨w', ?_, hgrows⟩
      have hjk : j ≠ k := hop
      rw [step_append hj, List.getElem?_modify, hk']
      simp [hjk]
  | flush i =>
    have hik : i ≠ k := hop
    refine ⟨w, ?_, .refl w.queue⟩
    show (ws.modify i Watched.flush)[k]? = some w
    rw [List.getElem?_modify, hk]
    simp [hik]

theorem grows_foldl {ops : List QueueOp} {k : Nat} (hops : ∀ op ∈ ops, op.Spares k) :
    ∀ {ws : Family} {w : Watched}, ws[k]? = some w →
      ∃ w', (ops.foldl step ws)[k]? = some w' ∧ w.queue.Grows w'.queue := by
  induction ops with
  | nil => intro ws w hk; exact ⟨w, hk, .refl w.queue⟩
  | cons op ops ih =>
    intro ws w hk
    obtain ⟨w', hk', hgrows⟩ := grows_step (hops op List.mem_cons_self) hk
    obtain ⟨w'', hk'', hgrows'⟩ := ih (fun o ho => hops o (List.mem_cons_of_mem op ho)) hk'
    exact ⟨w'', hk'', hgrows.trans hgrows'⟩

/-- A queue of which someone is told that there are errors has some. -/
theorem hasErrors_of_tells {ws : Family} (hws : Sound config ws) {op : QueueOp} {k : Nat}
    (hop : op.Tells ws k) {w : Watched} (hk : ws[k]? = some w) :
    ∃ w', (ws.step op)[k]? = some w' ∧ w'.queue.hasErrors = true := by
  have hw := (hws k w hk).consistent.toCounted
  cases op with
  | emitError i d =>
    obtain ⟨rfl, he⟩ := hop
    refine ⟨w.report d, ?_, ?_⟩
    · show (ws.modify i (·.report d))[i]? = some (w.report d)
      simp [hk]
    · show (w.queue.add d).hasErrors = true
      rw [Queue.hasErrors_add hw, he, Bool.or_true]
  | append i j =>
    obtain ⟨rfl, hji, other, hj, he⟩ := hop
    refine ⟨w.join other, ?_, ?_⟩
    · simp [step_append hj, hk, hji]
    · show (w.queue.append other.queue).hasErrors = true
      rw [Queue.hasErrors_append hw (hws j other hj).consistent.toCounted, he, Bool.or_true]
  | add | fork | flush => cases hop

/-- **The invariant of queues, over whole runs.**  In every queue of a family, after any operations:
the counts are those of what is kept; the limit holds; repetitions are forgotten if asked to;
nothing is dropped unless the queue is full; every error that was reported since the last flush is
in one of the two counts; and wherever someone was told of errors, an error is kept until the queue
is flushed or moved away. -/
theorem run_invariant (config : QueueConfig) (ops : List QueueOp) {k : Nat} {w : Watched}
    (hk : (run config ops)[k]? = some w) :
    w.queue.errors = Diagnostic.errorCount w.queue.kept ∧
    w.queue.warnings = Diagnostic.warningCount w.queue.kept ∧
    (0 < config.errorLimit → w.queue.errors ≤ config.errorLimit) ∧
    (config.deduplicate = true → w.queue.kept.Nodup) ∧
    (0 < w.queue.dropped → 0 < config.errorLimit ∧ w.queue.errors = config.errorLimit) ∧
    (config.deduplicate = false → w.queue.errors + w.queue.dropped = w.reported) ∧
    (w.queue.hasErrors = true → ∃ d ∈ w.queue.kept, d.isError = true) ∧
    (∀ before op after, ops = before ++ op :: after → (∃ v, (run config before)[k]? = some v) →
      op.Tells (run config before) k → (∀ o ∈ after, o.Spares k) → w.queue.hasErrors = true) := by
  have hw := sound_run config ops k w hk
  have hconfig := hw.config_eq
  have hshown := hw.consistent
  refine ⟨hshown.errors, hshown.warnings, hconfig ▸ hshown.bounded, hconfig ▸ hshown.nodup,
    hconfig ▸ hshown.full, hw.reported_eq, hshown.exists_error, ?_⟩
  rintro before op after rfl ⟨v, hv⟩ htells hspares
  obtain ⟨w₁, hw₁, he⟩ := hasErrors_of_tells (sound_run config before) htells hv
  obtain ⟨w₂, hw₂, hgrows⟩ := grows_foldl hspares hw₁
  have hsame : run config (before ++ op :: after) =
      after.foldl step ((run config before).step op) := by
    unfold run
    rw [List.foldl_append, List.foldl_cons]
  rw [hsame, hw₂, Option.some.injEq] at hk
  exact hk ▸ hgrows.hasErrors he

/-- A fork drops an error, and the queue it is moved into has no room for what it kept. -/
theorem run_invariant_full :
    let a := Diagnostic.error .unknownType "a"
    let ops := [.emitError 0 a, .fork 0, .emitError 1 a, .emitError 1 a, .append 0 1, .add 1 a]
    ∃ w, (run ⟨1, false⟩ ops)[0]? = some w ∧ w.queue.errors + w.queue.dropped = 3 ∧
      w.queue.hasErrors = true := by
  intro a ops
  have hk : (run ⟨1, false⟩ ops)[0]? = some ⟨⟨⟨1, false⟩, [a], 1, 0, 2⟩, 3⟩ := by decide +kernel
  obtain ⟨-, -, -, -, -, hreported, -, htold⟩ := run_invariant ⟨1, false⟩ ops hk
  refine ⟨_, hk, hreported rfl, htold [] (.emitError 0 a) _ rfl ⟨_, rfl⟩ ⟨rfl, rfl⟩ ?_⟩
  simp [QueueOp.Spares]

end Family

end WireTypes
