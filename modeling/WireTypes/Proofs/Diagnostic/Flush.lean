import Mathlib.Data.List.Basic
import WireTypes.Proofs.Diagnostic.Family
import WireTypes.Proofs.Diagnostic.Repeats

/-!
# Flushing

What comes out of a queue is what it keeps, listed by position, and then the number of the errors
that it turned away.  What stays behind is a new queue: nothing that is done afterwards can tell it
from a fork.

* `Listed`: the order in which diagnostics are shown; `listed_mergeSort`: sorting brings them into
  it;
* `kept_addAll_of_fits`: a new queue keeps all that fits into it;
* `Family.step_flush`: a flush leaves a fork in the place of the queue;
* `Reachable.flush_outcome`: all of this for every queue.
-/

namespace WireTypes

namespace Queue

/-! ## The listing -/

/-- The same diagnostics by position, those at one position in the order in
which they were reported. -/
structure Listed (shown kept : List Diagnostic) : Prop where
  perm : shown.Perm kept
  ordered : shown.Pairwise fun a b => a.position ≤ b.position
  stable : ∀ p : UInt32, (shown.filter fun d => d.position = p) =
    kept.filter fun d => d.position = p

/-- The diagnostic says that `n` errors beyond the limit are not shown. -/
structure Announces (d : Diagnostic) (limit n : Nat) : Prop where
  code : d.code = .tooManyErrors
  isError : d.isError = true
  message : d.message = s!"aborting after {limit} errors"
  number : s!"{n} further error(s) were not shown" ∈ d.notes

theorem announces_tooManyErrors (limit n : Nat) : Announces (tooManyErrors limit n) limit n :=
  ⟨rfl, rfl, rfl, List.mem_cons_self⟩

theorem position_trans (a b c : Diagnostic) (hab : decide (a.position ≤ b.position) = true)
    (hbc : decide (b.position ≤ c.position) = true) : decide (a.position ≤ c.position) = true := by
  rw [decide_eq_true_eq] at hab hbc ⊢
  exact UInt32.le_trans hab hbc

theorem position_total (a b : Diagnostic) :
    (decide (a.position ≤ b.position) || decide (b.position ≤ a.position)) = true := by
  simpa using UInt32.le_total a.position b.position

theorem listed_mergeSort (ds : List Diagnostic) :
    Listed (ds.mergeSort fun a b => a.position ≤ b.position) ds where
  perm := List.mergeSort_perm ds _
  ordered :=
    (List.pairwise_mergeSort position_trans position_total ds).imp fun h => of_decide_eq_true h
  stable p := by
    -- what stands at one position is in order already, and sorting keeps what is in order as a
    -- sublist
    have hsub : (ds.filter fun d => d.position = p).Sublist
        (ds.mergeSort fun a b => a.position ≤ b.position) := by
      refine List.sublist_mergeSort position_trans position_total ?_ List.filter_sublist
      refine List.pairwise_of_forall_mem_list fun a ha b hb => ?_
      have ha : a.position = p := of_decide_eq_true (List.mem_filter.mp ha).2
      have hb : b.position = p := of_decide_eq_true (List.mem_filter.mp hb).2
      rw [decide_eq_true_eq, ha, hb]
      exact UInt32.le_refl p
    have hfilter := hsub.filter fun d => decide (d.position = p)
    rw [List.filter_filter] at hfilter
    simp only [Bool.and_self] at hfilter
    exact (hfilter.eq_of_length ((List.mergeSort_perm ds _).filter _).length_eq.symm).symm

/-! ## A new queue -/

/-- A new queue accepts whatever comes first. -/
theorem accepts_ofConfig (config : QueueConfig) (d : Diagnostic) :
    (ofConfig config).accepts d = true := by
  refine accepts_iff.mpr ⟨fun _ => ?_, fun _ => List.not_mem_nil⟩
  rw [Bool.eq_false_iff, ne_eq, limitReached_iff]
  rintro ⟨hpos, hfull⟩
  exact Nat.lt_irrefl 0 (Nat.lt_of_lt_of_le hpos hfull)

/-- Without repetitions, and with no more errors than the limit allows, everything is kept. -/
theorem kept_addAll_of_fits (config : QueueConfig) {ds : List Diagnostic}
    (hnodup : config.deduplicate = true → ds.Nodup)
    (hfits : 0 < config.errorLimit → Diagnostic.errorCount ds ≤ config.errorLimit) :
    ((ofConfig config).addAll ds).kept = ds := by
  induction ds using List.reverseRecOn with
  | nil => rfl
  | append_singleton ds d ih =>
    have hcount : Diagnostic.errorCount (ds ++ [d]) = Diagnostic.errorCount ds +
      if d.isError then 1 else 0 := by
      simp [Diagnostic.errorCount, List.countP_singleton]
    have hkept := ih (fun hdup => (List.nodup_append.mp (hnodup hdup)).1) fun hpos => by
      have := hfits hpos
      omega
    have hconfig : ((ofConfig config).addAll ds).config = config := (grows_addAll ds _).config
    have haccepts : ((ofConfig config).addAll ds).accepts d = true := by
      refine accepts_iff.mpr ⟨fun he => ?_, fun hdup => ?_⟩
      · rw [Bool.eq_false_iff, ne_eq, limitReached_iff,
          ((counted_ofConfig config).addAll ds).errors, hkept, hconfig]
        rintro ⟨hpos, hfull⟩
        have hroom := hfits hpos
        rw [hcount, if_pos he] at hroom
        omega
      · rw [hkept]
        rw [hconfig] at hdup
        exact fun hmem => (List.nodup_append.mp (hnodup hdup)).2.2 d hmem d
          (List.mem_singleton_self d) rfl
    rw [addAll_concat]
    rcases add_cases ((ofConfig config).addAll ds) d with ⟨he, hl, -⟩ | ⟨hdup, hmem, -⟩ | ⟨-, h⟩
    · rw [(accepts_iff.mp haccepts).1 he] at hl
      cases hl
    · exact absurd hmem ((accepts_iff.mp haccepts).2 hdup)
    · rw [h]
      show ((ofConfig config).addAll ds).kept ++ [d] = ds ++ [d]
      rw [hkept]

/-- Nothing is left that a later report could be compared with. -/
theorem clear_eq_fork (q : Queue) : q.clear = q.fork := rfl

structure View where
  kept : List Diagnostic
  errors : Nat
  warnings : Nat
  limitReached : Bool
  hasErrors : Bool

def view (q : Queue) : View := ⟨q.kept, q.errors, q.warnings, q.limitReached, q.hasErrors⟩

end Queue

/-! ## Operations behind a flush -/

/-- What an operation answers. -/
inductive QueueReply where
  /-- whether the report is kept -/
  | reported (accepted : Bool)
  | guaranteed
  /-- the diagnostics that were taken out -/
  | taken (ds : List Diagnostic)
  | done

namespace Family

/-- The answer of one operation, if there is a queue at its position. -/
def reply (ws : Family) : QueueOp → Option QueueReply
  | .add i d => ws[i]?.map fun w => .reported (w.queue.accepts d)
  | .emitError i _ => ws[i]?.map fun _ => .guaranteed
  | .fork i => ws[i]?.map fun _ => .done
  | .append i _ => ws[i]?.map fun _ => .done
  | .flush i => ws[i]?.map fun w => .taken w.queue.flush.1

/-- The answers of operations, each with what there is to be seen of all queues behind it. -/
def session (ws : Family) : List QueueOp → List (Option QueueReply × List Queue.View)
  | [] => []
  | op :: ops => (ws.reply op, (ws.step op).map (·.queue.view)) :: session (ws.step op) ops

theorem step_flush {ws : Family} {i : Nat} {w : Watched} (hi : ws[i]? = some w) :
    ws.step (.flush i) = ws.set i ⟨w.queue.fork, 0⟩ := by
  show ws.modify i Watched.flush = _
  rw [List.modify_eq_set_getElem?, hi]
  show ws.set i ⟨w.queue.clear, 0⟩ = _
  rw [Queue.clear_eq_fork]

end Family

namespace Queue

/-- **Flushing.**  What comes out is what the queue keeps, by position and in a stable order; one
more diagnostic stands behind it if errors were dropped, and gives the limit and their number, which
is that of the errors turned away.  Afterwards all operations, on the queue and on all others that
it is joined with, answer as they would if it were a fork of what it was: it accepts what has come
out, and keeps all that it kept when it is reported again, in any order. -/
theorem Reachable.flush_outcome {q : Queue} (hq : q.Reachable) :
    (∃ shown last, q.flush.1 = shown ++ last ∧ Listed shown q.kept ∧
      (q.dropped = 0 ∧ last = [] ∨ 0 < q.dropped ∧ ∃ d, last = [d] ∧
        Announces d q.config.errorLimit q.dropped)) ∧
    (∃ reported turned, q.Account reported turned) ∧
    (∀ reported turned, q.Account reported turned → q.dropped = turned.length) ∧
    (∀ (ws : Family) (i n : Nat), ws[i]? = some ⟨q, n⟩ → ∀ ops : List QueueOp,
      (ws.step (.flush i)).session ops = Family.session (ws.set i ⟨q.fork, 0⟩) ops) ∧
    (∀ d ∈ q.flush.1, q.flush.2.accepts d = true) ∧
    (∀ ds : List Diagnostic, ds.Perm q.kept → (q.flush.2.addAll ds).kept = ds) := by
  refine ⟨⟨_, _, rfl, listed_mergeSort q.kept, ?_⟩, hq.account,
    fun _ _ h => h.dropped_eq, ?_, ?_, ?_⟩
  · rcases Nat.eq_zero_or_pos q.dropped with hnone | hsome
    · exact .inl ⟨hnone, if_neg (by omega)⟩
    · exact .inr ⟨hsome, _, if_pos hsome, announces_tooManyErrors q.config.errorLimit q.dropped⟩
  · intro ws i n hi ops
    rw [Family.step_flush hi]
  · intro d _
    exact accepts_ofConfig q.config d
  · intro ds hperm
    refine kept_addAll_of_fits q.config (fun hdup => ?_) fun hpos => ?_
    · exact hperm.nodup_iff.mpr (hq.nodup hdup)
    · have hbound := hq.bounded hpos
      rw [hq.counted.errors] at hbound
      unfold Diagnostic.errorCount at hbound ⊢
      rw [hperm.countP_eq]
      exact hbound

/-- Two reports at one position, one without a place at fault, and an error too many. -/
theorem flush_outcome_mixed :
    let late := (Diagnostic.error .misalignedHeader "late").label ⟨50, 51⟩ "here"
    let first := (Diagnostic.error .misalignedHeader "first").label ⟨10, 11⟩ "here"
    let second := (Diagnostic.warning .widthOfUnsized "second").label ⟨10, 12⟩ "here"
    let nowhere := (Diagnostic.warning .widthOfUnsized "nowhere").context ⟨70, 71⟩ "around"
    let q :=
      ((((((ofConfig ⟨2, true⟩).add late).add first).add second).add nowhere).add
        (.error .unknownType "more"))
    q.Reachable ∧ ∃ shown d, q.flush.1 = shown ++ [d] ∧ shown.Perm [late, first, second, nowhere] ∧
      (shown.filter fun d => d.position = 10) = [first, second] ∧ Announces d 2 1 ∧
      (q.flush.2.addAll [nowhere, second, first, late]).kept = [nowhere, second, first, late] := by
  intro late first second nowhere q
  have hq : q.Reachable :=
    .add (.add (.add (.add (.add (.ofConfig ⟨2, true⟩) late) first) second) nowhere) _
  have hkept : q.kept = [late, first, second, nowhere] := by decide +kernel
  have hdropped : q.dropped = 1 := by decide +kernel
  obtain ⟨⟨shown, last, hflush, hlisted, hlast⟩, -, -, -, -, hagain⟩ := hq.flush_outcome
  rw [hdropped] at hlast
  rcases hlast with ⟨hnone, -⟩ | ⟨-, d, rfl, hd⟩
  · cases hnone
  · refine ⟨hq, shown, d, hflush, hkept ▸ hlisted.perm, ?_, hd, hagain _ (hkept ▸ ?_)⟩
    · rw [hlisted.stable, hkept]
      decide +kernel
    · exact List.reverse_perm [late, first, second, nowhere]

end Queue

end WireTypes
