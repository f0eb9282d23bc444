import WireTypes.Proofs.Diagnostic.Funnel

/-!
# Where the limit cuts off

A queue compared with the same queue without a limit.

* `unbounded_funnel`: a queue that dropped nothing is the queue without a limit;
* `kept_addAll_cutoff`: of errors alone, the limit keeps the first ones that the queue without a
  limit keeps;
* `kept_funnel_cutoff`, `dropped_funnel_pos`: the same of forks that are joined, where each has the
  limit too, and something is dropped if anything is missing.
-/

namespace WireTypes

namespace Queue

/-- The queue as it would be without a limit from now on. -/
def unbounded (q : Queue) : Queue := { q with config := { q.config with errorLimit := 0 } }

theorem limitReached_of_limit_eq_zero {q : Queue} (h : q.config.errorLimit = 0) :
    q.limitReached = false := by
  simp [limitReached, h]

theorem accepts_unbounded_of_accepts {q : Queue} {d : Diagnostic} (h : q.accepts d = true) :
    q.unbounded.accepts d = true := by
  rw [accepts_iff] at h ⊢
  exact ⟨fun _ => limitReached_of_limit_eq_zero rfl, h.2⟩

theorem add_of_accepts {q : Queue} {d : Diagnostic} (h : q.accepts d = true) :
    q.add d = q.keep d := by
  obtain ⟨hroom, hnew⟩ := accepts_iff.mp h
  rcases add_cases q d with ⟨he, hl, -⟩ | ⟨hdup, hmem, -⟩ | ⟨-, hk⟩
  · rw [hroom he] at hl
    cases hl
  · exact absurd hmem (hnew hdup)
  · exact hk

theorem add_of_mem {q : Queue} {d : Diagnostic} (hlimit : q.config.errorLimit = 0)
    (hdup : q.config.deduplicate = true) (hmem : d ∈ q.kept) : q.add d = q := by
  rcases add_cases q d with ⟨-, hl, -⟩ | ⟨-, -, h⟩ | ⟨ha, -⟩
  · rw [limitReached_of_limit_eq_zero hlimit] at hl
    cases hl
  · exact h
  · exact absurd hmem ((accepts_iff.mp ha).2 hdup)

/-! ## Nothing dropped -/

theorem unbounded_add {q : Queue} {d : Diagnostic} (h : (q.add d).dropped = q.dropped) :
    (q.add d).unbounded = q.unbounded.add d := by
  rcases add_cases q d with ⟨-, -, he⟩ | ⟨hdup, hmem, he⟩ | ⟨ha, he⟩
  · rw [he] at h
    exact absurd h (Nat.succ_ne_self q.dropped)
  · rw [he]
    exact (add_of_mem (q := q.unbounded) rfl hdup hmem).symm
  · rw [he, add_of_accepts (accepts_unbounded_of_accepts ha)]
    rfl

theorem unbounded_addAll (ds : List Diagnostic) : ∀ {q : Queue}, (q.addAll ds).dropped = q.dropped →
    (q.addAll ds).unbounded = q.unbounded.addAll ds := by
  induction ds with
  | nil => intro q _; rfl
  | cons d ds ih =>
    intro q h
    rw [addAll_cons] at h ⊢
    have hfirst := (grows_add q d).dropped
    have hrest := (grows_addAll ds (q.add d)).dropped
    rw [ih (by omega), unbounded_add (by omega), addAll_cons]

theorem dropped_le_append (q other : Queue) :
    q.dropped + other.dropped ≤ (q.append other).dropped :=
  (grows_addAll other.kept { q with dropped := q.dropped + other.dropped }).dropped

theorem unbounded_append {q other : Queue} (h : (q.append other).dropped = 0) :
    (q.append other).unbounded = q.unbounded.append other.unbounded := by
  have hnone := dropped_le_append q other
  unfold append at h hnone ⊢
  rw [unbounded_addAll]
  · rfl
  · show _ = q.dropped + other.dropped
    omega

theorem unbounded_foldl_append {p : Queue} (parts : List (List Diagnostic)) :
    ∀ {q : Queue}, ((parts.map p.worker).foldl append q).dropped = 0 →
      q.dropped = 0 ∧ ((parts.map p.worker).foldl append q).unbounded =
        (parts.map p.unbounded.worker).foldl append q.unbounded := by
  induction parts with
  | nil => intro q h; exact ⟨h, rfl⟩
  | cons ds parts ih =>
    intro q h
    obtain ⟨hfirst, hrest⟩ := ih h
    have hle := dropped_le_append q (p.worker ds)
    have hworker : (p.worker ds).dropped = 0 := by omega
    have hsame : (p.worker ds).unbounded = p.unbounded.worker ds :=
      unbounded_addAll ds (q := p.fork) hworker
    refine ⟨by omega, ?_⟩
    rw [List.map_cons, List.foldl_cons, hrest, unbounded_append hfirst, hsame]
    rfl

/-- A queue that dropped nothing, like all the forks joined to it, is the queue without a limit. -/
theorem unbounded_funnel {q : Queue} {parts : List (List Diagnostic)}
    (h : (q.funnel parts).dropped = 0) :
    (q.funnel parts).unbounded = q.unbounded.funnel parts := (unbounded_foldl_append parts h).2

/-! ## The first errors -/

theorem mem_of_mem_kept_addAll {ds : List Diagnostic} :
    ∀ {q : Queue} {d : Diagnostic}, d ∈ (q.addAll ds).kept →
    d ∈ q.kept ∨ d ∈ ds := by
  induction ds with
  | nil => intro q d h; exact .inl h
  | cons e ds ih =>
    intro q d h
    rcases ih (q := q.add e) h with h | h
    · rcases add_cases q e with ⟨-, -, he⟩ | ⟨-, -, he⟩ | ⟨-, he⟩
      · rw [he] at h
        exact .inl h
      · rw [he] at h
        exact .inl h
      · rw [he] at h
        have h : d ∈ q.kept ++ [e] := h
        rcases List.mem_append.mp h with h | h
        · exact .inl h
        · exact .inr (List.mem_cons.mpr (.inl (List.mem_singleton.mp h)))
    · exact .inr (List.mem_cons_of_mem e h)

/-- With room, a queue keeps a report unless it repeats one. -/
theorem kept_add_of_room {q : Queue} (hroom : q.limitReached = false) (d : Diagnostic) :
    (q.add d).kept = if q.config.deduplicate = true ∧ d ∈ q.kept then q.kept
    else q.kept ++ [d] := by
  rcases add_cases q d with ⟨-, hl, -⟩ | ⟨hdup, hmem, h⟩ | ⟨ha, h⟩
  · rw [hroom] at hl
    cases hl
  · rw [h, if_pos ⟨hdup, hmem⟩]
  · have hnew : ¬ (q.config.deduplicate = true ∧ d ∈ q.kept) :=
      fun hn => (accepts_iff.mp ha).2 hn.1 hn.2
    rw [h, if_neg hnew]
    rfl

theorem kept_add_of_full {q : Queue} (hl : q.limitReached = true) {d : Diagnostic}
    (he : d.isError = true) : (q.add d).kept = q.kept := by
  have ha : q.accepts d = false := by simp [accepts, exceeds, he, hl]
  exact (agree_add_of_not_accepts ha).kept

/-- Where all that is kept is errors, the limit is on the length. -/
theorem limitReached_of_errors {q : Queue} (hq : q.Counted)
    (herrors : ∀ d ∈ q.kept, d.isError = true) (hpos : 0 < q.config.errorLimit) :
    q.limitReached = decide (q.config.errorLimit ≤ q.kept.length) := by
  have hlength : q.errors = q.kept.length := by
    rw [hq.errors, Diagnostic.errorCount, List.countP_eq_length]
    exact herrors
  unfold limitReached
  rw [hlength, decide_eq_true hpos, Bool.true_and]

/-- Of errors alone, the limit keeps the first ones that are kept without it. -/
theorem kept_addAll_cutoff {limit : Nat} (hpos : 0 < limit) (dup : Bool) {ds : List Diagnostic}
    (hds : ∀ d ∈ ds, d.isError = true) :
    ((ofConfig ⟨limit, dup⟩).addAll ds).kept = ((ofConfig ⟨0, dup⟩).addAll ds).kept.take limit := by
  induction ds using List.reverseRecOn with
  | nil => simp [addAll_nil, ofConfig]
  | append_singleton ds d ih =>
    have he : d.isError = true := hds d (List.mem_append_right ds (List.mem_singleton_self d))
    have hkept := ih fun e hmem => hds e (List.mem_append_left [d] hmem)
    have hconfig : ((ofConfig ⟨limit, dup⟩).addAll ds).config = ⟨limit, dup⟩ :=
      (grows_addAll ds _).config
    have hconfig' : ((ofConfig ⟨0, dup⟩).addAll ds).config = ⟨0, dup⟩ := (grows_addAll ds _).config
    have herrors : ∀ e ∈ ((ofConfig ⟨limit, dup⟩).addAll ds).kept, e.isError = true := by
      intro e hmem
      rcases mem_of_mem_kept_addAll hmem with hmem | hmem
      · cases hmem
      · exact hds e (List.mem_append_left [d] hmem)
    have hlimit :=
      limitReached_of_errors ((counted_ofConfig ⟨limit, dup⟩).addAll ds) herrors (by rwa [hconfig])
    have hroom' :=
      limitReached_of_limit_eq_zero (q := (ofConfig ⟨0, dup⟩).addAll ds) (by rw [hconfig'])
    have hstep' := kept_add_of_room hroom' d
    rw [addAll_concat, addAll_concat, hstep', hconfig']
    have hlimit : ((ofConfig ⟨limit, dup⟩).addAll ds).limitReached =
        decide (limit ≤ min limit ((ofConfig ⟨0, dup⟩).addAll ds).kept.length) := by
      rw [hlimit, hconfig, hkept, List.length_take]
    generalize ((ofConfig ⟨0, dup⟩).addAll ds).kept = shown at hkept hlimit ⊢
    rcases Nat.lt_or_ge shown.length limit with hlt | hge
    · -- nothing was cut off so far, and one more report still fits
      have hsame : shown.take limit = shown := List.take_of_length_le (Nat.le_of_lt hlt)
      rw [kept_add_of_room (by rw [hlimit, decide_eq_false_iff_not]; omega) d,
        hconfig, hkept, hsame]
      refine (List.take_of_length_le ?_).symm
      split
      · exact Nat.le_of_lt hlt
      · rw [List.length_append]
        exact hlt
    · rw [kept_add_of_full (by rw [hlimit, decide_eq_true_eq]; omega) he, hkept]
      split
      · rfl
      · rw [List.take_append_of_le_length hge]

/-- The same of forks that are joined: the cut that each of them makes does not show. -/
theorem kept_funnel_cutoff {limit : Nat} (hpos : 0 < limit) (dup : Bool)
    {parts : List (List Diagnostic)} (hparts : ∀ d ∈ parts.flatten, d.isError = true) :
    ((ofConfig ⟨limit, dup⟩).funnel parts).kept =
      ((ofConfig ⟨0, dup⟩).funnel parts).kept.take limit := by
  rw [(agree_funnel (counted_ofConfig _) parts).kept,
    (agree_funnel (counted_ofConfig _) parts).kept]
  exact kept_addAll_cutoff hpos dup hparts

/-- Where something is cut off, errors were dropped, by a fork or when it was joined. -/
theorem dropped_funnel_pos {limit : Nat} (hpos : 0 < limit) (dup : Bool)
    {parts : List (List Diagnostic)} (hparts : ∀ d ∈ parts.flatten, d.isError = true)
    (hlong : limit < ((ofConfig ⟨0, dup⟩).funnel parts).kept.length) :
    0 < ((ofConfig ⟨limit, dup⟩).funnel parts).dropped := by
  by_contra hnone
  -- with nothing dropped the queue is the one without a limit, so nothing is cut off either
  have hunbounded := unbounded_funnel (Nat.eq_zero_of_not_pos hnone)
  have hkept : ((ofConfig ⟨limit, dup⟩).funnel parts).kept =
      ((ofConfig ⟨0, dup⟩).funnel parts).kept :=
    congrArg (fun q => q.kept) hunbounded
  rw [kept_funnel_cutoff hpos dup hparts] at hkept
  have hlength := congrArg List.length hkept
  rw [List.length_take] at hlength
  omega

end Queue

end WireTypes
