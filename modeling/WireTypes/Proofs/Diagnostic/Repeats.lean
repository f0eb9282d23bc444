import WireTypes.Proofs.Diagnostic.Limit

/-!
# Repetitions and dropped errors

What comes of every single report.  Beside a queue, `Account` keeps the list of what was reported to
it and the list of the errors that it turned away because its limit was reached.  Those are the
errors that it counts as dropped, and a report has at most one of three fates: it is kept, or turned
away, or forgotten because something equal was kept (`Fates`).

Since the limit is looked at before the repetitions, an error that is shown is turned away when it
is reported again to a full queue, and counted among those that are not shown
(`Reachable.repeat_outcome`, `not_idle_full`).
-/

namespace WireTypes

namespace Queue

/-! ## Turning away -/

/-- What a report leaves behind if it is an error beyond the limit. -/
def turned (q : Queue) (d : Diagnostic) : List Diagnostic := if q.exceeds d then [d] else []

/-- The errors of a list that find the queue full, each when its turn comes. -/
def turnedAway (q : Queue) : List Diagnostic → List Diagnostic
  | [] => []
  | d :: ds => q.turned d ++ (q.add d).turnedAway ds

theorem exceeds_iff {q : Queue} {d : Diagnostic} :
    q.exceeds d = true ↔ d.isError = true ∧ q.limitReached = true := by
  simp [exceeds]

theorem isError_of_mem_turned {q : Queue} {d e : Diagnostic} (h : e ∈ q.turned d) :
    e.isError = true := by
  unfold turned at h
  split at h
  next hx =>
    obtain rfl := List.mem_singleton.mp h
    exact (exceeds_iff.mp hx).1
  next => cases h

theorem isError_of_mem_turnedAway {ds : List Diagnostic} :
    ∀ {q : Queue} {d : Diagnostic}, d ∈ q.turnedAway ds →
    d.isError = true := by
  induction ds with
  | nil => intro q d h; cases h
  | cons e ds ih =>
    intro q d h
    rcases List.mem_append.mp h with h | h
    · exact isError_of_mem_turned h
    · exact ih h

theorem dropped_add (q : Queue) (d : Diagnostic) :
    (q.add d).dropped = q.dropped + (q.turned d).length := by
  unfold add turned
  split
  · rfl
  · split
    · rfl
    · rfl

theorem dropped_addAll (ds : List Diagnostic) : ∀ q : Queue,
    (q.addAll ds).dropped = q.dropped + (q.turnedAway ds).length := by
  induction ds with
  | nil => intro q; rfl
  | cons d ds ih =>
    intro q
    rw [addAll_cons, ih, dropped_add, turnedAway, List.length_append, Nat.add_assoc]

/-! ## Fates -/

/-- What came of reports, when `before` was kept before them and `after` is kept now. -/
structure Fates (before after reported turned : List Diagnostic) : Prop where
  /-- No report is both kept and turned away. -/
  once : ∀ d, after.count d + turned.count d ≤ before.count d + reported.count d
  /-- What is not kept was turned away, if nothing equal to it is kept. -/
  all : ∀ d ∈ reported, d ∈ after ∨ d ∈ turned

theorem Fates.nil (kept : List Diagnostic) : Fates kept kept [] [] :=
  ⟨fun _ => Nat.le_refl _, List.forall_mem_nil _⟩

theorem Fates.trans {before kept after ds es ts us : List Diagnostic} (h : Fates before kept ds ts)
    (h' : Fates kept after es us) (hkept : kept ⊆ after) :
    Fates before after (ds ++ es) (ts ++ us) where
  once d := by
    have hfirst := h.once d
    have hrest := h'.once d
    rw [List.count_append, List.count_append]
    omega
  all := List.forall_mem_append.mpr
    ⟨fun d hd => (h.all d hd).imp (hkept ·) (List.mem_append_left us),
      fun d hd => (h'.all d hd).imp_right (List.mem_append_right ts)⟩

/-- Two queues are joined by reporting to one of them what the other one kept. -/
theorem Fates.join {kept kept' after ds ds' ts ts' us : List Diagnostic} (h : Fates [] kept ds ts)
    (h' : Fates [] kept' ds' ts') (hjoin : Fates kept after kept' us) (hkept : kept ⊆ after) :
    Fates [] after (ds ++ ds') (ts ++ ts' ++ us) where
  once d := by
    have hleft := h.once d
    have hright := h'.once d
    have hboth := hjoin.once d
    simp only [List.count_append, List.count_nil] at hleft hright ⊢
    omega
  all := by
    refine List.forall_mem_append.mpr ⟨fun d hd => ?_, fun d hd => ?_⟩
    · rcases h.all d hd with hmem | hmem
      · exact .inl (hkept hmem)
      · exact .inr (List.mem_append_left us (List.mem_append_left ts' hmem))
    · rcases h'.all d hd with hmem | hmem
      · exact (hjoin.all d hmem).imp_right (List.mem_append_right (ts ++ ts'))
      · exact .inr (List.mem_append_left us (List.mem_append_right ts hmem))

theorem fates_add (q : Queue) (d : Diagnostic) : Fates q.kept (q.add d).kept [d] (q.turned d) := by
  unfold add turned
  by_cases hx : q.exceeds d = true
  · -- the limit comes first: even what is kept already is turned away here
    rw [if_pos hx, if_pos hx]
    exact ⟨fun e => Nat.le_refl _, fun e he => .inr he⟩
  · rw [if_neg hx, if_neg hx]
    split
    next hr =>
      have hmem : d ∈ q.kept := by
        have h : q.config.deduplicate = true ∧ d ∈ q.kept := by simpa [repeats] using hr
        exact h.2
      refine ⟨fun e => Nat.le_add_right _ _, fun e he => .inl ?_⟩
      obtain rfl := List.mem_singleton.mp he
      exact hmem
    next =>
      have hcount : ∀ e, (q.kept ++ [d]).count e + 0 = q.kept.count e + [d].count e :=
        fun e => List.count_append
      exact ⟨fun e => Nat.le_of_eq (hcount e), fun e he => .inl (List.mem_append_right q.kept he)⟩

theorem fates_addAll (ds : List Diagnostic) :
    ∀ q : Queue, Fates q.kept (q.addAll ds).kept ds (q.turnedAway ds) := by
  induction ds with
  | nil => intro q; exact .nil q.kept
  | cons d ds ih =>
    intro q
    exact (fates_add q d).trans (ih (q.add d)) (grows_addAll ds (q.add d)).kept.subset

/-! ## Accounts -/

/-- A queue with all that was reported to it since it was last flushed, by itself or through queues
that were joined to it, and with those of the reports that were turned away. -/
inductive Account : Queue → List Diagnostic → List Diagnostic → Prop
  | ofConfig (config : QueueConfig) : Account (.ofConfig config) [] []
  | add {q : Queue} {reported turned : List Diagnostic} (h : Account q reported turned)
      (d : Diagnostic) :
      Account (q.add d) (reported ++ [d]) (turned ++ q.turned d)
  | fork {q : Queue} {reported turned : List Diagnostic} (h : Account q reported turned) :
      Account q.fork [] []
  | append {q other : Queue} {reported turned reported' turned' : List Diagnostic}
      (h : Account q reported turned) (ho : Account other reported' turned') :
      Account (q.append other) (reported ++ reported') (turned ++ turned' ++
        q.turnedAway other.kept)
  | flush {q : Queue} {reported turned : List Diagnostic} (h : Account q reported turned) :
      Account q.flush.2 [] []

theorem Reachable.account {q : Queue} (h : q.Reachable) :
    ∃ reported turned, q.Account reported turned := by
  induction h with
  | ofConfig config => exact ⟨[], [], .ofConfig config⟩
  | add _ d ih =>
    obtain ⟨reported, turned, h⟩ := ih
    exact ⟨_, _, h.add d⟩
  | fork _ ih =>
    obtain ⟨reported, turned, h⟩ := ih
    exact ⟨_, _, h.fork⟩
  | append _ _ ih iho =>
    obtain ⟨reported, turned, h⟩ := ih
    obtain ⟨reported', turned', ho⟩ := iho
    exact ⟨_, _, h.append ho⟩
  | flush _ ih =>
    obtain ⟨reported, turned, h⟩ := ih
    exact ⟨_, _, h.flush⟩

/-- Joining, but for the count of dropped errors, is reporting what the other queue kept. -/
theorem kept_append (q other : Queue) : (q.append other).kept = (q.addAll other.kept).kept :=
  (agree_append q other).kept

theorem Agree.turnedAway (ds : List Diagnostic) :
    ∀ {q r : Queue}, q.Agree r → q.turnedAway ds = r.turnedAway ds := by
  induction ds with
  | nil => intro q r _; rfl
  | cons d ds ih =>
    intro q r h
    unfold Queue.turnedAway turned
    rw [h.exceeds d, ih (h.add d)]

theorem dropped_append (q other : Queue) :
    (q.append other).dropped = q.dropped + other.dropped + (q.turnedAway other.kept).length := by
  have hagree : Agree { q with dropped := q.dropped + other.dropped } q := ⟨rfl, rfl, rfl, rfl⟩
  unfold append
  rw [dropped_addAll, hagree.turnedAway]

/-- The number of dropped errors is that of the reports turned away. -/
theorem Account.dropped_eq {q : Queue} {reported turned : List Diagnostic}
    (h : q.Account reported turned) : q.dropped = turned.length := by
  induction h with
  | ofConfig | fork | flush => rfl
  | add _ d ih => rw [dropped_add, List.length_append, ih]
  | append _ _ ih iho => rw [dropped_append, List.length_append, List.length_append, ih, iho]

theorem Account.isError {q : Queue} {reported turned : List Diagnostic}
    (h : q.Account reported turned) : ∀ d ∈ turned, d.isError = true := by
  induction h with
  | ofConfig | fork | flush => exact List.forall_mem_nil _
  | add _ d ih => exact List.forall_mem_append.mpr ⟨ih, fun e he => isError_of_mem_turned he⟩
  | append _ _ ih iho =>
    exact List.forall_mem_append.mpr
      ⟨List.forall_mem_append.mpr ⟨ih, iho⟩, fun e he => isError_of_mem_turnedAway he⟩

theorem Account.fates {q : Queue} {reported turned : List Diagnostic}
    (h : q.Account reported turned) : Fates [] q.kept reported turned := by
  induction h with
  | ofConfig | fork | flush => exact .nil []
  | @add q _ _ _ d ih => exact ih.trans (fates_add q d) (grows_add q d).kept.subset
  | @append q other _ _ _ _ _ _ ih iho =>
    rw [kept_append]
    exact ih.join iho (fates_addAll other.kept q) (grows_addAll other.kept q).kept.subset

/-! ## Repetitions -/

/-- All that a repetition can do is to be counted. -/
theorem add_of_repeated {q : Queue} (hdup : q.config.deduplicate = true) {d : Diagnostic}
    (hd : d ∈ q.kept) :
    q.accepts d = false ∧
      q.add d = { q with dropped := q.dropped + if d.isError && q.limitReached then 1 else 0 } := by
  have hr : q.repeats d = true := by simp [repeats, hdup, hd]
  refine ⟨by simp [accepts, hr], ?_⟩
  unfold add
  cases hx : q.exceeds d with
  | true =>
    unfold exceeds at hx
    rw [hx]
    rfl
  | false =>
    unfold exceeds at hx
    rw [hx, hr]
    rfl

/-- Where nothing that is shown was reported twice, nothing that is shown was turned away. -/
theorem Fates.disjoint {kept reported turned : List Diagnostic} (h : Fates [] kept reported turned)
    (honce : ∀ d ∈ kept, d.isError = true → reported.count d = 1)
    (herror : ∀ d ∈ turned, d.isError = true) : ∀ d ∈ turned, d ∉ kept := by
  intro d hturned hkept
  have hcount := h.once d
  rw [honce d hkept (herror d hturned), List.count_nil] at hcount
  have hpos := List.count_pos_iff.mpr hturned
  have hpos' := List.count_pos_iff.mpr hkept
  omega

/-- The listing ends with the number of the errors turned away. -/
theorem Account.flush_eq {q : Queue} {reported turned : List Diagnostic}
    (h : q.Account reported turned) :
    ∃ shown, shown.Perm q.kept ∧ q.flush.1 = shown ++
      if turned = [] then [] else [tooManyErrors q.config.errorLimit turned.length] := by
  refine ⟨q.kept.mergeSort fun a b => a.position ≤ b.position, List.mergeSort_perm q.kept _, ?_⟩
  show q.listing = _
  unfold listing
  rw [h.dropped_eq]
  cases turned with
  | nil => rfl
  | cons d ds => rfl

/-- **Repetitions and the errors not shown.**  A repetition is refused, and changes nothing unless
it is an error and the queue is full: then it is counted as dropped.  The number in the listing is
that of the errors turned away, every report being kept, turned away, or forgotten.  If none of the
errors that are shown was reported twice, they are not among these, and the listing says that errors
are missing exactly if some are. -/
theorem Reachable.repeat_outcome {q : Queue} (hq : q.Reachable)
    (hdup : q.config.deduplicate = true) :
    (∀ d ∈ q.kept, q.accepts d = false ∧
      q.add d = { q with dropped := q.dropped + if d.isError && q.limitReached then 1 else 0 }) ∧
    (∃ reported turned, q.Account reported turned) ∧
    ∀ reported turned, q.Account reported turned →
      (∃ shown, shown.Perm q.kept ∧ q.flush.1 = shown ++
        if turned = [] then [] else [tooManyErrors q.config.errorLimit turned.length]) ∧
      (∀ d ∈ turned, d.isError = true) ∧
      (∀ d, q.kept.count d + turned.count d ≤ reported.count d) ∧
      (∀ d ∈ reported, d ∈ q.kept ∨ d ∈ turned) ∧
      ((∀ d ∈ q.kept, d.isError = true → reported.count d = 1) →
        (∀ d ∈ turned, d ∉ q.kept) ∧ (turned ≠ [] ↔ ∃ d ∈ reported, d ∉ q.kept)) := by
  refine ⟨fun d hd => add_of_repeated hdup hd, hq.account, fun reported turned h => ?_⟩
  have hfates := h.fates
  have hturned : ∀ d ∈ turned, d ∈ reported := by
    intro d hd
    have hcount := hfates.once d
    rw [List.count_nil] at hcount
    have hpos := List.count_pos_iff.mpr hd
    exact List.count_pos_iff.mp (by omega)
  refine ⟨h.flush_eq, h.isError, fun d => ?_, hfates.all, fun honce => ?_⟩
  · have hcount := hfates.once d
    rwa [List.count_nil, Nat.zero_add] at hcount
  · have hdisjoint := hfates.disjoint honce h.isError
    refine ⟨hdisjoint, fun hne => ?_, ?_⟩
    · obtain ⟨d, hd⟩ := List.exists_mem_of_ne_nil turned hne
      exact ⟨d, hturned d hd, hdisjoint d hd⟩
    · rintro ⟨d, hd, hmissing⟩ rfl
      rcases hfates.all d hd with hmem | hmem
      · exact hmissing hmem
      · cases hmem

/-- One error is kept and another one turned away; then the kept one is reported again. -/
theorem repeat_outcome_full :
    let a := Diagnostic.error .unknownType "a"
    let b := Diagnostic.error .unknownType "b"
    let q := ((ofConfig ⟨1, true⟩).add a).add b
    q.Reachable ∧ a ∈ q.kept ∧ q.add a = { q with dropped := 2 } ∧
      (∃ shown, shown.Perm [a] ∧ q.flush.1 = shown ++ [tooManyErrors 1 1]) ∧ b ∉ q.kept := by
  intro a b q
  have hq : q.Reachable := ((Reachable.ofConfig ⟨1, true⟩).add a).add b
  have ha : a ∈ q.kept := by decide
  have haccount : q.Account [a, b] [b] := ((Account.ofConfig ⟨1, true⟩).add a).add b
  obtain ⟨hrepeated, -, hall⟩ := hq.repeat_outcome rfl
  obtain ⟨hflush, -, -, -, honce⟩ := hall _ _ haccount
  obtain ⟨hmissing, -⟩ := honce (by decide)
  exact ⟨hq, ha, (hrepeated a ha).2, hflush, hmissing b (List.mem_singleton_self b)⟩

/-- A repetition can leave a trace: the only error is shown, and the listing says
that another one is not. -/
theorem not_idle_full :
    let a := Diagnostic.error .unknownType "a"
    let q := (ofConfig ⟨1, true⟩).add a
    q.Reachable ∧ q.config.deduplicate = true ∧ a ∈ q.kept ∧ q.add a ≠ q ∧
      (q.add a).flush.1 = [a, tooManyErrors 1 1] := by
  intro a q
  refine ⟨(Reachable.ofConfig ⟨1, true⟩).add a, rfl, by decide, fun h => ?_, ?_⟩
  · exact absurd (congrArg Queue.dropped h) (by decide)
  · show (q.add a).kept.mergeSort _ ++ _ = _
    rw [show (q.add a).kept = [a] from rfl, List.mergeSort_singleton]
    rfl

end Queue

end WireTypes
