import WireTypes.Proofs.Lower.Chase

/-!
# Names that lead nowhere

A chain of names can be followed in three ways.  `walk?` takes single steps and never gives up;
`resolve?` takes a bounded number of them; and lowering expands one name inside the other until a
name comes back.  The first two count nodes, the last one remembers names, and one node may carry a
name that another one carries too.  They agree all the same:

* `resolves_iff_walk?`, `Sound.resolve?_eq_none_iff_walk?`: the bound on `resolve?` is never met by
  a chain that ends;
* `Lowers.chase`: lowering follows the chain to its end and goes on from there, or stops at a
  `DeadEnd`;
* `DeadEnd.not_resolves`: a dead end belongs to a chain that leads nowhere;
* `Built.resolve_outcome` puts these together.
-/

namespace WireTypes.TypeTable

/-- Where `k` single steps lead. -/
def walk? (t : TypeTable) : Nat → TypeId → Option TypeId
  | 0, ty => some ty
  | k + 1, ty => (t.step? ty).bind (t.walk? k)

/-- The names `ns` are looked up one after the other on the way from `ty` to `a`. -/
inductive Leads (t : TypeTable) : TypeId → List Name → TypeId → Prop
  | here {a : TypeId} : Leads t a [] a
  | name {ty b a : TypeId} {n : Name} {ns : List Name} (hk : t.kind ty = .named n)
      (hl : t.lookup n = some b) (h : Leads t b ns a) : Leads t ty (n :: ns) a

/-- The first name on the way from `ty` that cannot be expanded inside the names in `path`, and
what is said about it. -/
inductive DeadEnd (t : TypeTable) (path : List Name) (ty : TypeId) : Diagnostic → Prop
  | unknown {ns : List Name} {a : TypeId} {n : Name} (h : t.Leads ty ns a)
      (hnodup : (path ++ ns).Nodup)
      (hk : t.kind a = .named n) (hn : n ∉ path ++ ns) (hl : t.lookup n = none) :
      DeadEnd t path ty (t.unknownType n (t.node a).span)
  | cycle {ns : List Name} {a : TypeId} {n : Name} (h : t.Leads ty ns a)
      (hnodup : (path ++ ns).Nodup) (hk : t.kind a = .named n) (hn : n ∈ path ++ ns) :
      DeadEnd t path ty (t.typeCycle (path ++ ns) n (t.node a).span)

/-! ## Single steps -/

theorem step?_of_not_named {t : TypeTable} {a : TypeId} (hk : ∀ n, t.kind a ≠ .named n) :
    t.step? a = some a := by
  unfold step?
  split
  · next n hn => exact absurd hn (hk n)
  · rfl

theorem Renames.step? {t : TypeTable} {a b : TypeId} (h : t.Renames a b) : t.step? a = some b := by
  obtain ⟨n, hk, hl⟩ := h
  unfold TypeTable.step?
  rw [hk]
  exact hl

theorem walk?_of_not_named {t : TypeTable} {a : TypeId} (hk : ∀ n, t.kind a ≠ .named n) (k : Nat) :
    t.walk? k a = some a := by
  induction k with
  | zero => rfl
  | succ k ih => rw [walk?, step?_of_not_named hk, Option.bind_some, ih]

theorem resolves_of_walk? {t : TypeTable} {k : Nat} : ∀ {ty a : TypeId}, t.walk? k ty = some a →
    (∀ n, t.kind a ≠ .named n) → t.Resolves ty a := by
  induction k with
  | zero =>
    intro ty a h hk
    obtain rfl := Option.some.inj h
    exact .here hk
  | succ k ih =>
    intro ty a h hk
    obtain ⟨b, hb, hwalk⟩ := Option.bind_eq_some_iff.mp h
    unfold TypeTable.step? at hb
    split at hb
    · next n hn => exact .name ⟨n, hn, hb⟩ (ih hwalk hk)
    · obtain rfl := Option.some.inj hb
      exact ih hwalk hk

theorem Resolves.not_named {t : TypeTable} {ty a : TypeId} (h : t.Resolves ty a) :
    ∀ n, t.kind a ≠ .named n := by
  induction h with
  | here hk => exact hk
  | name _ _ ih => exact ih

theorem resolves_iff_walk? {t : TypeTable} {ty a : TypeId} :
    t.Resolves ty a ↔ (∃ k, t.walk? k ty = some a) ∧ ∀ n, t.kind a ≠ .named n := by
  constructor
  · intro h
    refine ⟨?_, h.not_named⟩
    induction h with
    | here hk => exact ⟨0, rfl⟩
    | name hb _ ih =>
      obtain ⟨k, hk⟩ := ih
      exact ⟨k + 1, by rw [walk?, hb.step?, Option.bind_some, hk]⟩
  · rintro ⟨⟨k, h⟩, hk⟩
    exact resolves_of_walk? h hk

/-- Single steps come to an end only at a name that is not declared. -/
theorem exists_unknown_of_walk? {t : TypeTable} {k : Nat} : ∀ {ty : TypeId}, t.walk? k ty = none →
    ∃ j a n, t.walk? j ty = some a ∧ t.kind a = .named n ∧ t.lookup n = none := by
  induction k with
  | zero =>
    intro ty h
    cases h
  | succ k ih =>
    intro ty h
    unfold walk? at h
    cases hstep : t.step? ty with
    | none =>
      unfold TypeTable.step? at hstep
      split at hstep
      · next n hn => exact ⟨0, ty, n, rfl, hn, hstep⟩
      · cases hstep
    | some b =>
      rw [hstep] at h
      obtain ⟨j, a, n, hwalk, hn⟩ := ih h
      exact ⟨j + 1, a, n, by rw [walk?, hstep, Option.bind_some, hwalk], hn⟩

/-- Names that lead to a node meet declared names only. -/
theorem Resolves.isSome_lookup {t : TypeTable} {ty r : TypeId} (h : t.Resolves ty r) :
    ∀ {k : Nat} {a : TypeId} {n : Name}, t.walk? k ty = some a → t.kind a = .named n →
      t.lookup n ≠ none := by
  induction h with
  | here hk =>
    intro k a n hwalk hn
    rw [walk?_of_not_named hk] at hwalk
    obtain rfl := Option.some.inj hwalk
    exact absurd hn (hk n)
  | @name ty b r hb _ ih =>
    intro k a n hwalk hn
    cases k with
    | zero =>
      obtain rfl := Option.some.inj hwalk
      obtain ⟨m, hm, hl⟩ := hb
      cases hm.symm.trans hn
      rw [hl]
      exact Option.some_ne_none b
    | succ k =>
      rw [walk?, hb.step?, Option.bind_some] at hwalk
      exact ih hwalk hn

/-- `resolve?` finds nothing exactly if the chain breaks off or never leaves the names. -/
theorem Sound.resolve?_eq_none_iff_walk? {t : TypeTable} (ht : t.Sound) {ty : TypeId} :
    t.resolve? ty = none ↔
      (∃ k a n, t.walk? k ty = some a ∧ t.kind a = .named n ∧ t.lookup n = none) ∨
      ∀ k, ∃ a n, t.walk? k ty = some a ∧ t.kind a = .named n := by
  rw [ht.resolve?_eq_none_iff]
  constructor
  · intro hnone
    by_cases hnames : ∀ k, ∃ a n, t.walk? k ty = some a ∧ t.kind a = .named n
    · exact .inr hnames
    · left
      obtain ⟨k, hk⟩ := not_forall.mp hnames
      cases hwalk : t.walk? k ty with
      | none => exact exists_unknown_of_walk? hwalk
      | some a => exact absurd (resolves_of_walk? hwalk fun n hn => hk ⟨a, n, hwalk, hn⟩) (hnone a)
  · rintro (⟨k, a, n, hwalk, hn, hl⟩ | hnames) r hr
    · exact hr.isSome_lookup hwalk hn hl
    · obtain ⟨⟨k, hwalk⟩, hk⟩ := resolves_iff_walk?.mp hr
      obtain ⟨a, n, hwalk', hn⟩ := hnames k
      obtain rfl := Option.some.inj (hwalk.symm.trans hwalk')
      exact hk n hn

/-- Beyond one step more than there are nodes, more steps find no more. -/
theorem Sound.chase?_eq_resolve? {t : TypeTable} (ht : t.Sound) {steps : Nat}
    (hsteps : t.size < steps) (ty : TypeId) : t.chase? steps ty = t.resolve? ty := by
  refine Option.ext fun a => ?_
  rw [ht.resolve?_eq_some_iff]
  refine ⟨resolves_of_chase?, fun h => ?_⟩
  exact h.chase?_eq ht [] List.nodup_nil (List.forall_mem_nil _) (by simpa using hsteps)

/-! ## Expanding names -/

theorem Leads.resolves_iff {t : TypeTable} {ty a r : TypeId} {ns : List Name}
    (h : t.Leads ty ns a) : t.Resolves ty r ↔ t.Resolves a r := by
  induction h with
  | here => exact Iff.rfl
  | @name ty b a n ns hk hl _ ih =>
    rw [← ih]
    refine ⟨fun hr => ?_, .name ⟨n, hk, hl⟩⟩
    cases hr with
    | here hne => exact absurd hk (hne n)
    | name hb hr =>
      obtain rfl := hb.unique ⟨n, hk, hl⟩
      exact hr

/-- Names lead on from the declaration of each name that was looked up. -/
theorem Leads.renames {t : TypeTable} {ty a : TypeId} {ns : List Name} (h : t.Leads ty ns a)
    {n : Name} (hn : n ∈ ns) : ∃ b, t.lookup n = some b ∧ Relation.ReflTransGen t.Renames b a := by
  have hall : ∀ {ty a : TypeId} {ns : List Name}, t.Leads ty ns a →
      Relation.ReflTransGen t.Renames ty a := by
    intro ty a ns h
    induction h with
    | here => exact .refl
    | name hk hl _ ih => exact .head ⟨_, hk, hl⟩ ih
  induction h with
  | here => cases hn
  | name hk hl h ih =>
    rcases List.mem_cons.mp hn with rfl | hn
    · exact ⟨_, hl, hall h⟩
    · exact ih hn

theorem DeadEnd.code {t : TypeTable} {path : List Name} {ty : TypeId} {d : Diagnostic}
    (h : t.DeadEnd path ty d) : d.code = .unknownType ∨ d.code = .typeCycle := by
  cases h with
  | unknown => exact .inl rfl
  | cycle => exact .inr rfl

theorem DeadEnd.not_resolves {t : TypeTable} {ty : TypeId} {d : Diagnostic} (h : t.DeadEnd [] ty d)
    (r : TypeId) : ¬ t.Resolves ty r := by
  intro hr
  cases h with
  | unknown h _ hk _ hl => exact (h.resolves_iff.mp hr).isSome_lookup (k := 0) rfl hk hl
  | @cycle ns a n h _ hk hn =>
    -- from the second place of the name its declaration leads back there
    obtain ⟨b, hl, hback⟩ := h.renames hn
    exact (h.resolves_iff.mp hr).not_circular (.head' ⟨n, hk, hl⟩ hback)

/-- Lowering follows a chain of names to its end, and what becomes of the node there becomes of the
whole; or it stops at a name that cannot be expanded. -/
theorem Lowers.chase {t : TypeTable} (ht : t.Sound) {path : List Name} {ty : TypeId} {x : Lowered}
    (h : t.Lowers path ty x) (hpath : path.Nodup) :
    (∃ ns a, t.Leads ty ns a ∧ (∀ n, t.kind a ≠ .named n) ∧ (path ++ ns).Nodup ∧
      x.reports = (t.lower (path ++ ns) a).reports ∧
      ((∃ c, x.result = .ok c) ↔ ∃ c, (t.lower (path ++ ns) a).result = .ok c)) ∨
    ∃ d, t.DeadEnd path ty d ∧ x = .fail d := by
  have hlower := h.eq_lower ht
  induction h with
  | bool hk | bits hk | varbits hk | enum hk | header hk | aggregate hk | stack hk =>
    left
    refine ⟨[], _, .here, ?_, by simpa using hpath, ?_⟩
    · intro n hn
      cases hk.symm.trans hn
    · rw [List.append_nil, ← hlower]
      exact ⟨rfl, Iff.rfl⟩
  | @cycle path ty n hk hn =>
    right
    have hend : t.DeadEnd path ty (t.typeCycle (path ++ []) n (t.node ty).span) :=
      .cycle .here (by simpa using hpath) hk (by simpa using hn)
    rw [List.append_nil] at hend
    exact ⟨_, hend, rfl⟩
  | unknown hk hn hl =>
    exact .inr ⟨_, .unknown .here (by simpa using hpath) hk (by simpa using hn) hl, rfl⟩
  | @declared path ty target n x hk hn hl hx ih =>
    have hnodup : (path ++ [n]).Nodup := (Call.name hk hn hl).nodup hpath
    rcases ih hnodup (hx.eq_lower ht) with ⟨ns, a, hleads, hne, hns, hreports, hok⟩ | ⟨d, hd, rfl⟩
    · left
      rw [List.append_assoc, List.singleton_append] at hns hreports hok
      refine ⟨n :: ns, a, .name hk hl hleads, hne, hns, hreports, ?_⟩
      rw [← hok]
      constructor
      · rintro ⟨c, hc⟩
        obtain ⟨c', hc', -⟩ := Lowered.result_rename.mp hc
        exact ⟨c', hc'⟩
      · rintro ⟨c, hc⟩
        exact ⟨_, Lowered.result_rename.mpr ⟨c, hc, rfl⟩⟩
    · right
      refine ⟨d, ?_, rfl⟩
      cases hd with
      | unknown hleads hns hka hna hla =>
        rw [List.append_assoc, List.singleton_append] at hns hna
        exact .unknown (.name hk hl hleads) hns hka hna hla
      | cycle hleads hns hka hna =>
        rw [List.append_assoc, List.singleton_append] at hns hna ⊢
        exact .cycle (.name hk hl hleads) hns hka hna

/-- **Following names.**  The bounded chase finds the node that single steps lead to, however many
it takes, and nothing exactly if the chain meets a name that is not declared or never leaves the
names; more steps than its bound would find no more.  Lowering follows the same chain: it fails at a
name of the chain itself, with the one report that says so, exactly where the chase finds nothing,
and otherwise what becomes of the type is what becomes of the node that was found. -/
theorem Built.resolve_outcome {t : TypeTable} (h : t.Built) (f : Field) :
    (∀ r, t.resolve? f.type = some r ↔
      (∃ k, t.walk? k f.type = some r) ∧ ∀ n, t.kind r ≠ .named n) ∧
    (t.resolve? f.type = none ↔
      (∃ k a n, t.walk? k f.type = some a ∧ t.kind a = .named n ∧ t.lookup n = none) ∨
      ∀ k, ∃ a n, t.walk? k f.type = some a ∧ t.kind a = .named n) ∧
    (∀ steps, t.size < steps → t.chase? steps f.type = t.resolve? f.type) ∧
    (t.resolve? f.type = none ↔ ∃ d, t.DeadEnd [] f.type d ∧
      (d.code = .unknownType ∨ d.code = .typeCycle) ∧
      ∀ q, t.create f.type q = (.error .reported, q.add d)) ∧
    ∀ r, t.resolve? f.type = some r → ∃ ns, t.Leads f.type ns r ∧ ns.Nodup ∧
      (t.lower [] f.type).reports = (t.lower ns r).reports ∧
      ((∃ c, (t.lower [] f.type).result = .ok c) ↔ ∃ c, (t.lower ns r).result = .ok c) := by
  have ht := h.sound
  have hchase := (ht.lowers [] f.type).chase ht List.nodup_nil
  refine ⟨fun r => ?_, ht.resolve?_eq_none_iff_walk?,
    fun steps hsteps => ht.chase?_eq_resolve? hsteps _, ?_, ?_⟩
  · rw [ht.resolve?_eq_some_iff, resolves_iff_walk?]
  · rw [ht.resolve?_eq_none_iff]
    constructor
    · intro hnone
      rcases hchase with ⟨ns, a, hleads, hne, -⟩ | ⟨d, hd, hfail⟩
      · exact absurd (hleads.resolves_iff.mpr (.here hne)) (hnone a)
      · refine ⟨d, hd, hd.code, fun q => ?_⟩
        unfold create
        rw [hfail]
        rfl
    · rintro ⟨d, hd, -⟩
      exact hd.not_resolves
  · intro r hr
    rw [ht.resolve?_eq_some_iff] at hr
    rcases hchase with ⟨ns, a, hleads, hne, hns, hrest⟩ | ⟨d, hd, -⟩
    · obtain rfl := (hleads.resolves_iff.mp hr).unique (.here hne)
      exact ⟨ns, hleads, hns, hrest⟩
    · exact absurd hr (hd.not_resolves r)

/-- Two names that stand for each other. -/
def looped : TypeTable :=
  let a := "a"
  let b := "b"
  let t := (Growth.allocNamed b .dummy).grow ∅
  let t := (Growth.declareTypedef a 0).grow t
  let t := (Growth.allocNamed a .dummy).grow t
  (Growth.declareTypedef b 1).grow t

theorem built_looped : looped.Built :=
  .grow (.grow (.grow (.grow .empty (.allocNamed _ .dummy) trivial) (.declareTypedef _ 0)
    (by decide : 0 < 1))
    (.allocNamed _ .dummy) trivial) (.declareTypedef _ 1) (by decide : 1 < 2)

/-- Both nodes are passed, and the first name comes back. -/
theorem resolve_outcome_looped : looped.Built ∧ looped.resolve? 0 = none ∧
    (∀ q, looped.create 0 q = (.error .reported, q.add (looped.typeCycle [⟨7⟩, ⟨8⟩] ⟨7⟩ .dummy))) ∧
    ∃ d, looped.DeadEnd [] 0 d ∧ d.code = .typeCycle := by
  have h0 : looped.kind 0 = .named ⟨7⟩ := by decide +kernel
  have h1 : looped.kind 1 = .named ⟨8⟩ := by decide +kernel
  have hl0 : looped.lookup ⟨7⟩ = some 1 := by decide +kernel
  have hl1 : looped.lookup ⟨8⟩ = some 0 := by decide +kernel
  have hspan : (looped.node 0).span = .dummy := by decide +kernel
  have hcreate : ∀ q, looped.create 0 q =
      (.error .reported, q.add (looped.typeCycle [⟨7⟩, ⟨8⟩] ⟨7⟩ .dummy)) := by
    intro q
    unfold create
    rw [lower_declared h0 (by decide) hl0, lower_declared h1 (by decide) hl1,
      lower_cycle h0 (by decide), hspan]
    rfl
  have hnone : looped.resolve? 0 = none := by decide +kernel
  obtain ⟨-, -, -, hend, -⟩ := Built.resolve_outcome built_looped ⟨.empty, 0, .dummy⟩
  obtain ⟨d, hd, -, hd'⟩ := hend.mp hnone
  have hkept : ∀ d, ((Queue.ofConfig .unlimited).add d).kept = [d] :=
    fun d => Queue.kept_addAll_unlimited [d] rfl
  have hsame := congrArg (fun x => x.2.kept) ((hd' (.ofConfig .unlimited)).symm.trans (hcreate _))
  obtain rfl : d = looped.typeCycle [⟨7⟩, ⟨8⟩] ⟨7⟩ .dummy := by
    simpa only [hkept, List.singleton_inj] using hsame
  exact ⟨built_looped, hnone, hcreate, _, hd, rfl⟩

end WireTypes.TypeTable
