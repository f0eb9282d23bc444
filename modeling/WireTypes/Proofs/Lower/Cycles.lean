import WireTypes.Proofs.Diagnostic.Counts
import WireTypes.Proofs.Lower.Header
import WireTypes.Proofs.Lower.Termination

/-!
# Cycles

`Refers t a b` is the graph of a table: a node refers to its parts, and a name to what is declared
under it.  Lowering finds a cycle by the names on its way, not by nodes; it reports one exactly if
the graph has one to find.

* `Trail t ty ns`: from `ty` the names `ns` are met one after the other, each inside the declaration
  of the one before;
* `Lowers.trail`: the names of a reported cycle lie on a trail, and the last has been met before;
* `Trail.leadsToCycle`: so the graph has a cycle;
* `Lowers.ends`: where no cycle is reported all ways through the graph end;
* `Built.reports_cycle_iff` puts these together.
-/

namespace WireTypes

namespace TypeTable

/-- `a` refers to `b`. -/
inductive Refers (t : TypeTable) : TypeId → TypeId → Prop
  | part {a b : TypeId} (hb : b ∈ (t.kind a).parts) : Refers t a b
  | name {a b : TypeId} {n : Name} (hk : t.kind a = .named n) (hl : t.lookup n = some b) :
      Refers t a b

/-- References lead from `ty` to a node and from there back to it. -/
def LeadsToCycle (t : TypeTable) (ty : TypeId) : Prop :=
  ∃ a, Relation.ReflTransGen t.Refers ty a ∧ Relation.TransGen t.Refers a a

/-- Parts alone, without another name in between, lead from `a` to a node that spells `n`. -/
inductive Mentions (t : TypeTable) : TypeId → Name → Prop
  | here {a : TypeId} {n : Name} (hk : t.kind a = .named n) : Mentions t a n
  | part {a b : TypeId} {n : Name} (hb : b ∈ (t.kind a).parts) (h : Mentions t b n) : Mentions t a n

/-- The declaration of `m` mentions `n`. -/
def Expands (t : TypeTable) (m n : Name) : Prop := ∃ a, t.lookup m = some a ∧ t.Mentions a n

/-- Names that are met from `ty`, each in the declaration of the one before. -/
inductive Trail (t : TypeTable) : TypeId → List Name → Prop
  | last {ty : TypeId} {n : Name} (h : t.Mentions ty n) : Trail t ty [n]
  | next {ty a : TypeId} {n : Name} {ns : List Name} (h : t.Mentions ty n)
      (hl : t.lookup n = some a) (hns : Trail t a ns) : Trail t ty (n :: ns)

/-! ## Trails -/

theorem Trail.part {t : TypeTable} {a b : TypeId} {ns : List Name} (hb : b ∈ (t.kind a).parts)
    (h : t.Trail b ns) : t.Trail a ns := by
  cases h with
  | last h => exact .last (.part hb h)
  | next h hl hns => exact .next (.part hb h) hl hns

theorem Trail.mentions_head {t : TypeTable} {ty : TypeId} {n : Name} {ns : List Name}
    (h : t.Trail ty (n :: ns)) : t.Mentions ty n := by
  cases h with
  | last h => exact h
  | next h _ _ => exact h

theorem Trail.isChain {t : TypeTable} {ty : TypeId} {ns : List Name} (h : t.Trail ty ns) :
    ns.IsChain t.Expands := by
  induction h with
  | last _ => exact List.isChain_singleton _
  | @next ty a n ns _ hl hns ih =>
    cases ns with
    | nil => exact List.isChain_singleton _
    | cons m ns => exact List.isChain_cons_cons.mpr ⟨⟨a, hl, hns.mentions_head⟩, ih⟩

/-- A name that is mentioned refers on to its declaration. -/
theorem Mentions.refers {t : TypeTable} {a b : TypeId} {n : Name} (h : t.Mentions a n)
    (hl : t.lookup n = some b) : Relation.TransGen t.Refers a b := by
  induction h with
  | here hk => exact .single (.name hk hl)
  | part hb _ ih => exact .head (.part hb) (ih hl)

/-- A trail leads to the declaration of each of its names. -/
theorem Trail.refers {t : TypeTable} {n : Name} {a : TypeId} (hl : t.lookup n = some a) :
    ∀ {ns ms : List Name} {ty : TypeId}, t.Trail ty (ns ++ n :: ms) →
      Relation.TransGen t.Refers ty a := by
  intro ns
  induction ns with
  | nil => intro ms ty h; exact h.mentions_head.refers hl
  | cons m ns ih =>
    intro ms ty h
    rw [List.cons_append] at h
    generalize hrest : ns ++ n :: ms = rest at h
    cases h with
    | last _ => simp at hrest
    | next hm hlm hns =>
      subst hrest
      exact (hm.refers hlm).trans (ih hns)

/-- A name that is not the last of its trail is declared, and the trail goes on
from its declaration. -/
theorem Trail.tail {t : TypeTable} {n m : Name} {ms : List Name} :
    ∀ {ns : List Name} {ty : TypeId}, t.Trail ty (ns ++ n :: m :: ms) →
      ∃ a, t.lookup n = some a ∧ t.Trail a (m :: ms) := by
  intro ns
  induction ns with
  | nil =>
    intro ty h
    cases h with
    | next _ hl hns => exact ⟨_, hl, hns⟩
  | cons k ns ih =>
    intro ty h
    rw [List.cons_append] at h
    generalize hrest : ns ++ n :: m :: ms = rest at h
    cases h with
    | last _ => simp at hrest
    | next _ _ hns =>
      subst hrest
      exact ih hns

/-- A trail that comes back to one of its names has led into a cycle. -/
theorem Trail.leadsToCycle {t : TypeTable} {ty : TypeId} {ns : List Name} {n : Name}
    (h : t.Trail ty (ns ++ [n])) (hn : n ∈ ns) : t.LeadsToCycle ty := by
  obtain ⟨before, after, rfl⟩ := List.append_of_mem hn
  rw [List.append_assoc, List.cons_append] at h
  obtain ⟨a, hl, hback⟩ : ∃ a, t.lookup n = some a ∧ t.Trail a (after ++ [n]) := by
    cases after with
    | nil => exact h.tail
    | cons m ms => exact h.tail
  exact ⟨a, (h.refers hl).to_reflTransGen, hback.refers hl⟩

/-! ## Reported cycles -/

/-- The names of a reported cycle are those being expanded and then a trail. -/
theorem Lowers.trail {t : TypeTable} {path : List Name} {ty : TypeId} {x : Lowered}
    (h : t.Lowers path ty x) :
    ∀ d ∈ x.reports, d.code = .typeCycle →
      ∃ ns n span, d = t.typeCycle (path ++ ns) n span ∧ n ∈ path ++ ns ∧
        t.Trail ty (ns ++ [n]) := by
  induction h with
  | bool hk | bits hk | enum hk =>
    intro d hd
    cases hd
  | varbits hk | unknown hk hn hl =>
    intro d hd hcode
    obtain rfl := List.mem_singleton.mp hd
    cases hcode
  | header hk =>
    intro d hd hcode
    rcases mem_reports_lowerHeader hd with ⟨f, -, rfl | ⟨w, rfl⟩ | ⟨kind, rfl⟩⟩ | ⟨w, rfl⟩ <;>
      cases hcode
  | @aggregate path ty form n fields x hk hx ih =>
    intro d hd hcode
    obtain ⟨f, hf, hd | ⟨-, rfl⟩⟩ := (mem_reports_assemble fun f hf => (hx f hf).reported).mp hd
    · obtain ⟨ns, m, span, rfl, hm, htrail⟩ := ih f hf d hd hcode
      exact ⟨ns, m, span, rfl, hm, htrail.part (mem_parts_of_field hk hf)⟩
    · cases hcode
  | @stack path ty element size x hk hx ih =>
    intro d hd hcode
    obtain ⟨ns, m, span, rfl, hm, htrail⟩ := ih d hd hcode
    exact ⟨ns, m, span, rfl, hm, htrail.part (mem_parts_of_element hk)⟩
  | @cycle path ty n hk hn =>
    intro d hd _
    obtain rfl := List.mem_singleton.mp hd
    refine ⟨[], n, (t.node ty).span, ?_, ?_, .last (.here hk)⟩
    · rw [List.append_nil]
    · rwa [List.append_nil]
  | @declared path ty target n x hk hn hl hx ih =>
    intro d hd hcode
    obtain ⟨ns, m, span, rfl, hm, htrail⟩ := ih d hd hcode
    rw [List.append_assoc, List.singleton_append] at hm ⊢
    exact ⟨n :: ns, m, span, rfl, hm, .next (.here hk) hl htrail⟩

/-! ## Silence -/

/-- All ways through the graph end. -/
def Ends (t : TypeTable) (ty : TypeId) : Prop := Acc (fun b a => t.Refers a b) ty

theorem ends_leaf {t : TypeTable} {ty : TypeId} (hp : (t.kind ty).parts = [])
    (hn : ∀ n, t.kind ty = .named n → t.lookup n = none) : t.Ends ty := by
  refine Acc.intro ty fun b hb => ?_
  cases hb with
  | part hb =>
    rw [hp] at hb
    cases hb
  | name hk hl =>
    rw [hn _ hk] at hl
    cases hl

theorem ends_aggregate {t : TypeTable} {ty : TypeId} {form : AggregateForm} {n : Name}
    {fields : List Field} (hk : t.kind ty = .aggregate form n fields)
    (h : ∀ f ∈ fields, t.Ends f.type) : t.Ends ty := by
  refine Acc.intro ty fun b hb => ?_
  cases hb with
  | part hb =>
    rw [hk] at hb
    obtain ⟨f, hf, rfl⟩ := List.mem_map.mp hb
    exact h f hf
  | name hk' _ =>
    rw [hk] at hk'
    cases hk'

theorem ends_stack {t : TypeTable} {ty element : TypeId} {size : UInt32}
    (hk : t.kind ty = .stack element size) (h : t.Ends element) : t.Ends ty := by
  refine Acc.intro ty fun b hb => ?_
  cases hb with
  | part hb =>
    rw [hk] at hb
    obtain rfl := List.mem_singleton.mp hb
    exact h
  | name hk' _ =>
    rw [hk] at hk'
    cases hk'

theorem ends_declared {t : TypeTable} {ty target : TypeId} {n : Name} (hk : t.kind ty = .named n)
    (hl : t.lookup n = some target) (h : t.Ends target) : t.Ends ty := by
  refine Acc.intro ty fun b hb => ?_
  cases hb with
  | part hb =>
    rw [hk] at hb
    cases hb
  | name hk' hl' =>
    rw [hk] at hk'
    cases hk'
    obtain rfl := Option.some.inj (hl.symm.trans hl')
    exact h

/-- Where no cycle is reported, all ways through the graph end. -/
theorem Lowers.ends {t : TypeTable} {path : List Name} {ty : TypeId} {x : Lowered}
    (h : t.Lowers path ty x) : (∀ d ∈ x.reports, d.code ≠ .typeCycle) → t.Ends ty := by
  induction h with
  | bool hk | bits hk | enum hk | varbits hk | header hk =>
    intro _
    exact ends_leaf (by rw [hk]; rfl) (by rw [hk]; intro n hn; cases hn)
  | @aggregate path ty form n fields x hk hx ih =>
    intro hcode
    refine ends_aggregate hk fun f hf => ih f hf fun d hd => hcode d ?_
    exact (mem_reports_assemble fun f hf => (hx f hf).reported).mpr ⟨f, hf, .inl hd⟩
  | stack hk _ ih =>
    intro hx
    exact ends_stack hk (ih hx)
  | cycle hk hn =>
    intro hx
    exact absurd rfl (hx _ (List.mem_singleton_self _))
  | @unknown path ty n hk hn hl =>
    intro _
    refine ends_leaf (by rw [hk]; rfl) fun m hm => ?_
    rw [hk] at hm
    cases hm
    exact hl
  | declared hk hn hl _ ih =>
    intro hx
    exact ends_declared hk hl (ih hx)

theorem Ends.not_leadsToCycle {t : TypeTable} {ty : TypeId} (h : t.Ends ty) :
    ¬ t.LeadsToCycle ty := by
  rintro ⟨a, hreach, hcycle⟩
  induction h generalizing a with
  | intro ty _ ih =>
    rcases Relation.ReflTransGen.cases_head hreach with rfl | ⟨b, hb, hreach⟩
    · -- the cycle starts here, so it passes the next node too
      obtain ⟨b, hb, hback⟩ := Relation.TransGen.head'_iff.mp hcycle
      exact ih b hb b .refl (Relation.TransGen.tail' hback hb)
    · exact ih b hb a hreach hcycle

theorem kept_create_unlimited (t : TypeTable) (ty : TypeId) :
    (t.create ty (.ofConfig .unlimited)).2.kept = (t.lower [] ty).reports :=
  Queue.kept_addAll_unlimited _ rfl

/-- **Cycle reports are sound and complete.**  A cycle is reported exactly if the graph leads
into one; and the names that a report lists are met one in the declaration of the other, the
last for the second time. -/
theorem Built.reports_cycle_iff {t : TypeTable} (h : t.Built) (ty : TypeId) :
    ((∃ d ∈ (t.create ty (.ofConfig .unlimited)).2.kept, d.code = .typeCycle) ↔ t.LeadsToCycle ty) ∧
    ∀ d ∈ (t.create ty (.ofConfig .unlimited)).2.kept, d.code = .typeCycle →
      ∃ (ns : List Name) (n : Name),
        d.notes = ["cycle: " ++ " -> ".intercalate ((ns ++ [n]).map t.spelling)] ∧
        (ns ++ [n]).IsChain t.Expands ∧ n ∈ ns := by
  have hlowers := h.sound.lowers [] ty
  rw [kept_create_unlimited]
  refine ⟨⟨?_, ?_⟩, ?_⟩
  · rintro ⟨d, hd, hcode⟩
    obtain ⟨ns, n, span, -, hn, htrail⟩ := hlowers.trail d hd hcode
    exact htrail.leadsToCycle hn
  · intro hcycle
    by_contra hnone
    refine (hlowers.ends fun d hd hcode => ?_).not_leadsToCycle hcycle
    exact hnone ⟨d, hd, hcode⟩
  · intro d hd hcode
    obtain ⟨ns, n, span, rfl, hn, htrail⟩ := hlowers.trail d hd hcode
    exact ⟨ns, n, rfl, htrail.isChain, hn⟩

/-- The struct that holds itself is reported. -/
theorem reports_cycle_mixed : mixed.Built ∧
    ∃ d ∈ (mixed.create 5 (.ofConfig .unlimited)).2.kept, d.code = .typeCycle := by
  have hfield : mixed.Refers 5 4 := .part (by decide +kernel)
  have hkind : mixed.kind 4 = .named ⟨11⟩ := by decide +kernel
  have hname : mixed.Refers 4 5 := .name hkind (by decide +kernel)
  refine ⟨built_mixed, (Built.reports_cycle_iff built_mixed 5).1.mpr ?_⟩
  exact ⟨5, .refl, .head hfield (.single hname)⟩

end TypeTable

end WireTypes
