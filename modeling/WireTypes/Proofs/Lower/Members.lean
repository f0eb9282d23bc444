import WireTypes.Proofs.CType.Extent
import WireTypes.Proofs.CType.Lines
import WireTypes.Proofs.Lower.Outcome

/-!
# Members of structs and unions

A struct or union keeps the fields that become C types, in order, and reports every other field
once.  Members without a fixed width stay; they take the width of the whole away and are not
reported for it.

* `forall₂_keptMembers`: members and kept fields, one by one;
* `extent_assemble_eq_none_iff`: why there is no fixed width;
* `Built.aggregate_outcome` puts these together, with the text of definition and zero value.
-/

namespace WireTypes

namespace TypeTable

section

variable {t : TypeTable} {fields : List Field} {x : Field → Lowered}

/-- The members are the fields that became C types, in order. -/
theorem forall₂_keptMembers (fields : List Field) : List.Forall₂
    (fun f (m : Member × CType) => (x f).result = .ok m.2 ∧
      m.1 = t.member f) (fields.filter fun f => (x f).result.isOk)
    (t.keptMembers (fields.map fun f => (f, x f))) := by
  induction fields with
  | nil => exact .nil
  | cons f fields ih =>
    unfold keptMembers at ih ⊢
    cases hr : (x f).result with
    | error e => simpa [hr, Except.toOption, Except.isOk, Except.toBool] using ih
    | ok c => simpa [hr, Except.toOption, Except.isOk, Except.toBool] using ih

/-- The width is not fixed if a field is left out or a member has no fixed width itself. -/
theorem extent_assemble_eq_none_iff {form : AggregateForm} {n : Name} {span : Span} {c : CType}
    (hx : ∀ f ∈ fields, (x f).Reported)
    (hc : (t.assemble form n span (fields.map fun f => (f, x f))).result = .ok c) :
    c.extent? = none ↔ (∃ f ∈ fields, (x f).result.isOk = false) ∨
      ∃ m ∈ t.keptMembers (fields.map fun f => (f, x f)), m.2.extent? = none := by
  obtain rfl : CType.aggregate form (t.spelling n) span
      (t.keptMembers (fields.map fun f => (f, x f)))
      ((t.keptMembers (fields.map fun f => (f, x f))).length < fields.length) = c := by
    simpa [result_assemble hx] using hc
  have hsome : ∀ o : Option Extent, o = none ↔ ¬ ∃ e, o = some e := by
    intro o
    rw [← Option.ne_none_iff_exists', not_not]
  have hok : ∀ f, (x f).result.isOk = false ↔ ¬ ∃ c, (x f).result = .ok c := by
    intro f
    cases (x f).result <;> simp [Except.isOk, Except.toBool]
  rw [hsome, extent_aggregate_iff, decide_eq_false_iff_not, Nat.not_lt,
    (length_keptMembers_le fields x).ge_iff_eq, length_keptMembers_iff]
  simp only [hok, hsome, not_and_or, not_forall, exists_prop, Prod.exists]

end

/-- **Members are what can be lowered.** -/
theorem Built.aggregate_outcome {t : TypeTable} (h : t.Built) {ty : TypeId}
    {form : AggregateForm} {n : Name} {fields : List Field}
    (hk : t.kind ty = .aggregate form n fields) :
    ∃ (members : List (Member × CType)) (lossy : Bool) (q : Queue)
      (own : Field → Except LoweringError CType × Queue),
      (∀ f, own f = t.create f.type (.ofConfig .unlimited)) ∧
      t.create ty (.ofConfig .unlimited) =
        (.ok (.aggregate form (t.spelling n) (t.node ty).span members lossy), q) ∧
      List.Forall₂ (fun f (m : Member × CType) => (own f).1 = .ok m.2 ∧
        m.1.name = t.spelling f.name ∧
        m.1.source = t.display f.type) (fields.filter fun f => (own f).1.isOk) members ∧
      q.kept = fields.flatMap (fun f => (own f).2.kept ++
        if (own f).1.isOk then [] else [t.unsizedMember form n (t.node ty).span f]) ∧
      (∀ f, (t.unsizedMember form n (t.node ty).span f).code = .unsizedMember ∧
        (t.unsizedMember form n (t.node ty).span f).primarySpan? = some f.span) ∧
      ((CType.aggregate form (t.spelling n) (t.node ty).span members lossy).extent? = none ↔
        (∃ f ∈ fields, (own f).1.isOk = false) ∨ ∃ m ∈ members, m.2.extent? = none) ∧
      (CType.partialExtent members).logical.toNat =
        min ((members.filterMap (·.2.extent?)).map (·.logical.toNat)).sum maxWidth ∧
      (CType.partialExtent members).stored.toNat =
        min ((members.filterMap (·.2.extent?)).map (·.stored.toNat)).sum maxWidth ∧
      ∀ w, (((CType.aggregate form (t.spelling n) (t.node ty).span members lossy).emit w).result =
          .ok () →
          (CType.aggregate form (t.spelling n) (t.node ty).span members lossy).emit w =
            .done (w.append (w.definition form.keyword (t.spelling n)
              (members.map (CType.memberText w))))) ∧
        (CType.aggregate form (t.spelling n) (t.node ty).span members lossy).emitZero w =
          w.append (w.braces (members.map (CType.memberZeroText w.indent))) := by
  have hreported : ∀ f ∈ fields, (t.lower [] f.type).Reported :=
    fun f _ => (h.sound.lowers [] f.type).reported
  obtain ⟨members, hmembers⟩ : ∃ ms, t.keptMembers (fields.map fun f => (f, t.lower [] f.type)) =
      ms := ⟨_, rfl⟩
  have hlower : t.lower [] ty =
      t.assemble form n (t.node ty).span (fields.map fun f => (f, t.lower [] f.type)) :=
        h.sound.lower_aggregate hk []
  have hresult : (t.lower [] ty).result =
      .ok (.aggregate form (t.spelling n) (t.node ty).span members
      (members.length < fields.length)) := by
    rw [hlower, ← hmembers, result_assemble hreported]
  refine ⟨members, members.length < fields.length, (t.create ty (.ofConfig .unlimited)).2,
    fun f => t.create f.type (.ofConfig .unlimited), fun f => rfl, Prod.ext hresult rfl, ?_, ?_,
    fun f => ⟨rfl, rfl⟩, ?_, ?_, ?_, ?_⟩
  · rw [← hmembers]
    refine (forall₂_keptMembers fields).imp fun f m hm => ⟨hm.1, ?_, ?_⟩
    · rw [hm.2]
      rfl
    · rw [hm.2]
      rfl
  · simp only [kept_create_unlimited]
    rw [hlower, reports_assemble hreported]
    rfl
  · rw [hlower] at hresult
    rw [extent_assemble_eq_none_iff hreported hresult, hmembers]
    rfl
  · unfold CType.partialExtent
    rw [(CType.toNat_sumExtents _).1, CType.memberExtents_eq_map, List.filterMap_map]
    rfl
  · unfold CType.partialExtent
    rw [(CType.toNat_sumExtents _).2, CType.memberExtents_eq_map, List.filterMap_map]
    rfl
  · intro w
    refine ⟨fun hemit => ?_, CType.emitZero_aggregate _ _ _ _ _ w⟩
    exact CType.emit_aggregate (CType.declarable_of_mem (CType.result_of_emit hemit))

/-- A struct of which one field has no fixed width. -/
def halved : TypeTable :=
  let t := (Growth.alloc (.bits 8 false) .dummy).grow ∅
  let t := (Growth.alloc (.varbits 32) .dummy).grow t
  (Growth.declareAggregate .struct "s" [("a", 0), ("b", 1)]).grow t

theorem built_halved : halved.Built := by
  refine .grow (.alloc_leaf (built_single .dummy rfl rfl) (.varbits 32) .dummy rfl rfl)
    (.declareAggregate .struct "s" [("a", 0), ("b", 1)]) ?_
  intro f hf
  simp only [List.mem_cons, List.not_mem_nil, or_false] at hf
  rcases hf with rfl | rfl <;> decide

/-- The field is left out and reported, behind its own report; the other one is the only member. -/
theorem aggregate_outcome_halved :
    halved.Built ∧ ∃ (members : List (Member × CType)) (lossy : Bool) (q : Queue),
    halved.create 2 (.ofConfig .unlimited) =
      (.ok (.aggregate .struct "s" .dummy members lossy), q) ∧
    members.map (·.1.name) = ["a"] ∧ q.kept.map (·.code) = [.unsupportedType, .unsizedMember] ∧
    (CType.aggregate .struct "s" .dummy members lossy).extent? = none := by
  have hk : halved.kind 2 = .aggregate .struct ⟨7⟩ [⟨⟨8⟩, 0, .dummy⟩, ⟨⟨9⟩, 1, .dummy⟩] := by
    decide +kernel
  have hname : halved.spelling ⟨7⟩ = "s" := by decide +kernel
  have hfield : halved.spelling ⟨8⟩ = "a" := by decide +kernel
  have hspan : (halved.node 2).span = .dummy := by decide +kernel
  have ha : halved.lower [] 0 = .ok (.scalar 8 false) := by
    rw [lower, show halved.kind 0 = .bits 8 false by decide +kernel]
  have hb : halved.lower [] 1 = .fail (halved.unsupportedType 1) := by
    rw [lower, show halved.kind 1 = .varbits 32 by decide +kernel]
  obtain ⟨members, lossy, q, own, hown, hcreate, hmembers, hkept, -, hextent, -⟩ :=
    Built.aggregate_outcome built_halved hk
  rw [hname, hspan] at hcreate hextent
  have hfirst : own ⟨⟨8⟩, 0, .dummy⟩ = (.ok (.scalar 8 false), .ofConfig .unlimited) := by
    rw [hown, create, ha]
    rfl
  have hsecond : (own ⟨⟨9⟩, 1, .dummy⟩).1 = .error .reported ∧
      (own ⟨⟨9⟩, 1, .dummy⟩).2.kept = [halved.unsupportedType 1] := by
    rw [hown, kept_create_unlimited, hb]
    refine ⟨?_, rfl⟩
    show (halved.lower [] 1).result = _
    rw [hb]
    rfl
  have hok : (own ⟨⟨8⟩, 0, .dummy⟩).1.isOk = true := by
    rw [hfirst]
    rfl
  have herror : (own ⟨⟨9⟩, 1, .dummy⟩).1.isOk = false := by
    rw [hsecond.1]
    rfl
  refine ⟨built_halved, members, lossy, q, hcreate, ?_, ?_,
    hextent.mpr (.inl ⟨⟨⟨9⟩, 1, .dummy⟩, by simp, herror⟩)⟩
  · have honly : [⟨⟨8⟩, 0, .dummy⟩, ⟨⟨9⟩, 1, .dummy⟩].filter
        (fun f => (own f).1.isOk) = [⟨⟨8⟩, 0, .dummy⟩] := by
      simp [hok, herror]
    rw [honly] at hmembers
    obtain ⟨m, rest, hm, hrest, rfl⟩ := List.forall₂_cons_left_iff.mp hmembers
    obtain rfl := List.forall₂_nil_left_iff.mp hrest
    simp [hm.2.1, hfield]
  · have hreports : q.kept = [halved.unsupportedType 1,
        halved.unsizedMember .struct ⟨7⟩ (halved.node 2).span ⟨⟨9⟩, 1, .dummy⟩] := by
      rw [hkept, List.flatMap_cons, List.flatMap_cons, hok, herror, hfirst, hsecond.2]
      rfl
    rw [hreports]
    rfl

end TypeTable

end WireTypes
