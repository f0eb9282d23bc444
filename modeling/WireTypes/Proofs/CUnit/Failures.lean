import WireTypes.Proofs.CUnit.Program
import WireTypes.Proofs.Lower.Outcome

/-!
# Items that fail

An item fails early if its type cannot be lowered, and late if its C text asks for an array of a
type that has none.  In both cases nothing of it is in the code, and it has a report of its own.

* `Item.countP_internal_reports`: internal errors are reported for late failures;
* `lower_failures`: what the items that fail leave of a unit.
-/

namespace WireTypes

open Writer (lineMargin)

namespace TypeTable

theorem Lowers.code_ne_internal {t : TypeTable} {path : List Name} {ty : TypeId} {x : Lowered}
    (h : t.Lowers path ty x) : ∀ d ∈ x.reports, d.code ≠ .internal := by
  intro d hd hcode
  have hfound := h.foundByLowering d hd
  rw [hcode] at hfound
  cases hfound

end TypeTable

namespace CUnit

namespace Item

/-- An internal error is reported exactly for a late failure. -/
theorem countP_internal_reports {t : TypeTable} (ht : t.Built) (style : Style) (item : Item) :
    (item.reports t style).countP (·.code = .internal) =
      if item.failsLate t style then 1 else 0 := by
  have hlowers := ht.sound.lowers [] item.type
  have hnone : (t.lower [] item.type).reports.countP (·.code = .internal) = 0 :=
    List.countP_eq_zero.mpr fun d hd => by simpa using hlowers.code_ne_internal d hd
  unfold reports
  rw [List.countP_append, hnone, Nat.zero_add]
  cases fate t style item with
  | early e hcreate houtcome _ hearly =>
    obtain rfl := hlowers.reported e hcreate
    rw [houtcome, hearly]
    rfl
  | whole _ _ _ _ houtcome _ hearly | nothing _ _ _ houtcome _ hearly =>
    rw [houtcome, hearly]
    rfl
  | late kind id houtcome _ hlate =>
    rw [houtcome, hlate]
    rfl

theorem exists_isError_of_create {t : TypeTable} (ht : t.Built) (style : Style) {item : Item}
    {e : LoweringError} (h : (t.create item.type (.ofConfig .unlimited)).1 = .error e) :
    ∃ d ∈ item.reports t style, d.isError = true := by
  have hlowers := ht.sound.lowers [] item.type
  have hne : (t.lower [] item.type).reports ≠ [] := by
    intro hsilent
    obtain ⟨c, -, hc, -⟩ := hlowers.sized hsilent
    exact absurd (hc.symm.trans h) (by simp)
  obtain ⟨d, hd⟩ := List.exists_mem_of_ne_nil _ hne
  exact ⟨d, List.mem_append_left _ hd, hlowers.isError d hd⟩

end Item

/-! ## Units -/

/-- Without a limit all reports are shown. -/
theorem diagnostics_perm (u : CUnit) (t : TypeTable) (style : Style) :
    (u.lower t style .unlimited).diagnostics.Perm (u.items.flatMap (Item.reports t style)) := by
  have hkept : (u.collect t style .unlimited).kept = u.items.flatMap (Item.reports t style) := by
    rw [kept_collect, report_eq, Queue.kept_addAll_unlimited _ rfl]
    rfl
  rw [lower_eq, Queue.listing_eq]
  have hdropped : (u.collect t style .unlimited).dropped = 0 := dropped_collect u t style false
  rw [hdropped, if_neg (Nat.lt_irrefl 0), List.append_nil, hkept]
  exact List.mergeSort_perm _ _

theorem kept_lower_unlimited (t : TypeTable) (style : Style) (item : Item) :
    (item.lower t style (.ofConfig .unlimited)).2.kept = item.reports t style := by
  rw [Item.lower_eq]
  exact Queue.kept_addAll_unlimited _ rfl

theorem countP_internal_flatMap {t : TypeTable} (ht : t.Built) (style : Style) (items : List Item) :
    (items.flatMap (Item.reports t style)).countP (·.code = .internal) =
      items.countP (Item.failsLate t style) := by
  induction items with
  | nil => rfl
  | cons item items ih =>
    rw [List.flatMap_cons, List.countP_append, Item.countP_internal_reports ht, ih,
      List.countP_cons, Nat.add_comm]

/-- **Items that fail vanish, and are reported.**  The code of a unit is the text of whole
declarations.  An item adds one exactly if its type is lowered and the declaration can be written to
its end.  With nothing held back, the diagnostics of a unit are those of its items; there is one
internal error for each item whose type is lowered but asks for an array of a type that has none;
and an item whose type is not lowered has an error among its own. -/
theorem lower_failures {t : TypeTable} (ht : t.Built) (u : CUnit) (style : Style) :
    let q := Queue.ofConfig .unlimited
    let unit := u.lower t style .unlimited
    unit.code = (u.program t style).text style ∧
    (∀ (item : Item) (d : CDeclaration), item.contribution t style = some d ↔
      ∃ c, (t.create item.type q).1 = .ok c ∧
      item.writes style c = true ∧ item.declaration? style c = some d) ∧
    (∀ item : Item, item.lower t style q = item.lowerDiscarding t style q ∧
      ((item.lower t style q).1 ≠ "" ↔ ∃ c, (t.create item.type q).1 = .ok c ∧
        item.writes style c = true) ∧
      ((item.lower t style q).1 ≠ "" → ∃ d, item.contribution t style = some d ∧
        (item.lower t style q).1 = d.text (lineMargin style)) ∧
      (∀ e, (t.create item.type q).1 = .error e →
        ∃ d ∈ (item.lower t style q).2.kept, d.isError = true)) ∧
    unit.diagnostics.Perm (u.items.flatMap fun item : Item => (item.lower t style q).2.kept) ∧
    unit.diagnostics.countP (·.code = .internal) = u.items.countP (Item.failsLate t style) := by
  intro q unit
  have hperm : unit.diagnostics.Perm (u.items.flatMap (Item.reports t style)) :=
    diagnostics_perm u t style
  have htext : ∀ item : Item, (item.lower t style q).1 = item.text t style := by
    intro item
    rw [Item.lower_eq]
  refine ⟨code_eq_program u t style .unlimited, fun item d => Item.contribution_eq_some_iff,
    fun item => ?_, ?_, ?_⟩
  · refine ⟨Item.lower_eq_lowerDiscarding t style item q, ?_, fun hne => ?_, fun e he => ?_⟩
    · rw [htext, Item.text_ne_empty_iff, Item.exists_contribution_iff]
    · rw [htext, Item.text_ne_empty_iff] at hne
      obtain ⟨d, hd⟩ := hne
      refine ⟨d, hd, ?_⟩
      rw [htext, Item.text_eq, hd]
      rfl
    · rw [kept_lower_unlimited]
      exact Item.exists_isError_of_create ht style he
  · have hown : (fun item : Item => (item.lower t style q).2.kept) = Item.reports t style := by
      funext item
      exact kept_lower_unlimited t style item
    rw [hown]
    exact hperm
  · rw [hperm.countP_eq, countP_internal_flatMap ht]

/-- A struct with an array of bytes for a member, and a type of variable width. -/
def sliced : TypeTable :=
  let t := (TypeTable.Growth.alloc (.bits 8 false) .dummy).grow ∅
  let t := (TypeTable.Growth.alloc (.stack 0 2) .dummy).grow t
  let t := (TypeTable.Growth.declareAggregate .struct "s" [("a", 1)]).grow t
  (TypeTable.Growth.alloc (.varbits 8) .dummy).grow t

theorem built_sliced : sliced.Built := by
  have hbyte : ((TypeTable.Growth.alloc (.bits 8 false) .dummy).grow ∅).Built :=
    TypeTable.built_single .dummy rfl rfl
  have hbytes := hbyte.alloc_stack 2 .dummy (show 0 < _ by decide)
  refine (hbytes.grow (.declareAggregate .struct "s" [("a", 1)]) ?_).alloc_leaf (.varbits 8)
    .dummy rfl rfl
  intro f hf
  obtain rfl := List.mem_singleton.mp hf
  decide

/-- The struct fails late, the first variable early; the other one is all of the code. -/
theorem lower_failures_sliced :
    let u : CUnit := ⟨[2], [⟨"v", 3⟩, ⟨"w", 0⟩]⟩
    let unit := u.lower sliced .minimal .unlimited
    sliced.Built ∧ unit.code = "u8 w = 0;\n" ∧ unit.diagnostics.countP (·.code = .internal) = 1 ∧
      ∃ d ∈ ((Item.declaration ⟨"v", 3⟩).lower sliced .minimal (.ofConfig .unlimited)).2.kept,
        d.isError = true := by
  intro u unit
  have hbyte : sliced.lower [] 0 = .ok (.scalar 8 false) := by
    rw [TypeTable.lower, show sliced.kind 0 = .bits 8 false by decide +kernel]
  have hvarbits : sliced.lower [] 3 = .fail (sliced.unsupportedType 3) := by
    rw [TypeTable.lower, show sliced.kind 3 = .varbits 8 by decide +kernel]
  have hbytes : sliced.lower [] 1 = .ok (.stack (.scalar 8 false) ⟨8, 8⟩ 2) := by
    rw [built_sliced.sound.lower_stack (show sliced.kind 1 = .stack 0 2 by decide +kernel), hbyte]
    rfl
  obtain ⟨m, hstruct⟩ : ∃ m, sliced.lower [] 2 =
      .ok (.aggregate .struct "s" .dummy [(m, .stack (.scalar 8 false) ⟨8, 8⟩ 2)] false) := by
    refine ⟨sliced.member ⟨⟨8⟩, 1, .dummy⟩, ?_⟩
    rw [built_sliced.sound.lower_aggregate
      (show sliced.kind 2 = .aggregate .struct ⟨7⟩ [⟨⟨8⟩, 1, .dummy⟩] by decide +kernel)]
    simp only [List.map_cons, List.map_nil, hbytes]
    rw [show sliced.node 2 = ⟨.aggregate .struct ⟨7⟩ [⟨⟨8⟩, 1, .dummy⟩], .dummy⟩ by decide +kernel]
    simp [TypeTable.assemble, TypeTable.lowerFields, Lowered.ok, Except.map,
      show sliced.spelling ⟨7⟩ = "s" by decide +kernel]
  obtain ⟨hcode, -, hitems, -, hcount⟩ := lower_failures built_sliced u .minimal
  have hprogram : u.program sliced .minimal =
      ⟨[], [(CType.scalar 8 false).zeroed .minimal "w"]⟩ := by
    simp only [program, u, List.map_cons, List.map_nil, List.filterMap_cons, List.filterMap_nil,
      Item.contribution, Item.type, TypeTable.create, hbyte, hvarbits, hstruct]
    rfl
  have hlate : u.items.countP (Item.failsLate sliced .minimal) = 1 := by
    simp only [items, u, List.map_cons, List.map_nil, List.cons_append, List.nil_append,
      List.countP_cons, List.countP_nil, Item.failsLate, Item.type, TypeTable.create, hbyte,
      hvarbits, hstruct]
    rfl
  have hcreate : (sliced.create 3 (.ofConfig .unlimited)).1 = .error .reported := by
    rw [TypeTable.create, hvarbits]
    rfl
  refine ⟨built_sliced, hcode.trans ?_, hcount.trans hlate,
    (hitems (.declaration ⟨"v", 3⟩)).2.2.2 _ hcreate⟩
  rw [hprogram]
  decide +kernel

end CUnit

end WireTypes
