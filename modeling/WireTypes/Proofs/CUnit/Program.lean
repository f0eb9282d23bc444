import WireTypes.Proofs.CUnit.Composition
import WireTypes.Proofs.CUnit.Contributions
import WireTypes.Proofs.CUnit.Settings
import WireTypes.Proofs.Lower.Context

/-!
# Units as programs

`CProgram` is a C text as a list of definitions and a list of objects.  The code of a unit is the
text of one, with the declarations that its items add (`code_eq_program`).  In a unit without errors
each type gives a C type, and each of these its declaration (`lower_program`).
-/

namespace WireTypes

/-- Definitions, then objects. -/
structure CProgram where
  definitions : List CDeclaration
  objects : List CDeclaration
  deriving DecidableEq, Repr

namespace CProgram

/-- The parts of the text: the preamble, each definition, and all objects together. -/
def parts (style : Style) (p : CProgram) : List String :=
  (if style.preamble then [CUnit.banner ++ CUnit.includeLine] else []) ++
    p.definitions.map (·.text (Writer.lineMargin style)) ++
    if p.objects = [] then [] else [String.join (p.objects.map (·.text (Writer.lineMargin style)))]

/-- The text, with an empty line between parts. -/
def text (style : Style) (p : CProgram) : String := "\n".intercalate (p.parts style)

/-- The declarations of types that have one, and variables of types. -/
def ofTypes (style : Style) (types : List CType) (vars : List (String × CType)) : CProgram :=
  ⟨types.filterMap (·.definition? style), vars.map fun v => v.2.zeroed style v.1⟩

end CProgram

/-- A definition defines the tag of its type. -/
theorem CType.tag?_definition? (style : Style) (c : CType) :
    (c.definition? style).bind (·.tag?) = c.tag? := by
  cases c <;> rfl

namespace CUnit

/-! ## The program of a unit -/

/-- The declarations that the items add to the code. -/
def program (u : CUnit) (t : TypeTable) (style : Style) : CProgram :=
  ⟨(u.types.map .definition).filterMap (Item.contribution t style),
    (u.vars.map .declaration).filterMap (Item.contribution t style)⟩

theorem filter_join (margin : String) (objects : List CDeclaration) :
    [String.join (objects.map (·.text margin))].filter (· ≠ "") =
      if objects = [] then [] else [String.join (objects.map (·.text margin))] := by
  cases objects with
  | nil => rfl
  | cons d rest =>
    have hne : decide (String.join ((d :: rest).map (·.text margin)) ≠ "") = true := by
      simp [d.text_ne_empty margin]
    rw [if_neg (List.cons_ne_nil d rest)]
    exact List.filter_cons_of_pos hne

theorem code_eq_program (u : CUnit) (t : TypeTable) (style : Style) (config : QueueConfig) :
    (u.lower t style config).code = (u.program t style).text style := by
  have htypes : (u.types.map fun ty => (Item.definition ty).text t style) =
      (u.types.map .definition).map (Item.text t style) := by
    rw [List.map_map]
    rfl
  have hvars : (u.vars.map fun v => (Item.declaration v).text t style) =
      (u.vars.map .declaration).map (Item.text t style) := by
    rw [List.map_map]
    rfl
  rw [code_lower, htypes, hvars, Item.join_texts_items, List.cons_append, ← List.singleton_append,
    List.filter_append, List.filter_append, filter_preamble, Item.filter_texts_items, filter_join]
  simp [CProgram.text, CProgram.parts, program]

/-! ## Items without reports -/

/-- The type of an item that reports nothing gives a C type, and the item adds what
it declares with that. -/
theorem Item.contribution_of_reports_eq_nil {t : TypeTable} (ht : t.Built)
    {style : Style} {item : Item} (h : item.reports t style = []) :
    ∃ c, t.lower [] item.type = .ok c ∧
      item.contribution t style = item.declaration? style c := by
  obtain ⟨hsilent, houtcome⟩ := List.append_eq_nil_iff.mp h
  cases item.fate t style with
  | early e hcreate =>
    obtain ⟨c, -, hc, -⟩ := (ht.sound.lowers [] item.type).sized hsilent
    rw [hcreate] at hc
    cases hc
  | whole c d hcreate hd _ hsome => exact ⟨c, Lowered.eq_ok hsilent hcreate, hsome.trans hd.symm⟩
  | nothing c hcreate hd _ hnone => exact ⟨c, Lowered.eq_ok hsilent hcreate, hnone.trans hd.symm⟩
  | late kind id hlate =>
    rw [hlate] at houtcome
    cases houtcome

/-! ## Units without errors -/

theorem success_iff {t : TypeTable} (ht : t.Built) {u : CUnit} {style : Style}
    {config : QueueConfig} :
    (u.lower t style config).success = true ↔ ∀ item ∈ u.items, item.reports t style = [] := by
  have hsuccess : (u.lower t style config).success =
      !(u.itemReports t style).flatten.any Diagnostic.isError := by
    rw [lower_eq, ← hasErrors_collect u t style config]
  have hnone : (u.itemReports t style).flatten = [] ↔
      ∀ item ∈ u.items, item.reports t style = [] := by
    simp [itemReports]
  rw [hsuccess, ← hnone, Bool.not_eq_true', List.any_eq_false, List.eq_nil_iff_forall_not_mem]
  constructor
  · intro h d hd
    exact h d hd (isError_of_mem_itemReports ht hd)
  · intro h d hd
    exact absurd hd (h d)

/-- An item that is lowered and emitted reports nothing. -/
theorem Item.reports_eq_nil {t : TypeTable} {style : Style} {item : Item} {c : CType}
    (hc : t.lower [] item.type = .ok c) (hemit : (item.emit c (.ofStyle style)).result = .ok ()) :
    item.reports t style = [] := by
  unfold Item.reports Item.outcome
  rw [hc]
  simp [Lowered.ok, Except.bind, Except.map, hemit]

theorem exists_forall₂ {α β : Type} {R : α → β → Prop} {as : List α} (h : ∀ a ∈ as, ∃ b, R a b) :
    ∃ bs, List.Forall₂ R as bs := by
  induction as with
  | nil => exact ⟨[], .nil⟩
  | cons a as ih =>
    obtain ⟨b, hb⟩ := h a List.mem_cons_self
    obtain ⟨bs, hbs⟩ := ih fun a' ha' => h a' (List.mem_cons_of_mem a ha')
    exact ⟨b :: bs, .cons hb hbs⟩

theorem filterMap_eq_of_forall₂ {α β γ : Type} {f : α → Option γ} {g : β → Option γ}
    {as : List α} {bs : List β} (h : List.Forall₂ (fun a b => f a = g b) as bs) :
    as.filterMap f = bs.filterMap g := by
  induction h with
  | nil => rfl
  | cons hab _ ih => rw [List.filterMap_cons, List.filterMap_cons, hab, ih]

/-- **A unit without errors is a program.**  All its types and variables are lowered without
reports, and its code is the text of their declarations. -/
theorem lower_program {t : TypeTable} (ht : t.Built) {u : CUnit} {style : Style}
    {config : QueueConfig} (h : (u.lower t style config).success = true) :
    ∃ (types : List CType) (vars : List (String × CType)),
      List.Forall₂ (fun ty c => t.lower [] ty = .ok c) u.types types ∧
      List.Forall₂ (fun v x => x.1 = v.name ∧ t.lower [] v.type = .ok x.2) u.vars vars ∧
      (u.lower t style config).code = (CProgram.ofTypes style types vars).text style := by
  rw [success_iff ht] at h
  have htypes : ∀ ty ∈ u.types, ∃ c, t.lower [] ty = .ok c ∧
      (Item.definition ty).contribution t style = c.definition? style := by
    intro ty hty
    exact Item.contribution_of_reports_eq_nil ht
      (h _ (List.mem_append_left _ (List.mem_map_of_mem hty)))
  have hvars : ∀ v ∈ u.vars, ∃ x : String × CType, (x.1 = v.name ∧ t.lower [] v.type = .ok x.2) ∧
      (Item.declaration v).contribution t style = some (x.2.zeroed style x.1) := by
    intro v hv
    obtain ⟨c, hc, hadds⟩ :=
      Item.contribution_of_reports_eq_nil ht
        (h _ (List.mem_append_right _ (List.mem_map_of_mem hv)))
    exact ⟨(v.name, c), ⟨rfl, hc⟩, hadds⟩
  obtain ⟨types, htypes⟩ := exists_forall₂ htypes
  obtain ⟨vars, hvars⟩ := exists_forall₂ hvars
  refine ⟨types, vars, htypes.imp fun _ _ h => h.1, hvars.imp fun _ _ h => h.1, ?_⟩
  have hdefinitions := filterMap_eq_of_forall₂ (htypes.imp fun _ _ h => h.2)
  have hobjects := filterMap_eq_of_forall₂ (hvars.imp fun _ _ h => h.2)
  rw [code_eq_program, program, CProgram.ofTypes, List.filterMap_map, List.filterMap_map,
    ← List.filterMap_eq_map]
  exact congrArg₂
    (fun definitions objects => (CProgram.mk definitions objects).text style) hdefinitions hobjects

end CUnit

end WireTypes
