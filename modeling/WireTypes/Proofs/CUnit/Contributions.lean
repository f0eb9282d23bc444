import WireTypes.Proofs.CType.Definition
import WireTypes.Proofs.CUnit.Items

/-!
# What items add to the code

An item adds a whole declaration to the code, or nothing.

* `Item.emit_cases`: all that can come of writing an item, with the type of the item given;
* `Item.fate`: all that can become of an item;
* `Item.text_eq`: the text of an item is that of the declaration that it adds.
-/

namespace WireTypes

open Writer (lineMargin)

theorem CType.isSome_definition? (style : Style) (c : CType) :
    (c.definition? style).isSome = c.hasDefinition := by
  cases c <;> rfl

/-- The answer is that an array is asked for of a type that has none. -/
def LoweringError.isRefusal {α : Type} : Except LoweringError α → Bool
  | .error (.unsupportedArray _ _) => true
  | .error .reported => false
  | .ok _ => false

namespace CUnit.Item

/-- What the item declares, if its type is lowered to this. -/
def declaration? (style : Style) : Item → CType → Option CDeclaration
  | .definition _, c => c.definition? style
  | .declaration v, c => some (c.zeroed style v.name)

/-- The declaration can be written to its end. -/
def writes (style : Style) : Item → CType → Bool
  | .definition _, c => c.hasDefinition && (c.emit (.ofStyle style)).result.isOk
  | .declaration _, c => c.declarable

/-- Writing the declaration asks for an array of a type that has none. -/
def refuses (style : Style) : Item → CType → Bool
  | .definition _, c => c.hasDefinition && LoweringError.isRefusal (c.emit (.ofStyle style)).result
  | .declaration v, c => LoweringError.isRefusal (c.declare v.name)

/-- What the item adds to the code. -/
def contribution (t : TypeTable) (style : Style) (item : Item) : Option CDeclaration :=
  match (t.create item.type (.ofConfig .unlimited)).1 with
  | .ok c => if item.writes style c then item.declaration? style c else none
  | .error _ => none

/-- The type of the item is lowered, but its declaration is not written. -/
def failsLate (t : TypeTable) (style : Style) (item : Item) : Bool :=
  match (t.create item.type (.ofConfig .unlimited)).1 with
  | .ok c => item.refuses style c
  | .error _ => false

/-! ## Writing an item -/

/-- What came of writing an item. -/
inductive Emission (style : Style) (item : Item) (c : CType) (x : Written) : Prop
  /-- the whole declaration -/
  | whole (d : CDeclaration) (hwrites : item.writes style c = true)
      (hrefuses : item.refuses style c = false)
      (hd : item.declaration? style c = some d) (hresult : x.result = .ok ())
      (houtput : x.writer.output = d.text (lineMargin style))
  /-- nothing, since there is nothing to declare -/
  | nothing (hwrites : item.writes style c = false) (hrefuses : item.refuses style c = false)
      (hnone : item.declaration? style c = none) (hresult : x.result = .ok ())
      (houtput : x.writer.output = "")
  /-- some part of the declaration -/
  | part (kind id : String) (hwrites : item.writes style c = false)
      (hrefuses : item.refuses style c = true)
      (hresult : x.result = .error (.unsupportedArray kind id))

theorem emission_definition (style : Style) (ty : TypeId) (c : CType) :
    Emission style (.definition ty) c ((Item.definition ty).emit c (.ofStyle style)) := by
  have hsome := c.isSome_definition? style
  cases hdef : c.hasDefinition with
  | false =>
    have hnone : (Item.definition ty).emit c (.ofStyle style) = .done (.ofStyle style) := by
      simp [emit, hdef]
    rw [hdef, Option.isSome_eq_false_iff, Option.isNone_iff_eq_none] at hsome
    rw [hnone]
    exact .nothing (by simp [writes, hdef]) (by simp [refuses, hdef]) hsome rfl rfl
  | true =>
    have hemit : (Item.definition ty).emit c (.ofStyle style) = c.emit (.ofStyle style) := by
      simp [emit, hdef]
    rw [hdef] at hsome
    obtain ⟨d, hd⟩ := Option.isSome_iff_exists.mp hsome
    rw [hemit]
    cases hresult : (c.emit (.ofStyle style)).result with
    | ok _ =>
      exact .whole d (by simp [writes, hdef, hresult, Except.isOk, Except.toBool])
        (by simp [refuses, hresult, LoweringError.isRefusal]) hd hresult
          (CType.output_emit hd hresult)
    | error e =>
      obtain ⟨kind, id, rfl⟩ :=
        LoweringError.exists_unsupportedArray (CType.isInternal_of_emit hresult)
      exact .part kind id (by simp [writes, hresult, Except.isOk, Except.toBool])
        (by simp [refuses, hdef, hresult, LoweringError.isRefusal]) hresult

theorem emission_declaration (style : Style) (v : Variable) (c : CType) :
    Emission style (.declaration v) c ((Item.declaration v).emit c (.ofStyle style)) := by
  show Emission style (.declaration v) c (c.emitVariable v.name (.ofStyle style))
  have hok := c.isOk_declare v.name
  cases hdeclare : c.declare v.name with
  | ok text =>
    have hresult : (c.emitVariable v.name (.ofStyle style)).result = .ok () := by
      unfold CType.emitVariable
      rw [hdeclare]
      rfl
    rw [hdeclare] at hok
    exact .whole _ hok.symm (by simp [refuses, hdeclare, LoweringError.isRefusal]) rfl hresult
      (CType.output_emitVariable hresult)
  | error e =>
    have hresult : (c.emitVariable v.name (.ofStyle style)).result = .error e := by
      unfold CType.emitVariable
      rw [hdeclare]
      rfl
    rw [hdeclare] at hok
    obtain ⟨kind, id, rfl⟩ :=
      LoweringError.exists_unsupportedArray (CType.isInternal_of_declare hdeclare)
    exact .part kind id hok.symm (by simp [refuses, hdeclare, LoweringError.isRefusal]) hresult

/-- An item is written as a whole, or not at all, or up to an array that cannot be declared. -/
theorem emit_cases (style : Style) (item : Item) (c : CType) :
    Emission style item c (item.emit c (.ofStyle style)) := by
  cases item with
  | definition ty => exact emission_definition style ty c
  | declaration v => exact emission_declaration style v c

/-! ## Text -/

/-- What becomes of an item. -/
inductive Fate (t : TypeTable) (style : Style) (item : Item) : Prop
  /-- its type is not lowered -/
  | early (e : LoweringError) (hcreate : (t.lower [] item.type).result = .error e)
      (houtcome : item.outcome t style = .error e) (hnone : item.contribution t style = none)
      (hearly : item.failsLate t style = false)
  | whole (c : CType) (d : CDeclaration) (hcreate : (t.lower [] item.type).result = .ok c)
      (hd : item.declaration? style c = some d)
      (houtcome : item.outcome t style = .ok (d.text (lineMargin style)))
      (hsome : item.contribution t style = some d) (hearly : item.failsLate t style = false)
  | nothing (c : CType) (hcreate : (t.lower [] item.type).result = .ok c)
      (hd : item.declaration? style c = none)
      (houtcome : item.outcome t style = .ok "") (hnone : item.contribution t style = none)
      (hearly : item.failsLate t style = false)
  /-- its declaration cannot be written -/
  | late (kind id : String) (houtcome : item.outcome t style = .error (.unsupportedArray kind id))
      (hnone : item.contribution t style = none) (hlate : item.failsLate t style = true)

theorem fate (t : TypeTable) (style : Style) (item : Item) : Fate t style item := by
  have hcreate : (t.create item.type (.ofConfig .unlimited)).1 =
      (t.lower [] item.type).result := rfl
  cases hc : (t.lower [] item.type).result with
  | error e =>
    rw [hc] at hcreate
    exact .early e hc (by simp [outcome, hc, Except.bind]) (by simp [contribution, hcreate])
      (by simp [failsLate, hcreate])
  | ok c =>
    rw [hc] at hcreate
    cases emit_cases style item c with
    | whole d hwrites hrefuses hd hresult houtput =>
      exact .whole c d hc hd (by simp [outcome, hc, Except.bind, Except.map, hresult, houtput])
        (by simp [contribution, hcreate, hwrites, hd]) (by simp [failsLate, hcreate, hrefuses])
    | nothing hwrites hrefuses hd hresult houtput =>
      exact .nothing c hc hd (by simp [outcome, hc, Except.bind, Except.map, hresult, houtput])
        (by simp [contribution, hcreate, hwrites]) (by simp [failsLate, hcreate, hrefuses])
    | part kind id hwrites hrefuses hresult =>
      exact .late kind id (by simp [outcome, hc, Except.bind, Except.map, hresult])
        (by simp [contribution, hcreate, hwrites]) (by simp [failsLate, hcreate, hrefuses])

theorem text_eq (t : TypeTable) (style : Style) (item : Item) :
    item.text t style = ((item.contribution t style).map (·.text (lineMargin style))).getD "" := by
  unfold text
  cases fate t style item with
  | early _ _ houtcome hnone | nothing _ _ _ houtcome hnone | late _ _ houtcome hnone =>
    rw [houtcome, hnone]
    rfl
  | whole _ _ _ _ houtcome hsome =>
    rw [houtcome, hsome]
    rfl

theorem text_ne_empty_iff (t : TypeTable) (style : Style) (item : Item) :
    item.text t style ≠ "" ↔ ∃ d, item.contribution t style = some d := by
  rw [text_eq]
  cases item.contribution t style with
  | none => simp
  | some d => simpa using d.text_ne_empty (lineMargin style)

/-- A declaration that is written is there to be written. -/
theorem exists_declaration_of_writes {style : Style} {item : Item} {c : CType}
    (h : item.writes style c = true) : ∃ d, item.declaration? style c = some d := by
  cases emit_cases style item c with
  | whole d _ _ hd => exact ⟨d, hd⟩
  | nothing hwrites | part _ _ hwrites =>
    rw [h] at hwrites
    cases hwrites

theorem contribution_eq_some_iff {t : TypeTable} {style : Style} {item : Item} {d : CDeclaration} :
    item.contribution t style = some d ↔
      ∃ c, (t.create item.type (.ofConfig .unlimited)).1 = .ok c ∧
      item.writes style c = true ∧ item.declaration? style c = some d := by
  unfold contribution
  cases (t.create item.type (.ofConfig .unlimited)).1 with
  | error e => simp
  | ok c => simp

theorem exists_contribution_iff {t : TypeTable} {style : Style} {item : Item} :
    (∃ d, item.contribution t style = some d) ↔
      ∃ c, (t.create item.type (.ofConfig .unlimited)).1 = .ok c ∧ item.writes style c = true := by
  constructor
  · rintro ⟨d, hd⟩
    obtain ⟨c, hc, hwrites, -⟩ := contribution_eq_some_iff.mp hd
    exact ⟨c, hc, hwrites⟩
  · rintro ⟨c, hc, hwrites⟩
    obtain ⟨d, hd⟩ := exists_declaration_of_writes hwrites
    exact ⟨d, contribution_eq_some_iff.mpr ⟨c, hc, hwrites, hd⟩⟩

/-- The texts of items are those of the declarations that they add. -/
theorem filter_texts_items (t : TypeTable) (style : Style) (items : List Item) :
    (items.map (Item.text t style)).filter (· ≠ "") =
      (items.filterMap (contribution t style)).map (·.text (lineMargin style)) := by
  induction items with
  | nil => rfl
  | cons item items ih =>
    rw [List.map_cons, text_eq, List.filterMap_cons]
    cases item.contribution t style with
    | none => exact ih
    | some d =>
      rw [List.map_cons, ← ih]
      exact List.filter_cons_of_pos (by simpa using d.text_ne_empty _)

theorem join_texts_items (t : TypeTable) (style : Style) (items : List Item) :
    String.join (items.map (Item.text t style)) =
      String.join ((items.filterMap (contribution t style)).map (·.text (lineMargin style))) := by
  induction items with
  | nil => rfl
  | cons item items ih =>
    rw [List.map_cons, text_eq, List.filterMap_cons, String.join_cons, ih]
    cases item.contribution t style with
    | none => simp
    | some d => simp

end CUnit.Item

end WireTypes
