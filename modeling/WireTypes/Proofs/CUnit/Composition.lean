import WireTypes.Proofs.CUnit.Items

/-!
# What the code of a unit is made of

`Item.code` is the code of an item in a unit of its own.  The code of a unit is put together from
the codes of its items and from nothing else (`lower_composition`): the preamble, one part for each
definition that has a text and one part for all declarations, with one newline between parts.
-/

namespace WireTypes.CUnit

namespace Item

/-- The unit that holds the item and nothing else. -/
def alone : Item → CUnit
  | .definition ty => ⟨[ty], []⟩
  | .declaration v => ⟨[], [v]⟩

/-- The code of the item in a unit of its own, without a preamble. -/
def code (t : TypeTable) (style : Style) (config : QueueConfig) (item : Item) : String :=
  (item.alone.lower t { style with preamble := false } config).code

end Item

/-! ## Sections -/

/-- Behind some text, every section comes with a newline before it. -/
theorem joinSections_of_ne_empty (sections : List String) : ∀ {before : String}, before ≠ "" →
    joinSections before sections = "\n".intercalate (before :: sections) := by
  unfold joinSections
  induction sections with
  | nil =>
    intro before _
    simp
  | cons s rest ih =>
    intro before h
    have hnext : before ++ "\n" ++ s ≠ "" := by simp [h]
    have hempty : before.isEmpty = false := by simpa using h
    rw [List.foldl_cons, hempty, if_neg Bool.false_ne_true, ih hnext, String.intercalate_cons_cons,
      String.intercalate_cons_append]

/-- A text, definitions and declarations are joined as the parts among them that are not empty. -/
theorem joinSections_sections (before : String) (definitions declarations : List String) :
    joinSections before (sections definitions declarations) =
      "\n".intercalate ((before :: definitions ++ [String.join declarations]).filter (· ≠ "")) := by
  have hsections : sections definitions declarations =
      (definitions ++ [String.join declarations]).filter (· ≠ "") := by
    unfold sections
    refine List.filter_congr fun s _ => ?_
    rw [Bool.eq_iff_iff]
    simp
  rw [hsections, List.cons_append]
  generalize hparts : (definitions ++ [String.join declarations]).filter (· ≠ "") = parts
  have hne : ∀ s ∈ parts, s ≠ "" := by
    intro s hs
    rw [← hparts] at hs
    simpa using (List.mem_filter.mp hs).2
  by_cases hbefore : before = ""
  · rw [List.filter_cons_of_neg (by simpa using hbefore), hparts, hbefore]
    cases parts with
    | nil => rfl
    | cons s rest =>
      -- the first part stands at the front
      have hfirst : joinSections "" (s :: rest) = joinSections s rest := by simp [joinSections]
      rw [hfirst, joinSections_of_ne_empty rest (hne s List.mem_cons_self)]
  · rw [List.filter_cons_of_pos (by simpa using hbefore), hparts,
      joinSections_of_ne_empty parts hbefore]

theorem filter_preamble (style : Style) :
    [preamble style].filter (· ≠ "") = if style.preamble then [banner ++ includeLine] else [] := by
  unfold preamble
  split <;> rfl

theorem code_lower (u : CUnit) (t : TypeTable) (style : Style) (config : QueueConfig) :
    (u.lower t style config).code = "\n".intercalate
      ((preamble style :: (u.types.map fun ty => (Item.definition ty).text t style) ++
        [String.join (u.vars.map fun v => (Item.declaration v).text t style)]).filter
          (· ≠ "")) := by
  rw [lower_eq]
  exact joinSections_sections _ _ _

/-! ## Items -/

theorem Item.text_style (t : TypeTable) (style : Style) (preamble parallel : Bool) (item : Item) :
    item.text t { style with preamble := preamble, parallel := parallel } = item.text t style := rfl

/-- An item in a unit of its own has the text that it has anywhere. -/
theorem Item.code_eq_text (t : TypeTable) (style : Style) (config : QueueConfig) (item : Item) :
    item.code t style config = item.text t style := by
  have hone : ∀ text : String, "\n".intercalate ([text].filter (· ≠ "")) = text := by
    intro text
    by_cases htext : text = ""
    · rw [htext]
      rfl
    · rw [List.filter_cons_of_pos (by simpa using htext), List.filter_nil,
        String.intercalate_singleton]
  unfold Item.code
  rw [code_lower]
  cases item with
  | definition ty => exact hone _
  | declaration v =>
    have hjoin : String.join [(Item.declaration v).text t style] =
        (Item.declaration v).text t style := by simp
    rw [← hone ((Item.declaration v).text t style), ← hjoin]
    rfl

/-- **A unit is the ordered composition of its items.**  Its code is the preamble, if there is to be
one, then a part for each definition that has a text, then one part for all declarations, with one
newline between parts and none before the first.  Each item comes with the code that it has in a
unit of its own, whatever is kept of the reports there and whether or not items are lowered at the
same time: it depends on no other item and on no error of another item. -/
theorem lower_composition (u : CUnit) (t : TypeTable) (style : Style) (config config' : QueueConfig)
    (parallel : Bool) :
    let code := Item.code t { style with parallel := parallel } config'
    (u.lower t style config).code = "\n".intercalate
      ((if style.preamble then [banner ++ includeLine] else []) ++
        (u.types.map fun ty => code (.definition ty)).filter (· ≠ "") ++
        [String.join (u.vars.map fun v => code (.declaration v))].filter (· ≠ "")) := by
  intro code
  have hcode : code = Item.text t style := by
    funext item
    exact (Item.code_eq_text t _ config' item).trans
      (Item.text_style t style style.preamble parallel item)
  rw [code_lower, hcode, ← filter_preamble, ← List.filter_append, ← List.filter_append]
  rfl

end WireTypes.CUnit
