import WireTypes.Proofs.Command.Results
import WireTypes.Proofs.Description.References
import WireTypes.Proofs.Layout

/-!
# The two commands agree

`lower` has a queue for each item, and lowers the variables too; `layout` has one queue for all
types and asks each of them for its widths.  Both lower the types of the unit, so where `lower`
reports nothing `layout` has nothing to report either (`layout_of_lower`).
-/

namespace WireTypes

theorem Queue.listing_ofConfig (config : QueueConfig) : (ofConfig config).listing = [] :=
  List.append_eq_nil_iff.mpr ⟨List.mergeSort_nil, rfl⟩

namespace TypeTable

/-- A type that becomes a C type without a report has a fixed width. -/
theorem Sound.extent_of_create {t : TypeTable} (ht : t.Sound) {ty : TypeId} {c : CType}
    (h : ∀ q, t.create ty q = (.ok c, q)) : ∃ e, c.extent? = some e := by
  have hsizable : t.Sizable ty := by
    by_contra hnot
    have herrors := ht.hasErrors_create hnot (Queue.counted_ofConfig .standard)
    rw [h] at herrors
    cases herrors
  obtain ⟨c', e, hc', he⟩ := (ht.exists_extent_iff ty).mpr hsizable
  have hc : (t.create ty (.ofConfig .standard)).1 = .ok c' := hc'
  rw [h] at hc
  cases hc
  exact ⟨e, he⟩

theorem layout_of_create {t : TypeTable} {ty : TypeId} {c : CType} {e : Extent} {q : Queue}
    (h : t.create ty q = (.ok c, q)) (he : c.extent? = some e) :
    t.layout ty q = (.ok c.layout, q) := by
  have hsized : c.widthReports = [] := by
    unfold CType.widthReports CType.isSized
    rw [he]
    rfl
  unfold layout
  rw [h]
  show (_, (q.addAll c.widthReports).addAll c.widthReports) = _
  rw [hsized]
  rfl

/-- Types that are lowered without reports have a row each, and measuring them reports nothing. -/
theorem Sound.layoutReport_of_created {t : TypeTable} (ht : t.Sound) {ids : List TypeId}
    {types : List CType}
    (h : List.Forall₂ (fun ty c => ∀ q, t.create ty q = (.ok c, q)) ids types) (q : Queue) :
    t.layoutReport q ids = (.ok (types.map CType.layout), q) := by
  induction h with
  | nil => rfl
  | @cons ty c _ _ hc _ ih =>
    obtain ⟨e, he⟩ := ht.extent_of_create hc
    unfold layoutReport
    rw [layout_of_create (hc q) he]
    show ((t.layoutReport q _).1.map _, (t.layoutReport q _).2) = _
    rw [ih]
    rfl

end TypeTable

theorem CType.display_of_tag? {c : CType} {tag : Tag} (h : c.tag? = some tag) :
    c.display = tag.name := by
  cases c with
  | header | aggregate | enum =>
    cases h
    rfl
  | bool | scalar | stack | named => cases h

/-- The tags that are declared have the names of the definitions. -/
theorem Description.names_tags {ρ : Type} (ds : List (Declaration ρ)) :
    (ds.filterMap (·.tag?)).map (·.name) = (ds.filter (·.isDefinition)).map (·.name) := by
  induction ds with
  | nil => rfl
  | cons d rest ih =>
    rw [List.filterMap_cons, List.filter_cons, d.isDefinition_eq]
    cases htag : d.tag? with
    | none => exact ih
    | some tag => exact congrArg₂ List.cons (Declaration.name_of_tag? htag) ih

theorem Description.Represents.names_layout {d : Description String} {l : Loaded}
    {types : List CType} {vars : List (String × CType)} (h : d.Represents l types vars) :
    (types.map CType.layout).map (·.name) = (d.types.filter (·.isDefinition)).map (·.name) := by
  have hnames : types.map (·.display) = (d.types.filterMap (·.tag?)).map (·.name) :=
    map_eq_of_forall₂ (h.defined.imp fun _ _ hc => CType.display_of_tag? hc.1)
  rw [← Description.names_tags, ← hnames, List.map_map]
  rfl

theorem CType.isSome_definition?_of_tag? {c : CType} {tag : Tag} (h : c.tag? = some tag)
    (style : Style) : (c.definition? style).isSome = true := by
  obtain ⟨x, hx, -⟩ := Option.bind_eq_some_iff.mp ((c.tag?_definition? style).trans h)
  rw [hx]
  rfl

namespace Command

/-- **The two commands agree.**  Where `lower` succeeds, `layout` does, whatever the options of
either are, and reports nothing.  Its table has one row for each header, struct, header union and
enum of the description, in order; and in the same order, each of the C types whose definitions make
up the code of `lower` has the widths of its row.  Behind the titles the rows are the lines of the
table, if no name has a line break. -/
theorem layout_of_lower {source : String} {o : Options} {u : LoweredUnit}
    (h : lowerText source o = .ok u) (hs : u.success = true) (o' : Options) :
    ∃ (d : Description String) (l : Loaded) (types : List CType) (vars : List (String × CType))
      (rows : List LayoutEntry), Description.ofText source = .ok d ∧ d.load = .ok l ∧
        d.Represents l types vars ∧
      u.code = (CProgram.ofTypes o.style types vars).text o.style ∧
      layoutText source o' = .ok ⟨LayoutEntry.table rows, [], true⟩ ∧
      rows.map (·.name) = (d.types.filter (·.isDefinition)).map (·.name) ∧
      List.Forall₂ (fun c row => (c.definition? o.style).isSome = true ∧ row.sized = true ∧
        c.extent? = some ⟨row.bits, row.storedBits⟩) types rows ∧
      ((∀ row ∈ rows, OneLine row.name) → lines (LayoutEntry.table rows) =
        (LayoutEntry.Column.title :: rows.map (·.text)).map
          (LayoutEntry.lineOf (LayoutEntry.nameWidth rows))) := by
  cases hload : Description.loadText source with
  | error e =>
    have hprocess := process_of_load_error hload .lower o
    unfold process at hprocess
    rw [h] at hprocess
    cases hprocess
  | ok l =>
    obtain rfl : l.unit.lower l.table o.style o.diagnostics = u :=
      Except.ok.inj ((lowerText_of_load hload o).symm.trans h)
    obtain ⟨d, htext, hd⟩ := Description.loadText_eq_ok.mp hload
    obtain ⟨types, vars, hrepresents, hcode⟩ := Description.exists_represents hd hs
    have hsound := (Description.built_of_loadText hload).sound
    obtain ⟨rows, q, hrows, hlayout⟩ := layoutText_of_load hload o'
    rw [hsound.layoutReport_of_created hrepresents.created] at hrows
    cases hrows
    rw [Queue.listing_ofConfig] at hlayout
    refine ⟨d, l, types, vars, _, htext, hd, hrepresents, hcode, hlayout, hrepresents.names_layout,
      ?_, fun hnames => ?_⟩
    · rw [List.forall₂_map_right_iff, List.forall₂_same]
      intro c hc
      obtain ⟨tag, -, htag, -⟩ := exists_mem_of_forall₂ hrepresents.defined.flip c hc
      obtain ⟨ty, -, hcreate⟩ := exists_mem_of_forall₂ hrepresents.created.flip c hc
      obtain ⟨e, he⟩ := hsound.extent_of_create hcreate
      refine ⟨CType.isSome_definition?_of_tag? htag o.style, ?_, ?_⟩
      · simp [CType.layout, CType.isSized, he]
      · simp [CType.layout, CType.extentOrZero, he]
    · refine LayoutEntry.lines_table fun row hrow => ⟨hnames row hrow, ?_⟩
      obtain ⟨c, -, rfl⟩ := List.mem_map.mp hrow
      exact (LayoutEntry.kind_of_layout c).1

def forwardText : String :=
  "[[[\"struct\",\"s_t\",[[\"h\",\"h_t\"]]],[\"header\",\"h_t\",[[\"x\",\"bit<8>\"]]]],[[\"v\",\"s_t\"]]]"

theorem ofText_forwardText : Description.ofText forwardText = .ok Description.forward := by
  decide +kernel

theorem loadText_forwardText : Description.loadText forwardText = .ok Description.forwardLoaded :=
  Description.loadText_eq_ok.mpr ⟨_, ofText_forwardText, Description.load_forward⟩

/-- The struct and the header of `forward` have a row each, in this order, and the
table has a line for each. -/
theorem layout_of_lower_forward :
    let o : Options := ⟨"t.json", none, .minimal, .standard, .human⟩
    let o' : Options := ⟨"u.json", some "table", .standard, ⟨1, false⟩, .json⟩
    ∃ u rows, lowerText forwardText o = .ok u ∧ u.success = true ∧
      layoutText forwardText o' = .ok ⟨LayoutEntry.table rows, [], true⟩ ∧
        rows.map (·.name) = ["s_t", "h_t"] ∧
      (lines (LayoutEntry.table rows)).length = 3 := by
  intro o o'
  have hlower := lowerText_of_load loadText_forwardText o
  have hsuccess := Description.success_forward o.diagnostics
  obtain ⟨d, -, -, -, rows, htext, -, -, -, hlayout, hnames, -, hlines⟩ :=
    layout_of_lower hlower hsuccess o'
  obtain rfl : Description.forward = d := Except.ok.inj (ofText_forwardText.symm.trans htext)
  have hnames : rows.map (·.name) = ["s_t", "h_t"] := hnames
  have honeLine : ∀ row ∈ rows, OneLine row.name := by
    have hall : ∀ name ∈ rows.map (·.name), OneLine name := by
      rw [hnames]
      decide +kernel
    exact List.forall_mem_map.mp hall
  refine ⟨_, rows, hlower, hsuccess, hlayout, hnames, ?_⟩
  have hlength : rows.length = 2 := by simpa using congrArg List.length hnames
  rw [hlines honeLine, List.length_map, List.length_cons, List.length_map, hlength]

end Command

end WireTypes
