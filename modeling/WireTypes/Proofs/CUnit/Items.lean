import WireTypes.CUnit
import WireTypes.Proofs.CType.Failure
import WireTypes.Proofs.Diagnostic.Funnel
import WireTypes.Proofs.Lower.Acceptance

/-!
# Items of a unit

What becomes of an item depends on the table and the style alone: `outcome` is its text, or why it
has none, and `reports` are its reports.  An item takes back its text for errors that nobody has
reported; there is no text behind any other (`lower_eq_lowerDiscarding`).  A queue only receives the
reports (`Item.lower_eq`), so a unit is put together from the texts and from what the queues of all
items, joined in order, keep of the reports (`collect`, `lower_eq`); `report` has one queue for all
of them instead.
-/

namespace WireTypes.CUnit

namespace Item

/-- The text of an item, or why it has none. -/
def outcome (t : TypeTable) (style : Style) (item : Item) : Except LoweringError String :=
  (t.lower [] item.type).result.bind fun lowered =>
    let written := item.emit lowered (.ofStyle style)
    written.result.map fun _ => written.writer.output

/-- The text of an item; empty where it has none. -/
def text (t : TypeTable) (style : Style) (item : Item) : String :=
  (item.outcome t style).toOption.getD ""

/-- What an item reports: the problems of its type, then the error that left it without a text,
unless that is one of these problems. -/
def reports (t : TypeTable) (style : Style) (item : Item) : List Diagnostic :=
  (t.lower [] item.type).reports ++
    match item.outcome t style with
    | .ok _ => []
    | .error e => e.diagnostic?.toList

theorem isInternal_of_emit {item : Item} {c : CType} {w : Writer} {e : LoweringError}
    (h : (item.emit c w).result = .error e) : e.isInternal = true := by
  cases item with
  | definition ty =>
    replace h : (if c.hasDefinition then c.emit w else .done w).result = .error e := h
    split at h
    · exact CType.isInternal_of_emit h
    · cases h
  | declaration v =>
    have hemit : (c.emitVariable v.name w).result = .error e := h
    unfold CType.emitVariable at hemit
    cases hdeclare : c.declare v.name with
    | error e' =>
      rw [hdeclare] at hemit
      cases hemit
      exact CType.isInternal_of_declare hdeclare
    | ok text =>
      rw [hdeclare] at hemit
      cases hemit

/-- Text and reports of an item, where an error of any kind leaves no text. -/
def lowerDiscarding (t : TypeTable) (style : Style) (item : Item) (q : Queue) : String × Queue :=
  match t.create item.type q with
  | (.error e, q) => ("", q.addAll e.diagnostic?.toList)
  | (.ok lowered, q) =>
    let written := item.emit lowered (.ofStyle style)
    match written.result with
    | .ok () => (written.writer.output, q)
    | .error e => ("", q.addAll e.diagnostic?.toList)

/-- An error that was reported before strikes before anything is written. -/
theorem lower_eq_lowerDiscarding (t : TypeTable) (style : Style) (item : Item) (q : Queue) :
    item.lower t style q = item.lowerDiscarding t style q := by
  unfold Item.lower lowerDiscarding
  obtain ⟨created, q⟩ := t.create item.type q
  cases created with
  | error e => cases e <;> rfl
  | ok c =>
    cases hresult : (item.emit c (.ofStyle style)).result with
    | ok _ => simp only [hresult]
    | error e =>
      obtain ⟨d, hd⟩ :=
        Option.isSome_iff_exists.mp (e.diagnostic?_isSome.trans (isInternal_of_emit hresult))
      simp only [hresult, hd]
      rfl

/-- No item looks at its queue. -/
theorem lower_eq (t : TypeTable) (style : Style) (item : Item) (q : Queue) :
    item.lower t style q = (item.text t style, q.addAll (item.reports t style)) := by
  rw [lower_eq_lowerDiscarding]
  unfold lowerDiscarding text reports outcome TypeTable.create
  rw [Queue.addAll_append]
  obtain ⟨result, reports⟩ := t.lower [] item.type
  cases result with
  | error e => rfl
  | ok lowered =>
    cases hw : (item.emit lowered (.ofStyle style)).result with
    | error e => simp [Except.bind, Except.map, Except.toOption, hw]
    | ok _ => simp [Except.bind, Except.map, Except.toOption, hw, Queue.addAll_nil]

theorem isError_of_mem_reports {t : TypeTable} (ht : t.Built) {style : Style} {item : Item}
    {d : Diagnostic} (hd : d ∈ item.reports t style) : d.isError = true := by
  unfold reports at hd
  rcases List.mem_append.mp hd with hd | hd
  · exact (ht.sound.lowers [] item.type).isError d hd
  · split at hd
    · cases hd
    · next e _ =>
      cases e with
      | reported => cases hd
      | unsupportedArray kind id =>
        obtain rfl := List.mem_singleton.mp hd
        rfl

end Item

/-- The items in the order in which they are lowered. -/
def items (u : CUnit) : List Item := u.types.map .definition ++ u.vars.map .declaration

def itemReports (u : CUnit) (t : TypeTable) (style : Style) : List (List Diagnostic) :=
  u.items.map (Item.reports t style)

/-- All items in order, with one queue. -/
def report (u : CUnit) (t : TypeTable) (style : Style) (q : Queue) : Queue :=
  u.items.foldl (fun q item => (item.lower t style q).2) q

theorem report_eq (u : CUnit) (t : TypeTable) (style : Style) (q : Queue) :
    u.report t style q = q.addAll (u.itemReports t style).flatten := by
  unfold report itemReports
  generalize u.items = items
  induction items generalizing q with
  | nil => rfl
  | cons item items ih =>
    rw [List.foldl_cons, ih, Item.lower_eq, List.map_cons, List.flatten_cons, Queue.addAll_append]

/-- The queue that the queues of all items are joined to. -/
def collect (u : CUnit) (t : TypeTable) (style : Style) (config : QueueConfig) : Queue :=
  (Queue.ofConfig config).funnel (u.itemReports t style)

/-- A unit is put together from the texts of its items and from what is kept of their reports. -/
theorem lower_eq (u : CUnit) (t : TypeTable) (style : Style) (config : QueueConfig) :
    u.lower t style config =
      { code := joinSections (preamble style)
          (sections (u.types.map fun ty => (Item.definition ty).text t style)
            (u.vars.map fun v => (Item.declaration v).text t style))
        diagnostics := (u.collect t style config).listing
        success := !(u.collect t style config).hasErrors } := by
  have hqueues : (u.itemReports t style).map (Queue.ofConfig config).worker =
      (u.types.map fun ty =>
        (Item.lower t style (.definition ty) (Queue.ofConfig config).fork).2) ++
        u.vars.map fun v =>
          (Item.lower t style (.declaration v) (Queue.ofConfig config).fork).2 := by
    simp [itemReports, items, Item.lower_eq, Queue.worker, Function.comp_def]
  unfold CUnit.lower collect Queue.funnel
  rw [hqueues]
  simp [Item.lower_eq, Function.comp_def]

theorem isError_of_mem_itemReports {u : CUnit} {t : TypeTable} (ht : t.Built) {style : Style}
    {d : Diagnostic} (hd : d ∈ (u.itemReports t style).flatten) : d.isError = true := by
  obtain ⟨ds, hds, hd⟩ := List.mem_flatten.mp hd
  obtain ⟨item, -, rfl⟩ := List.mem_map.mp hds
  exact Item.isError_of_mem_reports ht hd

end WireTypes.CUnit
