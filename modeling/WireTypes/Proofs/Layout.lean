import Mathlib.Algebra.Order.BigOperators.Group.List
import Mathlib.Algebra.Order.Group.Nat
import WireTypes.Layout
import WireTypes.Proofs.Text.Lines

/-!
# Columns of layout tables

Every line of a layout table is six cells with two blanks between them.  A cell is as wide as its
column, or as wide as what it holds if that is more, so a line is out of step behind a cell that
holds too much.  Names never do, since their column counts bytes and their cells characters.

* `Column.length_cell`: the width of a cell, and `cell_at_start`: its place in the line;
* `start_eq_iff`, `length_lineOf_eq_iff`: a line is in step as far as its cells hold no more than
  their columns;
* `fits_iff`: how large the numbers of an entry may be for that;
* `lines_table`: the lines of a table;
* `LayoutEntry.table_aligned_iff` puts these together.
-/

namespace WireTypes

namespace LayoutEntry

/-! ## Columns -/

/-- The columns of a layout table. -/
inductive Column where
  | name | kind | bits | stored | bytes | align
  deriving DecidableEq, Repr

namespace Column

def all : List Column := [.name, .kind, .bits, .stored, .bytes, .align]

/-- The columns at the left of one. -/
def before (c : Column) : List Column := all.takeWhile (· ≠ c)

/-- The columns at the right of one. -/
def behind (c : Column) : List Column := (all.dropWhile (· ≠ c)).drop 1

def width (w : Nat) : Column → Nat
  | .name => w
  | .kind => 7
  | .bits | .stored => 6
  | .bytes | .align => 5

def title : Column → String
  | .name => "type"
  | .kind => "kind"
  | .bits => "bits"
  | .stored => "stored"
  | .bytes => "bytes"
  | .align => "align"

/-- A text in a column: words at its left end, numbers at its right end. -/
def cell (w : Nat) (s : String) (c : Column) : String :=
  match c with
  | .name | .kind => padEnd (c.width w) s
  | .bits | .stored | .bytes | .align => padStart (c.width w) s

end Column

/-- What the line of an entry holds in a column. -/
def text (e : LayoutEntry) : Column → String
  | .name => e.name
  | .kind => e.kind
  | .bits => if e.sized then toString e.bits else "-"
  | .stored => if e.sized then toString e.storedBits else "-"
  | .bytes => if e.sized then toString e.bytes else "-"
  | .align => toString e.alignment

/-- The line that holds a text in each column. -/
def lineOf (w : Nat) (texts : Column → String) : String :=
  String.intercalate "  " (Column.all.map fun c => c.cell w (texts c))

/-- Where a column starts in such a line: the number of characters before it. -/
def start (w : Nat) (texts : Column → String) (c : Column) : Nat :=
  (c.before.map fun d => (d.cell w (texts d)).length + 2).sum

/-- What an entry says in a column is not longer than the column.  A name never is,
however many bytes it has. -/
def Fits (e : LayoutEntry) : Column → Prop
  | .name => True
  | .kind => e.kind.length ≤ 7
  | .bits => e.sized = true → e.bits < 1000000
  | .stored => e.sized = true → e.storedBits < 1000000
  | .bytes => e.sized = true → e.bytes < 100000
  | .align => e.alignment < 100000

instance (e : LayoutEntry) : DecidablePred e.Fits
  | .name => .isTrue trivial
  | .kind => inferInstanceAs (Decidable (e.kind.length ≤ 7))
  | .bits => inferInstanceAs (Decidable (e.sized = true → e.bits < 1000000))
  | .stored => inferInstanceAs (Decidable (e.sized = true → e.storedBits < 1000000))
  | .bytes => inferInstanceAs (Decidable (e.sized = true → e.bytes < 100000))
  | .align => inferInstanceAs (Decidable (e.alignment < 100000))

namespace Column

theorem mem_all (c : Column) : c ∈ all := by
  cases c <;> decide

theorem all_eq (c : Column) : all = c.before ++ c :: c.behind := by
  cases c <;> rfl

theorem length_cell (w : Nat) (s : String) (c : Column) :
    (c.cell w s).length = max (c.width w) s.length := by
  have hend : ∀ width, (padEnd width s).length = max width s.length := by
    intro width
    unfold padEnd
    rw [String.length_append, String.length_pushn, String.length_empty]
    omega
  have hstart : ∀ width, (padStart width s).length = max width s.length := by
    intro width
    unfold padStart
    rw [String.length_append, String.length_pushn, String.length_empty]
    omega
  cases c with
  | name | kind => exact hend _
  | bits | stored | bytes | align => exact hstart _

theorem length_title_le {w : Nat} (hw : 4 ≤ w) (c : Column) : c.title.length ≤ c.width w := by
  cases c with
  | name => exact hw
  | kind | bits | stored | bytes | align => exact Nat.le_of_ble_eq_true rfl

end Column

/-! ## Lines in step -/

section Lines

variable (w : Nat) (texts : Column → String)

/-- Cells are as wide together as their columns only if each of them is. -/
theorem sum_cells_eq_iff (cs : List Column) :
    (cs.map fun c => (c.cell w (texts c)).length + 2).sum = (cs.map fun c => c.width w + 2).sum ↔
      ∀ c ∈ cs, (texts c).length ≤ c.width w := by
  simp only [Column.length_cell]
  induction cs with
  | nil => simp
  | cons c cs ih =>
    have hrest : (cs.map fun c => c.width w + 2).sum ≤
        (cs.map fun c => max (c.width w) (texts c).length + 2).sum :=
      List.sum_le_sum fun d _ => Nat.add_le_add_right (Nat.le_max_left _ _) 2
    simp only [List.map_cons, List.sum_cons, List.forall_mem_cons, ← ih]
    omega

theorem start_eq_iff (c : Column) :
    start w texts c = (c.before.map fun d => d.width w + 2).sum ↔
      ∀ d ∈ c.before, (texts d).length ≤ d.width w :=
  sum_cells_eq_iff w texts c.before

theorem length_lineOf_eq_iff :
    (lineOf w texts).length + 2 = (Column.all.map fun c => c.width w + 2).sum ↔
      ∀ c, (texts c).length ≤ c.width w := by
  have hsum : (lineOf w texts).length + 2 =
      (Column.all.map fun c => (c.cell w (texts c)).length + 2).sum := by
    have hblanks : ("  " : String).length = 2 := rfl
    rw [← hblanks]
    exact length_intercalate "  " _ _
  rw [hsum, sum_cells_eq_iff]
  exact ⟨fun h c => h c c.mem_all, fun h c _ => h c⟩

/-- The cell of a column stands where the column starts. -/
theorem cell_at_start (c : Column) :
    ((lineOf w texts).toList.drop (start w texts c)).take (c.cell w (texts c)).length =
      (c.cell w (texts c)).toList := by
  have hline : ∃ left right, (lineOf w texts).toList =
      left ++ ((c.cell w (texts c)).toList ++ right) ∧
      left.length = start w texts c := by
    unfold lineOf
    rw [c.all_eq, List.map_append, List.map_cons, intercalate_append_cons, String.toList_append,
      String.toList_append]
    refine ⟨_, _, rfl, ?_⟩
    rw [String.length_toList, length_join, List.map_map, List.map_map]
    exact congrArg List.sum (List.map_congr_left fun d _ => String.length_append _ _)
  obtain ⟨left, right, htext, hleft⟩ := hline
  rw [htext, ← hleft, List.drop_left, ← String.length_toList, List.take_left]

end Lines

/-! ## The lines of a table -/

theorem foldl_max_le_iff {ns : List Nat} {m k : Nat} :
    ns.foldl max m ≤ k ↔ m ≤ k ∧ ∀ n ∈ ns, n ≤ k := by
  induction ns generalizing m with
  | nil => simp
  | cons n ns ih => rw [List.foldl_cons, ih, Nat.max_le, List.forall_mem_cons, and_assoc]

theorem title_le_nameWidth (entries : List LayoutEntry) : 4 ≤ nameWidth entries :=
  (foldl_max_le_iff.mp (Nat.le_refl _)).1

theorem length_name_le_nameWidth {entries : List LayoutEntry} {e : LayoutEntry} (he : e ∈ entries) :
    e.name.length ≤ nameWidth entries := by
  have hbytes := (foldl_max_le_iff.mp (Nat.le_refl (nameWidth entries))).2 e.name.utf8ByteSize
    (List.mem_map.mpr ⟨e, he, rfl⟩)
  exact Nat.le_trans (length_le_utf8ByteSize e.name) hbytes

theorem fits_iff {entries : List LayoutEntry} {e : LayoutEntry} (he : e ∈ entries) (c : Column) :
    (e.text c).length ≤ c.width (nameWidth entries) ↔ e.Fits c := by
  have hnumber : ∀ (n : UInt32) (k : Nat), 0 < k →
      ((if e.sized then toString n else "-").length ≤ k ↔
        (e.sized = true → n.toNat < Nat.pow 10 k)) := by
    intro n k hk
    cases e.sized with
    | true => simp only [if_true, length_toString_le_iff hk, true_imp_iff]
    | false =>
      have hdash : ("-" : String).length = 1 := rfl
      simpa [hdash] using Nat.one_le_of_lt hk
  cases c with
  | name => exact iff_of_true (length_name_le_nameWidth he) trivial
  | kind => exact Iff.rfl
  | bits => exact hnumber e.bits 6 (by decide)
  | stored => exact hnumber e.storedBits 6 (by decide)
  | bytes => exact hnumber e.bytes 5 (by decide)
  | align => exact length_toString_le_iff (Nat.succ_pos 4)

theorem oneLine_cell {w : Nat} {s : String} (h : OneLine s) (c : Column) :
    OneLine (c.cell w s) := by
  cases c with
  | name | kind => exact oneLine_append.mpr ⟨h, oneLine_spaces _⟩
  | bits | stored | bytes | align => exact oneLine_append.mpr ⟨oneLine_spaces _, h⟩

theorem oneLine_lineOf {w : Nat} {texts : Column → String} (h : ∀ c, OneLine (texts c)) :
    OneLine (lineOf w texts) := by
  unfold lineOf Column.all
  rw [List.map_cons, intercalate_cons_eq, oneLine_append]
  refine ⟨oneLine_cell (h _) _, oneLine_join fun s hs => ?_⟩
  rw [List.mem_map] at hs
  obtain ⟨cell, hcell, rfl⟩ := hs
  rw [List.mem_map] at hcell
  obtain ⟨c, -, rfl⟩ := hcell
  exact oneLine_append.mpr ⟨by decide, oneLine_cell (h c) c⟩

theorem oneLine_text {e : LayoutEntry} (hname : OneLine e.name) (hkind : OneLine e.kind)
    (c : Column) : OneLine (e.text c) := by
  have hnumber : ∀ n : UInt32, OneLine (if e.sized then toString n else "-") := by
    intro n
    split
    · exact oneLine_toString n
    · decide
  cases c with
  | name => exact hname
  | kind => exact hkind
  | bits | stored | bytes => exact hnumber _
  | align => exact oneLine_toString _

/-- What the lines of the table hold: the titles, and what each entry says. -/
def rows (entries : List LayoutEntry) : List (Column → String) := Column.title :: entries.map text

theorem table_eq (entries : List LayoutEntry) :
    table entries =
      String.join (((rows entries).map (lineOf (nameWidth entries))).map (· ++ "\n")) := by
  unfold rows
  rw [List.map_cons, List.map_cons, String.join_cons, List.map_map, List.map_map]
  rfl

theorem lines_table {entries : List LayoutEntry}
    (h : ∀ e ∈ entries, OneLine e.name ∧ OneLine e.kind) :
    lines (table entries) = (rows entries).map (lineOf (nameWidth entries)) := by
  rw [table_eq]
  refine lines_join fun l hl => ?_
  obtain ⟨r, hr, rfl⟩ := List.mem_map.mp hl
  refine oneLine_lineOf fun c => ?_
  rcases List.mem_cons.mp hr with rfl | hr
  · cases c <;> decide
  · obtain ⟨e, he, rfl⟩ := List.mem_map.mp hr
    exact oneLine_text (h e he).1 (h e he).2 c

/-- A measure of rows is the same for all of them exactly if it is that of the titles. -/
theorem forall_rows_iff (f : (Column → String) → Nat) (entries : List LayoutEntry) :
    (∃ n, ∀ r ∈ rows entries, f r = n) ↔ ∀ e ∈ entries, f e.text = f Column.title := by
  unfold rows
  simp only [List.forall_mem_cons, List.forall_mem_map]
  exact ⟨fun ⟨n, htitle, h⟩ e he => (h e he).trans htitle.symm, fun h => ⟨_, rfl, h⟩⟩

theorem aligned_column_iff (entries : List LayoutEntry) (c : Column) :
    (∃ p, ∀ r ∈ rows entries, start (nameWidth entries) r c = p) ↔
      ∀ e ∈ entries, ∀ d ∈ c.before, e.Fits d := by
  have htitle := (start_eq_iff (nameWidth entries) Column.title c).mpr
    fun d _ => d.length_title_le (title_le_nameWidth entries)
  rw [forall_rows_iff fun r => start (nameWidth entries) r c, htitle]
  refine forall₂_congr fun e he => ?_
  rw [start_eq_iff]
  exact forall₂_congr fun d _ => fits_iff he d

theorem equal_lines_iff (entries : List LayoutEntry) :
    (∃ n, ∀ r ∈ rows entries, (lineOf (nameWidth entries) r).length = n) ↔
      ∀ e ∈ entries, ∀ c, e.Fits c := by
  have htitle := (length_lineOf_eq_iff (nameWidth entries) Column.title).mpr
    fun d => d.length_title_le (title_le_nameWidth entries)
  rw [forall_rows_iff fun r => (lineOf (nameWidth entries) r).length]
  refine forall₂_congr fun e he => ?_
  rw [← Nat.add_right_cancel_iff (n := 2), htitle, length_lineOf_eq_iff]
  exact forall_congr' fun c => fits_iff he c

theorem kind_of_layout (c : CType) : OneLine c.layout.kind ∧ c.layout.Fits .kind := by
  have hwords : ∀ s ∈ ["bool", "scalar", "header", "struct", "union", "enum", "stack", "typedef"],
      OneLine s ∧ s.length ≤ 7 := by decide
  refine hwords c.kindName ?_
  cases c with
  | aggregate form _ _ _ _ => cases form <;> simp [CType.kindName, AggregateForm.keyword]
  | bool | scalar | header | enum | stack | named => simp [CType.kindName]

/-- **Alignment of tables.**  The lines of a table are the titles and one line for each entry, and
in each line the text of a column stands where the column starts.  A column starts at the same
character in all lines exactly if every entry fits into the columns before it, and all lines have
the same number of characters exactly if every entry fits into all columns.  Names fit into theirs,
and so do the kinds of all types; numbers fit if widths are below a million, sizes and alignments
below a hundred thousand. -/
theorem table_aligned_iff {entries : List LayoutEntry}
    (h : ∀ e ∈ entries, OneLine e.name ∧ OneLine e.kind) :
    let w := nameWidth entries
    lines (table entries) = (rows entries).map (lineOf w) ∧
    (∀ r ∈ rows entries, ∀ c,
      ((lineOf w r).toList.drop (start w r c)).take (c.cell w (r c)).length =
      (c.cell w (r c)).toList) ∧
    (∀ c, (∃ p, ∀ r ∈ rows entries, start w r c = p) ↔ ∀ e ∈ entries, ∀ d ∈ c.before, e.Fits d) ∧
    ((∃ n, ∀ l ∈ lines (table entries), l.length = n) ↔ ∀ e ∈ entries, ∀ c, e.Fits c) ∧
    ∀ c : CType, OneLine c.layout.kind ∧ c.layout.Fits .kind := by
  intro w
  refine ⟨lines_table h, fun r _ c => cell_at_start w r c, aligned_column_iff entries, ?_,
    kind_of_layout⟩
  rw [lines_table h, ← equal_lines_iff]
  simp only [List.forall_mem_map]

/-- Names with more bytes than characters, and a type without widths between two that have some. -/
theorem table_aligned_iff_accented :
    let entries := [(CType.header "größe_t" 800 .dummy).layout,
        (CType.aggregate .struct "Δ_t" .dummy [] true).layout,
      (CType.header "ethernet_t" 112 .dummy).layout]
    (∀ e ∈ entries, OneLine e.name ∧ OneLine e.kind) ∧
      (∃ n, ∀ l ∈ lines (table entries), l.length = n) ∧
      ∀ c, ∃ p, ∀ r ∈ rows entries, start (nameWidth entries) r c = p := by
  intro entries
  have hlines : ∀ e ∈ entries, OneLine e.name ∧ OneLine e.kind := by decide +kernel
  have hfits : ∀ e ∈ entries, ∀ c, e.Fits c := by
    intro e he c
    simp only [entries, List.mem_cons, List.not_mem_nil, or_false] at he
    rcases he with rfl | rfl | rfl <;> cases c <;> decide +kernel
  obtain ⟨-, -, hcolumns, hlengths, -⟩ := table_aligned_iff hlines
  exact ⟨hlines, hlengths.mpr hfits, fun c => (hcolumns c).mpr fun e he d _ => hfits e he d⟩

/-- A header of a hundred thousand bytes does not fit. -/
theorem not_aligned_wide :
    let entries :=
      [(CType.header "narrow_t" 8 .dummy).layout, (CType.header "wide_t" 800000 .dummy).layout]
    (∀ e ∈ entries, OneLine e.name ∧ OneLine e.kind) ∧
      (¬ ∃ n, ∀ l ∈ lines (table entries), l.length = n) ∧
      ¬ ∃ p, ∀ r ∈ rows entries, start (nameWidth entries) r .align = p := by
  intro entries
  have hlines : ∀ e ∈ entries, OneLine e.name ∧ OneLine e.kind := by decide +kernel
  have hwide : ¬ (CType.header "wide_t" 800000 .dummy).layout.Fits .bytes := by decide +kernel
  have hmem : (CType.header "wide_t" 800000 .dummy).layout ∈ entries :=
    List.mem_cons_of_mem _ List.mem_cons_self
  refine ⟨hlines, ?_, ?_⟩
  · rw [lines_table hlines]
    simp only [List.forall_mem_map, equal_lines_iff]
    exact fun h => hwide (h _ hmem .bytes)
  · rw [aligned_column_iff]
    exact fun h => hwide (h _ hmem .bytes (by decide))

end LayoutEntry

end WireTypes
