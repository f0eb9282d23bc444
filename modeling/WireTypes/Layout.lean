import WireTypes.Lower.Basic

/-!
# Layout tables

Widths, size and alignment of types, and a table of them for people to read.  A type without a fixed
width has a row too; its widths are zero in the entry, dashes in the table, and a problem is
reported for each of the two widths that were asked for.
-/

namespace WireTypes

/-- The widths of one type. -/
structure LayoutEntry where
  name : String
  kind : String
  bits : UInt32
  storedBits : UInt32
  bytes : UInt32
  alignment : UInt32
  /-- The widths are those of the type, and not zeros in their place. -/
  sized : Bool
  deriving DecidableEq, Repr

namespace CType

/-- A width was asked for and there is none. -/
def widthOfUnsized (ty : CType) : Diagnostic :=
  (Diagnostic.error .widthOfUnsized s!"type `{ty.display}` does not have a fixed width")
    |>.label (ty.span?.getD .dummy) "width requested here"

/-- What asking for a width reports. -/
def widthReports (ty : CType) : List Diagnostic := if ty.isSized then [] else [ty.widthOfUnsized]

/-- The widths, zero for a type that has none. -/
def extentOrZero (ty : CType) : Extent := ty.extent?.getD .zero

def layout (ty : CType) : LayoutEntry :=
  let e := ty.extentOrZero
  { name := ty.display
    kind := ty.kindName
    bits := e.logical
    storedBits := e.stored
    bytes := byteCount e.stored
    alignment := ty.alignment
    sized := ty.isSized }

end CType

namespace TypeTable

def layout (t : TypeTable) (ty : TypeId) (q : Queue) : Except LoweringError LayoutEntry × Queue :=
  match t.create ty q with
  | (.error e, q) => (.error e, q)
  | (.ok lowered, q) =>
    (.ok lowered.layout, (q.addAll lowered.widthReports).addAll lowered.widthReports)

/-- The rows of those types that can be lowered, in order.  Problems that were reported leave out a
row; any other error ends the report. -/
def layoutReport (t : TypeTable) (q : Queue) :
    List TypeId → Except LoweringError (List LayoutEntry) × Queue
  | [] => (.ok [], q)
  | ty :: rest =>
    match t.layout ty q with
    | (.ok entry, q) =>
      let (entries, q) := t.layoutReport q rest
      (entries.map (entry :: ·), q)
    | (.error .reported, q) => t.layoutReport q rest
    | (.error e, q) => (.error e, q)

end TypeTable

/-! ## Tables -/

namespace LayoutEntry

/-- Blanks behind a text, up to a number of characters. -/
def padEnd (width : Nat) (s : String) : String := s ++ "".pushn ' ' (width - s.length)

/-- Blanks in front of a text, up to a number of characters. -/
def padStart (width : Nat) (s : String) : String := "".pushn ' ' (width - s.length) ++ s

/-- One line: name and kind at the left of their columns, four numbers at the right of theirs. -/
def line (nameWidth : Nat) (name kind bits stored bytes align : String) : String :=
  String.intercalate "  "
    [padEnd nameWidth name, padEnd 7 kind, padStart 6 bits, padStart 6 stored, padStart 5 bytes,
     padStart 5 align] ++ "\n"

def row (nameWidth : Nat) (e : LayoutEntry) : String :=
  let width (n : UInt32) : String := if e.sized then toString n else "-"
  line nameWidth e.name e.kind (width e.bits) (width e.storedBits) (width e.bytes)
    (toString e.alignment)

/-- Width of the name column: the most bytes that a name, or the column's title, has in UTF-8. -/
def nameWidth (entries : List LayoutEntry) : Nat :=
  (entries.map (·.name.utf8ByteSize)).foldl max "type".utf8ByteSize

/-- The table: a line of titles, then the entries. -/
def table (entries : List LayoutEntry) : String :=
  let width := nameWidth entries
  line width "type" "kind" "bits" "stored" "bytes" "align" ++ String.join (entries.map (row width))

end LayoutEntry

end WireTypes
