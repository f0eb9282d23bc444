import WireTypes.CType.Emit
import WireTypes.Lower.Basic

/-!
# C units

A unit is what goes into one C text: a list of types to define and a list of variables to declare.
Each item is lowered with a writer and a queue of its own, so no item depends on another; then the
texts and the queues are joined in order.  Items that are lowered side by side come out the same, so
there is one way to lower a unit, and `Style.parallel` changes nothing in it.
-/

namespace WireTypes

/-- A variable to declare and set to zero. -/
structure Variable where
  name : String
  type : TypeId
  deriving DecidableEq, Repr

/-- Definitions, then variables. -/
structure CUnit where
  types : List TypeId
  vars : List Variable
  deriving DecidableEq, Repr

/-- The C text of a unit, complete even where errors were reported, and all reports by position. -/
structure LoweredUnit where
  code : String
  diagnostics : List Diagnostic
  success : Bool
  deriving DecidableEq, Repr

namespace CUnit

/-- First line of a unit. -/
def banner : String := "/* Automatically generated by pebble. Do not edit. */\n"

/-- Second line of a unit: the header of the integer types. -/
def includeLine : String := "#include <linux/types.h>\n"

/-- The lines before the first section. -/
def preamble (style : Style) : String := if style.preamble then banner ++ includeLine else ""

/-- A type to define or a variable to declare. -/
inductive Item where
  | definition (type : TypeId)
  | declaration (v : Variable)
  deriving DecidableEq, Repr

namespace Item

def type : Item → TypeId
  | .definition ty => ty
  | .declaration v => v.type

/-- Writes an item whose type is lowered.  Types without a definition of their own write nothing. -/
def emit (item : Item) (lowered : CType) (w : Writer) : Written :=
  match item with
  | .definition _ => if lowered.hasDefinition then lowered.emit w else .done w
  | .declaration v => lowered.emitVariable v.name w

/-- Text and reports of an item.  An error that nobody has reported yet is reported, and takes
what was written with it. -/
def lower (t : TypeTable) (style : Style) (item : Item) (q : Queue) : String × Queue :=
  let (created, q) := t.create item.type q
  let written : Written :=
    match created with
    | .ok lowered => item.emit lowered (.ofStyle style)
    | .error e => ⟨.ofStyle style, .error e⟩
  match written.result with
  | .ok () => (written.writer.output, q)
  | .error e =>
    match e.diagnostic? with
    | some d => ("", q.add d)
    | none => (written.writer.output, q)

end Item

/-- Sections with one empty line between them and behind what comes before. -/
def joinSections (before : String) (sections : List String) : String :=
  sections.foldl (fun out s => (if out.isEmpty then out else out ++ "\n") ++ s) before

/-- The sections: every definition that has a text, then all declarations in one. -/
def sections (definitions declarations : List String) : List String :=
  (definitions ++ [String.join declarations]).filter (!·.isEmpty)

def lower (u : CUnit) (t : TypeTable) (style : Style) (config : QueueConfig) : LoweredUnit :=
  let q := Queue.ofConfig config
  let run (item : Item) : String × Queue := item.lower t style q.fork
  let definitions := u.types.map (run ∘ .definition)
  let declarations := u.vars.map (run ∘ .declaration)
  let q := ((definitions ++ declarations).map (·.2)).foldl Queue.append q
  { code :=
      joinSections (preamble style) (sections (definitions.map (·.1)) (declarations.map (·.1)))
    diagnostics := q.listing
    success := !q.hasErrors }

end CUnit

end WireTypes
