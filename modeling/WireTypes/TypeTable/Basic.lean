import WireTypes.TypeRef.Basic
import WireTypes.TypeTable.Node

/-!
# Type tables

All types of a description: the nodes, the spellings of their names, and which node each declared
name stands for.  A table only grows.  Operations that make a node answer its id and the larger
table.
-/

namespace WireTypes

/-- Nodes by id, names by spelling, declarations by name; of two declarations of a name the
first in the list counts. -/
structure TypeTable where
  interner : Interner
  nodes : Array Node
  definitions : List (Name × TypeId)
  deriving Repr

namespace TypeTable

def empty : TypeTable := ⟨.initial, #[], []⟩

instance : EmptyCollection TypeTable := ⟨empty⟩

instance : Inhabited TypeTable := ⟨empty⟩

def size (t : TypeTable) : Nat := t.nodes.size

/-- What an id outside the table reads as: a reference to the empty name. -/
def noNode : Node := ⟨.named .empty, .dummy⟩

def node (t : TypeTable) (ty : TypeId) : Node := t.nodes.getD ty noNode

/-- The shape of an id. -/
def kind (t : TypeTable) (ty : TypeId) : Kind := (t.node ty).kind

def spelling (t : TypeTable) (n : Name) : String := t.interner.spelling n

/-- The node declared under a name. -/
def lookup (t : TypeTable) (n : Name) : Option TypeId := t.definitions.lookup n

/-! ## Growth -/

def intern (t : TypeTable) (s : String) : Name × TypeTable :=
  let (n, names) := t.interner.intern s
  (n, { t with interner := names })

def internAll (t : TypeTable) (ss : List String) : List Name × TypeTable :=
  let (ns, names) := t.interner.internAll ss
  (ns, { t with interner := names })

def alloc (t : TypeTable) (kind : Kind) (span : Span := .dummy) : TypeId × TypeTable :=
  (t.size, { t with nodes := t.nodes.push ⟨kind, span⟩ })

/-- Lets `n` stand for `ty` from now on. -/
def define (t : TypeTable) (n : Name) (ty : TypeId) : TypeTable :=
  { t with definitions := (n, ty) :: t.definitions }

/-- The node declared under a spelling, which becomes a name if it was none. -/
def lookupSpelling (t : TypeTable) (s : String) : Option TypeId × TypeTable :=
  let (n, t) := t.intern s
  (t.lookup n, t)

/-- A node that refers to whatever is declared under a spelling. -/
def allocNamed (t : TypeTable) (s : String) (span : Span := .dummy) : TypeId × TypeTable :=
  let (n, t) := t.intern s
  t.alloc (.named n) span

/-- A new node, declared under the name it carries. -/
def declare (t : TypeTable) (n : Name) (kind : Kind) (span : Span := .dummy) : TypeId × TypeTable :=
  let (ty, t) := t.alloc kind span
  (ty, t.define n ty)

/-- Fields without a place of their own, from spellings and ids. -/
def internFields (t : TypeTable) (fields : List (String × TypeId)) : List Field × TypeTable :=
  let (names, t) := t.internAll (fields.map (·.1))
  (names.zipWith (fun n f => ⟨n, f.2, .dummy⟩) fields, t)

def declareHeader (t : TypeTable) (s : String) (fields : List (String × TypeId)) :
    TypeId × TypeTable :=
  let (n, t) := t.intern s
  let (fs, t) := t.internFields fields
  t.declare n (.header n fs)

def declareAggregate (t : TypeTable) (form : AggregateForm) (s : String)
    (fields : List (String × TypeId)) : TypeId × TypeTable :=
  let (n, t) := t.intern s
  let (fs, t) := t.internFields fields
  t.declare n (.aggregate form n fs)

def declareEnum (t : TypeTable) (s : String) (members : List String) : TypeId × TypeTable :=
  let (n, t) := t.intern s
  let (ms, t) := t.internAll members
  t.declare n (.enum n ms)

/-- Declares another name for a node. -/
def declareTypedef (t : TypeTable) (s : String) (ty : TypeId) : TypeTable :=
  let (n, t) := t.intern s
  t.define n ty

/-- The nodes of a reference, innermost first; all carry `span`. -/
def allocRef (t : TypeTable) (span : Span) : TypeRef → TypeId × TypeTable
  | .bool => t.alloc .bool span
  | .bits width signed => t.alloc (.bits width signed) span
  | .varbits width => t.alloc (.varbits width) span
  | .named name => t.allocNamed name span
  | .stack element size =>
    let (e, t) := t.allocRef span element
    t.alloc (.stack e size) span

/-! ## Spelling -/

/-- The reference that spells a node.  An element that does not come before its stack is left
out. -/
def reference (t : TypeTable) (ty : TypeId) : TypeRef :=
  match t.kind ty with
  | .bool => .bool
  | .bits width signed => .bits width signed
  | .varbits width => .varbits width
  | .header n _ => .named (t.spelling n)
  | .aggregate _ n _ => .named (t.spelling n)
  | .enum n _ => .named (t.spelling n)
  | .named n => .named (t.spelling n)
  | .stack element size => .stack (if element < ty then t.reference element else .named "") size
termination_by ty

/-- The source text of a node's type. -/
def display (t : TypeTable) (ty : TypeId) : String := (t.reference ty).display

end TypeTable

end WireTypes
