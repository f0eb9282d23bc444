import WireTypes.Description.Decode
import WireTypes.CUnit
import WireTypes.TypeRef.Parse
import WireTypes.TypeTable.Basic

/-!
# Loading descriptions

From a description to a type table and a unit over it.  First all references are parsed and repeated
names refused; this is all that can fail.  Then the table is built, declaration by declaration.  A
name may be used before it is declared, or without being declared at all.
-/

namespace WireTypes

/-- Why a text is no description. -/
inductive LoadError where
  | json (fault : Json.Fault)
  | malformedType (text : String)
  | duplicateType (name : String)
  deriving DecidableEq, Repr

/-- A type table and what to lower of it. -/
structure Loaded where
  table : TypeTable
  unit : CUnit

namespace Description

/-! ## Parsing references -/

def parseRef (text : String) : Except LoadError TypeRef :=
  (TypeRef.parse text).mapError .malformedType

/-- Parses the references of fields, in order. -/
def parseFields (fields : List (FieldDecl String)) : Except LoadError (List (FieldDecl TypeRef)) :=
  fields.mapM fun f => do return { name := f.name, type := ← parseRef f.type, span := f.span }

/-- Parses the references of a declaration, in order. -/
def parseBody : DeclBody String → Except LoadError (DeclBody TypeRef)
  | .typedef target => .typedef <$> parseRef target
  | .header fields => .header <$> parseFields fields
  | .struct fields => .struct <$> parseFields fields
  | .headerUnion fields => .headerUnion <$> parseFields fields
  | .enum members => .ok (.enum members)

/-- Parses declarations in order.  A name that is declared already, or is among `seen`, is refused
once the references of its declaration are parsed. -/
def parseTypes (seen : List String) :
    List (Declaration String) → Except LoadError (List (Declaration TypeRef))
  | [] => .ok []
  | d :: rest => do
    let body ← parseBody d.body
    if d.name ∈ seen then throw (.duplicateType d.name)
    let rest ← parseTypes (d.name :: seen) rest
    return ⟨d.name, d.span, body⟩ :: rest

/-- Parses all references: of the types, then of the variables. -/
def parse (d : Description String) : Except LoadError (Description TypeRef) := do
  let types ← parseTypes [] d.types
  let vars ← d.vars.mapM fun v => do return ⟨v.name, ← parseRef v.type⟩
  return ⟨types, vars⟩

end Description

/-! ## Building the table -/

namespace TypeTable

/-- Fields in order; the nodes of a field carry the span of the field. -/
def addFields (t : TypeTable) : List (FieldDecl TypeRef) → List Field × TypeTable
  | [] => ([], t)
  | f :: rest =>
    let (n, t) := t.intern f.name
    let (ty, t) := t.allocRef f.span f.type
    let (fields, t) := t.addFields rest
    (⟨n, ty, f.span⟩ :: fields, t)

/-- A node with fields, declared under a name. -/
def addRecord (t : TypeTable) (name : String) (span : Span) (fields : List (FieldDecl TypeRef))
    (kind : Name → List Field → Kind) : TypeId × TypeTable :=
  let (n, t) := t.intern name
  let (fs, t) := t.addFields fields
  t.declare n (kind n fs) span

/-- A declaration, and the node that its name stands for. -/
def addDeclaration (t : TypeTable) (d : Declaration TypeRef) : TypeId × TypeTable :=
  match d.body with
  | .typedef target =>
    let (ty, t) := t.allocRef d.span target
    (ty, t.declareTypedef d.name ty)
  | .header fields => t.addRecord d.name d.span fields .header
  | .struct fields => t.addRecord d.name d.span fields (.aggregate .struct)
  | .headerUnion fields => t.addRecord d.name d.span fields (.aggregate .union)
  | .enum members =>
    let (n, t) := t.intern d.name
    let (ms, t) := t.internAll members
    t.declare n (.enum n ms) d.span

/-- Declarations in order, and the nodes of those that are definitions. -/
def addDeclarations (t : TypeTable) : List (Declaration TypeRef) → List TypeId × TypeTable
  | [] => ([], t)
  | d :: rest =>
    let (ty, t) := t.addDeclaration d
    let (types, t) := t.addDeclarations rest
    (if d.isDefinition then ty :: types else types, t)

/-- Variables in order; their nodes have no span. -/
def addVariables (t : TypeTable) : List (VariableDecl TypeRef) → List Variable × TypeTable
  | [] => ([], t)
  | v :: rest =>
    let (ty, t) := t.allocRef .dummy v.type
    let (vars, t) := t.addVariables rest
    (⟨v.name, ty⟩ :: vars, t)

end TypeTable

namespace Description

/-- The table and the unit of a parsed description. -/
def build (d : Description TypeRef) : Loaded :=
  let (types, t) := TypeTable.empty.addDeclarations d.types
  let (vars, t) := t.addVariables d.vars
  ⟨t, ⟨types, vars⟩⟩

def load (d : Description String) : Except LoadError Loaded := d.parse.map build

def loadText (text : String) : Except LoadError Loaded := do
  let d ← (ofText text).mapError .json
  d.load

end Description

end WireTypes
