import WireTypes.Interner
import WireTypes.Span

/-!
# Type nodes

A protocol type is a node that refers to other nodes by their position in the table.  All of a type
is spelled out but for `named` nodes, which stand for whatever is declared under their name.
-/

namespace WireTypes

/-- Position of a node in a table. -/
abbrev TypeId := Nat

/-- A struct holds all its members, a header union one of them at a time. -/
inductive AggregateForm where
  | struct
  | union
  deriving DecidableEq, Repr

def AggregateForm.keyword : AggregateForm → String
  | .struct => "struct"
  | .union => "union"

/-- A field of a header, struct or header union. -/
structure Field where
  name : Name
  type : TypeId
  span : Span
  deriving DecidableEq, Repr

/-- The shape of a type. -/
inductive Kind where
  | bool
  | bits (width : UInt32) (signed : Bool)
  | varbits (width : UInt32)
  | header (name : Name) (fields : List Field)
  | aggregate (form : AggregateForm) (name : Name) (fields : List Field)
  | enum (name : Name) (members : List Name)
  | stack (element : TypeId) (size : UInt32)
  | named (name : Name)
  deriving DecidableEq, Repr

namespace Kind

def fields? : Kind → Option (List Field)
  | .header _ fields => some fields
  | .aggregate _ _ fields => some fields
  | _ => none

/-- The name a type is declared or referred to under. -/
def name? : Kind → Option Name
  | .header name _ => some name
  | .aggregate _ name _ => some name
  | .enum name _ => some name
  | .named name => some name
  | _ => none

/-- What a message calls the type. -/
def describe : Kind → String
  | .bool => "bool"
  | .bits _ false => "bit type"
  | .bits _ true => "int type"
  | .varbits _ => "varbit type"
  | .header _ _ => "header"
  | .aggregate .struct _ _ => "struct"
  | .aggregate .union _ _ => "header union"
  | .enum _ _ => "enum"
  | .stack _ _ => "header stack"
  | .named _ => "type name"

end Kind

/-- A type and the place it was spelled at. -/
structure Node where
  kind : Kind
  span : Span
  deriving DecidableEq, Repr

end WireTypes
