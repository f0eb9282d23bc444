import WireTypes.Span

/-!
# Descriptions

What a description declares: types, then variables.  Types are referred to by a `ρ`, which is the
text of a reference in a description as it is read, and a `TypeRef` once the references are parsed.
-/

namespace WireTypes

structure FieldDecl (ρ : Type) where
  name : String
  type : ρ
  span : Span
  deriving DecidableEq, Repr

inductive DeclKind where
  | typedef
  | header
  | struct
  | headerUnion
  | enum
  deriving DecidableEq, Repr

/-- What is declared under a name. -/
inductive DeclBody (ρ : Type) where
  | typedef (target : ρ)
  | header (fields : List (FieldDecl ρ))
  | struct (fields : List (FieldDecl ρ))
  | headerUnion (fields : List (FieldDecl ρ))
  | enum (members : List String)
  deriving DecidableEq, Repr

structure Declaration (ρ : Type) where
  name : String
  span : Span
  body : DeclBody ρ
  deriving DecidableEq, Repr

structure VariableDecl (ρ : Type) where
  name : String
  type : ρ
  deriving DecidableEq, Repr

structure Description (ρ : Type) where
  types : List (Declaration ρ)
  vars : List (VariableDecl ρ)
  deriving DecidableEq, Repr

/-- The declaration gives a type of its own, and not another name for one. -/
def Declaration.isDefinition {ρ : Type} (d : Declaration ρ) : Bool :=
  match d.body with
  | .typedef _ => false
  | _ => true

end WireTypes
