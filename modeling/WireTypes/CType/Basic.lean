import WireTypes.Span
import WireTypes.TypeRef.Basic
import WireTypes.TypeTable.Node
import WireTypes.Width

/-!
# C types

What a protocol type becomes in C.  A C type is a finite tree that knows everything its text needs;
its widths are read off the tree.

* `extent?`: logical and stored width, if they are fixed;
* `alignment`: alignment of the C object in bytes;
* `display`, `kindName`: what messages and tables call the type.
-/

namespace WireTypes

/-- A member of a struct or union, beside its type. -/
structure Member where
  name : String
  /-- The type as the source spells it. -/
  source : String
  /-- More text for the comment. -/
  comment : Option String
  deriving DecidableEq, Repr

inductive CType where
  /-- one bit in a byte -/
  | bool
  /-- an integer, or a byte array if no integer is wide enough -/
  | scalar (width : UInt32) (signed : Bool)
  /-- the bytes of a header and a byte that tells whether it is present -/
  | header (name : String) (width : UInt32) (span : Span)
  /-- a struct or union; a lossy one lacks members that could not be lowered -/
  | aggregate (form : AggregateForm) (name : String) (span : Span) (members : List (Member × CType))
    (lossy : Bool)
  /-- named constants -/
  | enum (name : String) (members : List String) (span : Span)
  /-- an array of `size` elements, each of the extent given -/
  | stack (element : CType) (elementExtent : Extent) (size : UInt32)
  /-- a type known under another name -/
  | named (name : String) (span : Span) (canonical : CType)
  deriving Repr

instance : Inhabited CType := ⟨.bool⟩

namespace CType

def enumExtent : Extent := ⟨32, 32⟩

def scalarExtent (width : UInt32) : Extent := ⟨width, (Storage.ofBits width).bits⟩

/-- Sum of the extents that are fixed. -/
def sumExtents (es : List (Option Extent)) : Extent := (es.filterMap id).foldl Extent.add .zero

mutual

/-- Logical and stored width; `none` for what has no fixed width. -/
def extent? : CType → Option Extent
  | .bool => some ⟨1, 8⟩
  | .scalar width _ => some (scalarExtent width)
  | .header _ width _ => some ⟨width, width⟩
  | .aggregate _ _ _ members lossy =>
    let es := memberExtents members
    if lossy || es.any Option.isNone then none else some (sumExtents es)
  | .enum _ _ _ => some enumExtent
  | .stack _ elementExtent size => some (elementExtent.scale size)
  | .named _ _ canonical => canonical.extent?

def memberExtents : List (Member × CType) → List (Option Extent)
  | [] => []
  | (_, ty) :: rest => ty.extent? :: memberExtents rest

end

theorem memberExtents_eq_map (members : List (Member × CType)) :
    memberExtents members = members.map (·.2.extent?) := by
  induction members with
  | nil => rfl
  | cons m rest ih => simp [memberExtents, ih]

def isSized (ty : CType) : Bool := ty.extent?.isSome

/-- A struct or union without fixed width: a member was left out, or one has no fixed width
itself. -/
def isPoisoned (members : List (Member × CType)) (lossy : Bool) : Bool :=
  lossy || (memberExtents members).any Option.isNone

/-- Sum over the members that have a fixed width. -/
def partialExtent (members : List (Member × CType)) : Extent := sumExtents (memberExtents members)

mutual

/-- Alignment of the C object; at least one byte. -/
def alignment : CType → UInt32
  | .bool => 1
  | .scalar width _ => (Storage.ofBits width).alignment
  | .header _ _ _ => 1
  | .aggregate _ _ _ members _ => membersAlignment members
  | .enum _ _ _ => 4
  | .stack element _ _ => element.alignment
  | .named _ _ canonical => canonical.alignment

/-- The largest alignment of a member; 1 if there is none. -/
def membersAlignment : List (Member × CType) → UInt32
  | [] => 1
  | (_, ty) :: rest => max ty.alignment (membersAlignment rest)

end

def hasDefinition : CType → Bool
  | .header _ _ _ => true
  | .aggregate _ _ _ _ _ => true
  | .enum _ _ _ => true
  | _ => false

/-- Where a type with a name comes from. -/
def span? : CType → Option Span
  | .header _ _ span => some span
  | .aggregate _ _ span _ _ => some span
  | .enum _ _ span => some span
  | .named _ span _ => some span
  | _ => none

/-- The name, or the spelling of a type without name. -/
def display : CType → String
  | .bool => "bool"
  | .scalar width signed => TypeRef.displayBits width signed
  | .header name _ _ => name
  | .aggregate _ name _ _ _ => name
  | .enum name _ _ => name
  | .stack element _ size => s!"{element.display}[{size}]"
  | .named name _ _ => name

def kindName : CType → String
  | .bool => "bool"
  | .scalar _ _ => "scalar"
  | .header _ _ _ => "header"
  | .aggregate form _ _ _ _ => form.keyword
  | .enum _ _ _ => "enum"
  | .stack _ _ _ => "stack"
  | .named _ _ _ => "typedef"

end CType

end WireTypes
