/-!
# Type references

How a description spells a type: `bool`, `bit<8>`, `int<8>`, `varbit<8>`, a declared name, and any
of these with stack suffixes, `ipv4_t[2][3]` being three stacks of two.  `display` is the canonical
spelling.
-/

namespace WireTypes

/-- A spelled type, before any name is looked up. -/
inductive TypeRef where
  | bool
  | bits (width : UInt32) (signed : Bool)
  | varbits (width : UInt32)
  | named (name : String)
  | stack (element : TypeRef) (size : UInt32)
  deriving DecidableEq, Repr

namespace TypeRef

def bitsKeyword (signed : Bool) : String := if signed then "int" else "bit"

/-- `bit<width>` or `int<width>` -/
def displayBits (width : UInt32) (signed : Bool) : String := s!"{bitsKeyword signed}<{width}>"

/-- The canonical spelling: no blanks, no leading zeros, suffixes from the
innermost stack outwards. -/
def display : TypeRef → String
  | .bool => "bool"
  | .bits width signed => displayBits width signed
  | .varbits width => s!"varbit<{width}>"
  | .named name => name
  | .stack element size => s!"{element.display}[{size}]"

end TypeRef

end WireTypes
