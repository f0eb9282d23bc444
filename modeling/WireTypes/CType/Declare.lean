import WireTypes.CType.Basic
import WireTypes.LoweringError

/-!
# Declarations

The text that declares an identifier: its type before it, and behind it the sizes of arrays.
Scalars wider than 64 bits are byte arrays; a stack puts its size behind the declaration of its
element, which only headers, structs, unions and other names of types allow.
-/

namespace WireTypes.CType

/-- The C type of bytes, booleans and validity flags. -/
def byteType : String := "u8"

/-- `[size]` -/
def bracket (size : UInt32) : String := s!"[{size}]"

/-- The integer type of a scalar; a pointer to bytes if none is wide enough. -/
def scalarToken (width : UInt32) (signed : Bool) : String :=
  match (Storage.ofBits width).integerBits? with
  | some bits => (if signed then "s" else "u") ++ toString bits
  | none => byteType ++ "*"

def declareScalar (width : UInt32) (signed : Bool) (id : String) : String :=
  match Storage.ofBits width with
  | .bytes count => s!"{byteType} {id}{bracket count}"
  | _ => s!"{scalarToken width signed} {id}"

def declareTagged (keyword tag id : String) : String := s!"{keyword} {tag} {id}"

mutual

/-- The text that declares `id`. -/
def declare : CType → String → Except LoweringError String
  | .bool, id => .ok s!"{byteType} {id}"
  | .scalar width signed, id => .ok (declareScalar width signed id)
  | .header name _ _, id => .ok (declareTagged "struct" name id)
  | .aggregate form name _ _ _, id => .ok (declareTagged form.keyword name id)
  | .enum name _ _, id => .ok (declareTagged "enum" name id)
  | .stack element _ size, id => element.declareArray id size
  | .named _ _ canonical, id => canonical.declare id

/-- The text that declares `id` as an array of `size` elements. -/
def declareArray : CType → String → UInt32 → Except LoweringError String
  | .header name _ _, id, size => .ok (declareTagged "struct" name id ++ bracket size)
  | .aggregate form name _ _ _, id, size => .ok (declareTagged form.keyword name id ++ bracket size)
  | .named _ _ canonical, id, size => (canonical.declare id).map (· ++ bracket size)
  | .bool, id, _ => .error (.unsupportedArray (kindName .bool) id)
  | .scalar width signed, id, _ => .error (.unsupportedArray (kindName (.scalar width signed)) id)
  | .enum name members span, id, _ =>
    .error (.unsupportedArray (kindName (.enum name members span)) id)
  | .stack element extent size, id, _ =>
    .error (.unsupportedArray (kindName (.stack element extent size)) id)

end

end WireTypes.CType
