import WireTypes.Diagnostic.Basic
import WireTypes.TypeTable.Basic

/-!
# What lowering reports

One function for each problem that lowering meets, over the table in which it meets it.
-/

namespace WireTypes.TypeTable

/-- A type of variable width stands where C needs a fixed one. -/
def unsupportedType (t : TypeTable) (ty : TypeId) : Diagnostic :=
  (Diagnostic.error .unsupportedType s!"type `{t.display ty}` is not supported")
    |>.label (t.node ty).span "variable-width type"
    |>.note "only fixed-width types can be lowered to C"

/-- The name that a reference spells is not declared. -/
def unknownType (t : TypeTable) (n : Name) (span : Span) : Diagnostic :=
  (Diagnostic.error .unknownType s!"cannot find type `{t.spelling n}`").label span "not defined"

/-- The names `path` lead back to `n`. -/
def typeCycle (t : TypeTable) (path : List Name) (n : Name) (span : Span) : Diagnostic :=
  let chain := String.intercalate " -> " ((path ++ [n]).map t.spelling)
  (Diagnostic.error .typeCycle s!"type `{t.spelling n}` is defined in terms of itself")
    |>.label span "cycle reaches back here"
    |>.note s!"cycle: {chain}"

/-- The type of a header field does not resolve. -/
def unknownFieldType (t : TypeTable) (f : Field) : Diagnostic :=
  (Diagnostic.error .unknownType
      s!"cannot resolve type `{t.display f.type}` of field `{t.spelling f.name}`")
    |>.label f.span "unknown type"

/-- A header field has a variable width. -/
def varbitField (t : TypeTable) (header : Name) (span : Span) (f : Field)
    (width : UInt32) : Diagnostic :=
  (Diagnostic.error .varbitHeaderField
      s!"field `{t.spelling f.name}` of header `{t.spelling header}` is `varbit<{width}>`")
    |>.label f.span "varbit types are not supported"
    |>.context span "in this header"

/-- A header field is no number of bits. -/
def fieldKind (t : TypeTable) (header : Name) (f : Field) (kind : Kind) : Diagnostic :=
  (Diagnostic.error .headerFieldKind
      s!"field `{t.spelling f.name}` of header `{t.spelling header}` is a {kind.describe}")
    |>.label f.span "headers hold only bit, int and bool fields"

/-- Bits that are missing to a whole number of bytes. -/
def padding (width : UInt32) : UInt32 := 8 - width % 8

/-- A header ends within a byte. -/
def misalignedHeader (t : TypeTable) (header : Name) (span : Span) (width : UInt32) : Diagnostic :=
  (Diagnostic.error .misalignedHeader
      s!"header `{t.spelling header}` is {width} bits wide, not a whole number of bytes")
    |>.label span s!"{width} bits"
    |>.suggest s!"add a `bit<{padding width}>` padding field"

/-- A member is left out of a struct or union. -/
def unsizedMember (t : TypeTable) (form : AggregateForm) (name : Name) (span : Span) (f : Field) :
    Diagnostic :=
  let aggregate := s!"{form.keyword} `{t.spelling name}`"
  (Diagnostic.error .unsizedMember
      s!"unsupported type `{t.display f.type}` for field `{t.spelling f.name}` in {aggregate}")
    |>.label f.span "this field has no fixed width"
    |>.context span "in this aggregate"
    |>.note "the field is left out of the emitted type"

end WireTypes.TypeTable
