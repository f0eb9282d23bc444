/-!
# Diagnostic codes

What can be wrong with a type, each with a number to look it up by and a text that explains it.
Codes that begin with `E9` concern the program itself, all others the types.
-/

namespace WireTypes

/-- The cause of a diagnostic. -/
inductive Code where
  /-- a header field without a fixed width -/
  | varbitHeaderField
  /-- a header that is not a whole number of bytes -/
  | misalignedHeader
  /-- a member that cannot be kept -/
  | unsizedMember
  /-- a width asked of a type that has none -/
  | widthOfUnsized
  /-- a type that C cannot hold -/
  | unsupportedType
  /-- a name without declaration -/
  | unknownType
  /-- a type that contains itself -/
  | typeCycle
  /-- a header field that is no number of bits -/
  | headerFieldKind
  /-- a state that cannot be -/
  | internal
  /-- errors that are not shown -/
  | tooManyErrors
  deriving DecidableEq, Repr

namespace Code

/-- All codes, by number. -/
def all : List Code :=
  [varbitHeaderField, misalignedHeader, unsizedMember, widthOfUnsized, unsupportedType,
    unknownType, typeCycle, headerFieldKind, internal, tooManyErrors]

def number : Code → String
  | varbitHeaderField => "E3001"
  | misalignedHeader => "E3002"
  | unsizedMember => "E3003"
  | widthOfUnsized => "E3004"
  | unsupportedType => "E3005"
  | unknownType => "E3006"
  | typeCycle => "E3007"
  | headerFieldKind => "E3008"
  | internal => "E9001"
  | tooManyErrors => "E9002"

/-- The code with a given number; ASCII letters count in either case. -/
def ofNumber? (s : String) : Option Code := all.find? fun c => c.number.toUpper == s.toUpper

/-- The code concerns the program itself. -/
def isInternal (c : Code) : Bool := c.number.startsWith "E9"

def explanation : Code → String
  | varbitHeaderField =>
    "A header contains a `varbit` field. Variable-length fields have no " ++
    "fixed width, so the header cannot be laid out as a fixed byte array. " ++
    "The field is skipped when computing the header width."
  | misalignedHeader =>
    "The fields of a header add up to a bit count that is not a multiple " ++
    "of 8. Headers are stored as byte arrays, so their width must be a " ++
    "whole number of bytes. Add padding bits to the header."
  | unsizedMember =>
    "A struct or header union field has a type that cannot be lowered to " ++
    "a fixed-width representation. The field is left out of the emitted " ++
    "aggregate and the aggregate has no fixed width."
  | widthOfUnsized =>
    "The width of a type was requested, but the type it names has no " ++
    "fixed width. Width 0 is used in its place."
  | unsupportedType => "The type has no C representation in this backend."
  | unknownType =>
    "A type is referenced by name, but no header, struct, header union, " ++
    "enum, or typedef with that name is declared."
  | typeCycle =>
    "A typedef resolves back to itself. Alias chains must end at a " ++
    "declared type."
  | headerFieldKind =>
    "Header fields must be `bit<W>`, `int<W>`, `bool`, or aliases of " ++
    "those. Aggregates, enums and stacks cannot be nested in a header."
  | internal =>
    "The lowering stage reached a state the type checker should have " ++
    "ruled out. This is a compiler bug."
  | tooManyErrors => "Too many errors were reported; the rest were dropped."

theorem mem_all (c : Code) : c ∈ all := by cases c <;> decide

end Code

end WireTypes
