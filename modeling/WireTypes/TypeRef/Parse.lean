import WireTypes.Text.Blank
import WireTypes.Text.Numeral
import WireTypes.TypeRef.Basic

/-!
# Reading type references

A reference is a base with zero or more suffixes `[size]`.  Suffixes are taken off from the right,
so the last one is the outermost stack.  Blanks may stand around the whole, before a suffix, between
a keyword and its `<`, and around a number.  Where the text is no reference, the answer is the part
of it at fault: the text itself, or what stands before the suffixes.
-/

namespace WireTypes.TypeRef

open Text

/-- A width or a size: a numeral of 32 bits with blanks around it. -/
def number? (s : List Char) : Option UInt32 := (numeral? UInt32.size (trim s)).map UInt32.ofNat

/-- What stands between the angle brackets of `keyword<…>`. -/
def argument? (keyword : String) (s : List Char) : Option (List Char) :=
  match (after? keyword.toList s).map trimStart with
  | some ('<' :: body) => if body.getLast? = some '>' then some body.dropLast else none
  | _ => none

/-- A letter or an underscore. -/
def isNameStart (c : Char) : Bool := c.isAlpha || c == '_'

/-- A letter, a digit or an underscore. -/
def isNamePart (c : Char) : Bool := c.isAlphanum || c == '_'

/-- An ASCII identifier. -/
def isIdentifier : List Char → Bool
  | [] => false
  | c :: s => isNameStart c && s.all isNamePart

/-- The sized types, by keyword. -/
def sizedBases : List (String × (UInt32 → TypeRef)) :=
  [("bit", fun w => .bits w false), ("int", fun w => .bits w true), ("varbit", .varbits)]

/-- A reference without suffix and without blanks around it.  Text of the form `keyword<…>` is never
a name, whatever stands between the brackets. -/
def base? (s : List Char) : Option TypeRef :=
  if s = "bool".toList then some .bool
  else
    match sizedBases.findSome? fun b => (argument? b.1 s).map fun body =>
      (number? body).map b.2 with
    | some sized => sized
    | none => if isIdentifier s then some (.named (String.ofList s)) else none

/-- The text before the last `[` and the text between it and the closing `]`; `none` if there is no
closing `]`, `some none` if it closes nothing. -/
def suffix? (s : List Char) : Option (Option (List Char × List Char)) :=
  if s.getLast? = some ']' then some (splitAtLast '[' s.dropLast) else none

theorem length_lt_of_suffix? {s element size : List Char}
    (h : suffix? s = some (some (element, size))) : element.length < s.length := by
  unfold suffix? at h
  split at h
  · have := congrArg List.length (eq_append_of_splitAtLast (Option.some.inj h))
    simp at this
    omega
  · simp at h

/-- Reads a reference; on failure, the part at fault as it was handed over. -/
def parseChars (s : List Char) : Except (List Char) TypeRef :=
  match _h : suffix? (trim s) with
  | none => (base? (trim s)).elim (.error s) .ok
  | some none => .error s
  | some (some (element, size)) =>
    match number? size with
    | none => .error s
    | some n => (parseChars element).map (.stack · n)
termination_by s.length
decreasing_by exact Nat.lt_of_lt_of_le (length_lt_of_suffix? _h) (length_trim_le s)

/-- Reads the text of a reference; on failure, the part at fault. -/
def parse (text : String) : Except String TypeRef := (parseChars text.toList).mapError String.ofList

end WireTypes.TypeRef
