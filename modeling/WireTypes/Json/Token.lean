import WireTypes.Json.Magnitude
import WireTypes.Text.Numeral

/-!
# JSON tokens

The tokens of a JSON text, from left to right.  A token that breaks off or is malformed is the last
one, and tells which of the two it is.
-/

namespace WireTypes.Json

/-- What is wrong with a JSON text. -/
inductive Fault where
  /-- the text is not JSON -/
  | malformed
  /-- the text ends too early -/
  | cutShort
  /-- the text is JSON of the wrong shape -/
  | mismatched
  deriving DecidableEq, Repr

/-- A token.  Of the numbers only those without sign, point and exponent have a value. -/
inductive Token where
  | openArray
  | closeArray
  | openObject
  | closeObject
  | comma
  | colon
  | null
  | bool (b : Bool)
  | natural (n : Nat)
  | number
  | string (s : String)
  | brokenString (fault : Fault)
  | broken (fault : Fault)
  deriving DecidableEq, Repr

namespace Token

/-- The four blanks. -/
def isBlank (c : Char) : Bool := c == ' ' || c == '\t' || c == '\n' || c == '\r'

/-- What is missing where the text `s` should go on differently. -/
def faultAt (s : List Char) : Fault := if s.isEmpty then .cutShort else .malformed

/-- A token and the text behind it. -/
abbrev Scan := Token × List Char

def scanWord (token : Token) : List Char → List Char → Scan
  | [], s => (token, s)
  | _ :: _, [] => (.broken .cutShort, [])
  | w :: word, c :: s => if c = w then scanWord token word s else (.broken .malformed, [])

/-! ## Numbers -/

/-- The digits at the start of a text, and what follows them. -/
def spanDigits (s : List Char) : List Nat × List Char :=
  ((s.takeWhile Char.isDigit).map Text.digitValue, s.dropWhile Char.isDigit)

/-- The digits behind a point; no point, no digits. -/
def scanFraction : List Char → Except Fault (Option (List Nat) × List Char)
  | '.' :: s =>
    match spanDigits s with
    | ([], _) => .error (faultAt s)
    | (digits, s) => .ok (some digits, s)
  | s => .ok (none, s)

def scanExponentDigits (s : List Char) : Except Fault (Nat × List Char) :=
  match spanDigits s with
  | ([], _) => .error (faultAt s)
  | (digits, s) => .ok (digits.foldl (fun n d => 10 * n + d) 0, s)

/-- An exponent with its sign. -/
def scanExponent : List Char → Except Fault (Option Int × List Char)
  | c :: s =>
    if c = 'e' ∨ c = 'E' then
      match s with
      | '-' :: s => (scanExponentDigits s).map fun (n, s) => (some (-(n : Int)), s)
      | '+' :: s => (scanExponentDigits s).map fun (n, s) => (some (n : Int), s)
      | s => (scanExponentDigits s).map fun (n, s) => (some (n : Int), s)
    else .ok (none, c :: s)
  | [] => .ok (none, [])

/-- A number behind its sign: no digit follows a leading zero, and a point or exponent has
digits. -/
def scanUnsigned (negative : Bool) (s : List Char) : Except Fault Scan := do
  let (whole, s') := spanDigits s
  if whole.isEmpty then throw (faultAt s)
  if whole.head? = some 0 ∧ whole ≠ [0] then throw .malformed
  let (fraction, s') ← scanFraction s'
  let (exponent, s') ← scanExponent s'
  if tooLarge whole (fraction.getD []) (exponent.getD 0) then throw .malformed
  if negative || fraction.isSome || exponent.isSome then return (.number, s')
  return (.natural (whole.foldl (fun n d => 10 * n + d) 0), s')

def scanNumber (s : List Char) : Scan :=
  let scanned :=
    match s with
    | '-' :: s => scanUnsigned true s
    | s => scanUnsigned false s
  match scanned with
  | .ok scan => scan
  | .error fault => (.broken fault, [])

/-! ## Strings -/

def hexValue? (c : Char) : Option Nat :=
  if c.isDigit then some (c.toNat - '0'.toNat)
  else if 'a' ≤ c ∧ c ≤ 'f' then some (c.toNat - 'a'.toNat + 10)
  else if 'A' ≤ c ∧ c ≤ 'F' then some (c.toNat - 'A'.toNat + 10)
  else none

/-- The unit that four digits write. -/
def hexUnit? (a b c d : Char) : Option Nat := do
  return (← hexValue? a) * 4096 + (← hexValue? b) * 256 + (← hexValue? c) * 16 + (← hexValue? d)

/-- The character behind a backslash. -/
def unescape? (c : Char) : Option Char :=
  match c with
  | '\"' => some '\"'
  | '\\' => some '\\'
  | '/' => some '/'
  | 'b' => some '\x08'
  | 'f' => some '\x0c'
  | 'n' => some '\n'
  | 'r' => some '\r'
  | 't' => some '\t'
  | _ => none

/-- The first unit of a pair. -/
def isLeading (unit : Nat) : Bool := 0xd800 ≤ unit && unit < 0xdc00

/-- The second unit of a pair. -/
def isTrailing (unit : Nat) : Bool := 0xdc00 ≤ unit && unit < 0xe000

/-- The character of a pair. -/
def pairChar (leading trailing : Nat) : Char :=
  Char.ofNat (0x10000 + (leading - 0xd800) * 0x400 + (trailing - 0xdc00))

/-- What is wrong where four hexadecimal digits are due: too few bytes, or others. -/
def hexFault (s : List Char) : Fault :=
  if (String.ofList s).utf8ByteSize < 4 then .cutShort else .malformed

/-- What is wrong behind the first unit of a pair, where `\u` and the second unit are due. -/
def pairFault : List Char → Fault
  | [] => .cutShort
  | '\\' :: [] => .cutShort
  | '\\' :: 'u' :: s => hexFault s
  | _ => .malformed

/-- Reads a string behind its opening quote; `done` holds what was read, last character first. -/
def scanString (done : List Char) : List Char → Scan
  | [] => (.brokenString .cutShort, [])
  | '\"' :: s => (.string (String.ofList done.reverse), s)
  | '\\' :: [] => (.brokenString .cutShort, [])
  | '\\' :: 'u' :: a :: b :: c :: d :: s =>
    match hexUnit? a b c d with
    | none => (.brokenString (hexFault (a :: b :: c :: d :: s)), [])
    | some unit =>
      if isTrailing unit then (.brokenString .malformed, [])
      else if isLeading unit then
        match s with
        | '\\' :: 'u' :: a' :: b' :: c' :: d' :: s' =>
          match hexUnit? a' b' c' d' with
          | none => (.brokenString (hexFault (a' :: b' :: c' :: d' :: s')), [])
          | some unit' =>
            if isTrailing unit' then scanString (pairChar unit unit' :: done) s'
            else (.brokenString .malformed, [])
        | s => (.brokenString (pairFault s), [])
      else scanString (Char.ofNat unit :: done) s
  | '\\' :: 'u' :: s => (.brokenString (hexFault s), [])
  | '\\' :: c :: s =>
    match unescape? c with
    | some c => scanString (c :: done) s
    | none => (.brokenString .malformed, [])
  | c :: s => if c.toNat < 0x20 then (.brokenString .malformed, []) else scanString (c :: done) s

/-! ## Texts -/

/-- The first token of a text without leading blanks. -/
def next? : List Char → Option Scan
  | [] => none
  | c :: s =>
    some <|
      match c with
      | '[' => (.openArray, s)
      | ']' => (.closeArray, s)
      | '\x7b' => (.openObject, s)
      | '\x7d' => (.closeObject, s)
      | ',' => (.comma, s)
      | ':' => (.colon, s)
      | '\"' => scanString [] s
      | 'n' => scanWord .null "ull".toList s
      | 't' => scanWord (.bool true) "rue".toList s
      | 'f' => scanWord (.bool false) "alse".toList s
      | c => if c == '-' || c.isDigit then scanNumber (c :: s) else (.broken .malformed, [])

/-- The first `count` tokens of a text, behind those already found, last token first. -/
def scan (done : List Token) : Nat → List Char → List Token
  | 0, _ => done.reverse
  | count + 1, s =>
    match next? (s.dropWhile isBlank) with
    | none => done.reverse
    | some (token, s) => scan (token :: done) count s

/-- The tokens of a text; there are no more than characters. -/
def ofString (text : String) : List Token := scan [] text.length text.toList

end Token

end WireTypes.Json
