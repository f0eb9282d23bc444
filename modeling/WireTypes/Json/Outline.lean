import WireTypes.Json.Token

/-!
# Outlines of JSON texts

What can be read of a text from the left.  An outline is the value that the text writes or, if the
text is at fault somewhere, all that stands before the fault, and the fault in its place.  So a
reader of outlines that goes from left to right meets a value of the wrong shape and a fault in the
order in which they stand.

* After a comma there is always another item: a fault, if nothing else can be read.
* A fault that ends an array or object stands behind its items; no item follows.
-/

namespace WireTypes.Json

/-- A value, as far as it can be read.  Of numbers only those without sign, point
and exponent are kept. -/
inductive Outline where
  | null
  | bool (b : Bool)
  | natural (n : Nat)
  | number
  | string (s : String)
  | array (items : List Outline) (stop : Option Fault)
  | object (members : List (String × Outline)) (stop : Option Fault)
  | broken (fault : Fault)

namespace Outline

/-- An array or object that is not closed yet: what it holds, last item first, and the key
whose value comes next. -/
inductive Frame where
  | array (done : List Outline)
  | object (done : List (String × Outline)) (key : String)

/-- A text whose value is read, and what is wrong behind it. -/
structure Reading where
  value : Outline
  rest : Option Fault

/-- Arrays and objects that may be open at once. -/
def maxDepth : Nat := 127

/-- Ends everything that is open with a fault, the innermost holding `v` at its end. -/
def breakOff (fault : Fault) : List Frame → Outline → Reading
  | [], v => ⟨v, some fault⟩
  | .array done :: pending, v => breakOff fault pending (.array (v :: done).reverse (some fault))
  | .object done key :: pending, v =>
    breakOff fault pending (.object ((key, v) :: done).reverse (some fault))

/-- What is wrong where another token is due. -/
def faultAt (tokens : List Token) : Fault := if tokens.isEmpty then .cutShort else .malformed

/-- A token that is a value by itself. -/
def ofToken? : Token → Option Outline
  | .null => some .null
  | .bool b => some (.bool b)
  | .natural n => some (.natural n)
  | .number => some .number
  | .string s => some (.string s)
  | _ => none

/-- What is wrong with a token where a value is due. -/
def valueFault : Token → Fault
  | .brokenString fault => fault
  | .broken fault => fault
  | _ => .malformed

/-- What is wrong with a token where a key is due. -/
def keyFault : List Token → Fault
  | [] => .cutShort
  | .brokenString fault :: _ => fault
  | _ => .malformed

mutual

/-- A value is due. -/
def readValue (pending : List Frame) : List Token → Reading
  | [] => breakOff .cutShort pending (.broken .cutShort)
  | .openArray :: tokens =>
    if maxDepth ≤ pending.length then breakOff .malformed pending (.array [] (some .malformed))
    else
      match tokens with
      | .closeArray :: tokens => readNext pending (.array [] none) tokens
      | tokens => readValue (.array [] :: pending) tokens
  | .openObject :: tokens =>
    if maxDepth ≤ pending.length then breakOff .malformed pending (.object [] (some .malformed))
    else
      match tokens with
      | .closeObject :: tokens => readNext pending (.object [] none) tokens
      | tokens => readKey pending [] tokens
  | token :: tokens =>
    match ofToken? token with
    | some v => readNext pending v tokens
    | none => breakOff (valueFault token) pending (.broken (valueFault token))

/-- A value `v` was read; a comma or the end of what is open is due. -/
def readNext (pending : List Frame) (v : Outline) : List Token → Reading
  | .comma :: tokens =>
    match pending with
    | [] => ⟨v, some .malformed⟩
    | .array done :: pending => readValue (.array (v :: done) :: pending) tokens
    | .object done key :: pending => readKey pending ((key, v) :: done) tokens
  | .closeArray :: tokens =>
    match pending with
    | .array done :: pending => readNext pending (.array (v :: done).reverse none) tokens
    | pending => breakOff .malformed pending v
  | .closeObject :: tokens =>
    match pending with
    | .object done key :: pending =>
      readNext pending (.object ((key, v) :: done).reverse none) tokens
    | pending => breakOff .malformed pending v
  | tokens =>
    if pending.isEmpty && tokens.isEmpty then ⟨v, none⟩ else breakOff (faultAt tokens) pending v

/-- The key of another member is due. -/
def readKey (pending : List Frame) (done : List (String × Outline)) : List Token → Reading
  | .string key :: tokens =>
    match tokens with
    | .colon :: tokens => readValue (.object done key :: pending) tokens
    | tokens =>
      breakOff (faultAt tokens) (.object done key :: pending) (.broken (faultAt tokens))
  | tokens => breakOff (keyFault tokens) pending (.object done.reverse (some (keyFault tokens)))

end

def ofString (text : String) : Reading := readValue [] (Token.ofString text)

mutual

/-- The first fault of a value. -/
def fault? : Outline → Option Fault
  | .array items stop => itemsFault? items <|> stop
  | .object members stop => membersFault? members <|> stop
  | .broken fault => some fault
  | _ => none

/-- The first fault of items. -/
def itemsFault? : List Outline → Option Fault
  | [] => none
  | v :: rest => fault? v <|> itemsFault? rest

/-- The first fault of members. -/
def membersFault? : List (String × Outline) → Option Fault
  | [] => none
  | (_, v) :: rest => fault? v <|> membersFault? rest

end

end Outline

end WireTypes.Json
