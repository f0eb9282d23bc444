import WireTypes.Description.Basic
import WireTypes.Json.Outline

/-!
# Reading descriptions

From a JSON text to a description, by its outline and from left to right: the first fault of the
text or of its shape is the answer.

The document, its lists and its variables are checked while they are read.  Of a declaration only
the kind is; everything else is checked when the declaration is complete, so a malformed text inside
it comes first.  Every record may also be written as an array of its values in order.
-/

namespace WireTypes.Description

namespace Decode

open Json

/-- A record of the wrong shape. -/
def mismatch {α : Type} : Except Fault α := .error .mismatched

/-- Stops at a fault, if there is one. -/
def check : Option Fault → Except Fault Unit
  | none => .ok ()
  | some fault => .error fault

/-- The fault of a value that cannot be used. -/
def refuse {α : Type} : Outline → Except Fault α
  | .broken fault => .error fault
  | _ => mismatch

def string : Outline → Except Fault String
  | .string s => .ok s
  | v => refuse v

def list {α : Type} (item : Outline → Except Fault α) : Outline → Except Fault (List α)
  | .array items stop => do
    let xs ← items.mapM item
    check stop
    return xs
  | v => refuse v

def required {α : Type} : Option α → Except Fault α
  | some a => .ok a
  | none => mismatch

/-! ## Complete records -/

/-- The members of a record, by key: each key known, and none twice. -/
def recordMembers (keys : List String) : Outline → Except Fault (List (String × Outline))
  | .object members _ =>
    if members.all (keys.contains ·.1) && decide ((members.map (·.1)).Nodup) then .ok members
    else mismatch
  | .array items _ => if items.length ≤ keys.length then .ok (keys.zip items) else mismatch
  | _ => mismatch

/-- The value of a key that must be there. -/
def member {α : Type} (read : Outline → Except Fault α) (key : String)
    (members : List (String × Outline)) : Except Fault α := do
  read (← required (members.lookup key))

/-- An offset of 32 bits. -/
def offset : Outline → Except Fault UInt32
  | .natural n => if n < UInt32.size then .ok (UInt32.ofNat n) else mismatch
  | _ => mismatch

/-- A pair of offsets, or `null` for none. -/
def span : Outline → Except Fault Span
  | .null => .ok .dummy
  | .array [start, stop] _ => return ⟨← offset start, ← offset stop⟩
  | _ => mismatch

/-- The span of a record; it may be left out. -/
def spanMember (members : List (String × Outline)) : Except Fault Span :=
  ((members.lookup "span").map span).getD (.ok .dummy)

def field (v : Outline) : Except Fault (FieldDecl String) := do
  let members ← recordMembers ["name", "type", "span"] v
  return ⟨← member string "name" members, ← member string "type" members, ← spanMember members⟩

/-- The key that holds what a kind of declaration declares. -/
def bodyKey : DeclKind → String
  | .typedef => "type"
  | .enum => "members"
  | _ => "fields"

def body (kind : DeclKind) (v : Outline) : Except Fault (DeclBody String) :=
  match kind with
  | .typedef => .typedef <$> string v
  | .header => .header <$> list field v
  | .struct => .struct <$> list field v
  | .headerUnion => .headerUnion <$> list field v
  | .enum => .enum <$> list string v

def declarationOf (kind : DeclKind) (v : Outline) : Except Fault (Declaration String) := do
  let members ← recordMembers ["name", bodyKey kind, "span"] v
  let name ← member string "name" members
  let body ← member (body kind) (bodyKey kind) members
  return ⟨name, ← spanMember members, body⟩

/-! ## Records that are checked while they are read -/

def kinds : List (String × DeclKind) :=
  [("typedef", .typedef), ("header", .header), ("struct", .struct), ("header_union", .headerUnion),
   ("enum", .enum)]

def kind (v : Outline) : Except Fault DeclKind := do
  required (kinds.lookup (← string v))

/-- The key of the kind. -/
def kindKey : String := "kind"

/-- The kind, if it is among the members; a second one is a mismatch, and every
other value is complete. -/
def kindOf? (members : List (String × Outline)) : Except Fault (Option DeclKind) :=
  members.foldlM (fun found (key, v) => do
    if key = kindKey then
      if found.isSome then mismatch else return some (← kind v)
    else
      check v.fault?
      return found) none

def declaration : Outline → Except Fault (Declaration String)
  | .object members stop => do
    let found ← kindOf? members
    check stop
    declarationOf (← required found) (.object (members.filter (·.1 ≠ kindKey)) none)
  | .array (first :: items) stop => do
    let k ← kind first
    items.forM (check ·.fault?)
    check stop
    declarationOf k (.array items none)
  | .array [] stop => do
    check stop
    mismatch
  | v => refuse v

/-- Nothing follows the values of an array of fixed length: not even a comma. -/
def checkEnd (items : List Outline) (stop : Option Fault) : Except Fault Unit :=
  if items.isEmpty then check stop else .error .malformed

/-- The members of a variable, each checked as it is read. -/
def variableMembers (members : List (String × Outline)) : Except Fault (List (String × String)) :=
  members.foldlM (fun found (key, v) => do
    if ["name", "type"].contains key && (found.lookup key).isNone then
      return (key, ← string v) :: found
    else mismatch) []

def variableDecl : Outline → Except Fault (VariableDecl String)
  | .object members stop => do
    let found ← variableMembers members
    check stop
    return ⟨← required (found.lookup "name"), ← required (found.lookup "type")⟩
  | .array (name :: items) stop => do
    let name ← string name
    match items with
    | type :: items =>
      let type ← string type
      checkEnd items stop
      return ⟨name, type⟩
    | [] =>
      check stop
      mismatch
  | .array [] stop => do
    check stop
    mismatch
  | v => refuse v

/-- The two lists of a document, where they have been read. -/
structure Draft where
  types : Option (List (Declaration String))
  vars : Option (List (VariableDecl String))

/-- Reads a member of a document; no key comes twice. -/
def documentMember (d : Draft) (key : String) (v : Outline) : Except Fault Draft :=
  if key = "types" ∧ d.types.isNone then return { d with types := some (← list declaration v) }
  else if key = "variables" ∧ d.vars.isNone then
    return { d with vars := some (← list variableDecl v) }
  else mismatch

/-- A document; either list may be left out. -/
def document : Outline → Except Fault (Description String)
  | .object members stop => do
    let d ← members.foldlM (fun d (key, v) => documentMember d key v) ⟨none, none⟩
    check stop
    return ⟨d.types.getD [], d.vars.getD []⟩
  | .array (types :: vars :: items) stop => do
    let types ← list declaration types
    let vars ← list variableDecl vars
    checkEnd items stop
    return ⟨types, vars⟩
  | .array items stop => do
    let types ← items.mapM (list declaration)
    check stop
    return ⟨types.flatten, []⟩
  | v => refuse v

end Decode

def ofText (text : String) : Except Json.Fault (Description String) := do
  let reading := Json.Outline.ofString text
  let d ← Decode.document reading.value
  Decode.check reading.rest
  return d

end WireTypes.Description
