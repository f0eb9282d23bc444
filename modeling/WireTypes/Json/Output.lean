/-!
# JSON output

The values that reports are made of, and their text: no blanks, members in order, and in strings
only what must be escaped is escaped.
-/

namespace WireTypes

/-- A value to be written. -/
inductive Json where
  | bool (b : Bool)
  | number (n : Nat)
  | string (s : String)
  | array (items : List Json)
  | object (members : List (String × Json))

namespace Json

/-- A character inside a string.  Quotes, backslashes and the characters below the blank are
escaped, five of the latter by a letter. -/
def escape (c : Char) : String :=
  match c with
  | '\"' => "\\\""
  | '\\' => "\\\\"
  | '\x08' => "\\b"
  | '\x0c' => "\\f"
  | '\n' => "\\n"
  | '\r' => "\\r"
  | '\t' => "\\t"
  | c =>
    if c.toNat < 0x20 then
      "\\u00" ++ String.ofList [Nat.digitChar (c.toNat / 16), Nat.digitChar (c.toNat % 16)]
    else String.singleton c

def quote (s : String) : String := "\"" ++ String.join (s.toList.map escape) ++ "\""

mutual

def render : Json → String
  | .bool b => if b then "true" else "false"
  | .number n => toString n
  | .string s => quote s
  | .array items => "[" ++ String.intercalate "," (renderItems items) ++ "]"
  | .object members => "\x7b" ++ String.intercalate "," (renderMembers members) ++ "\x7d"

def renderItems : List Json → List String
  | [] => []
  | v :: rest => render v :: renderItems rest

def renderMembers : List (String × Json) → List String
  | [] => []
  | (key, v) :: rest => (quote key ++ ":" ++ render v) :: renderMembers rest

end

end Json

end WireTypes
