/-!
# Numerals

Decimal numbers as people type them: an optional `+`, then one or more of the ten ASCII digits, with
a value below a limit.
-/

namespace WireTypes.Text

def digitValue (c : Char) : Nat := c.toNat - '0'.toNat

def digitsValue (s : List Char) : Nat := s.foldl (fun n c => 10 * n + digitValue c) 0

/-- One or more digits. -/
def isDigits (s : List Char) : Bool := !s.isEmpty && s.all Char.isDigit

def dropPlus : List Char → List Char
  | '+' :: s => s
  | s => s

/-- The number that `s` writes, if it is below `limit`. -/
def numeral? (limit : Nat) (s : List Char) : Option Nat :=
  let digits := dropPlus s
  if isDigits digits && decide (digitsValue digits < limit) then some (digitsValue digits) else none

end WireTypes.Text
