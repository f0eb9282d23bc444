/-!
# Magnitude of numbers

Whether a decimal number is too large for a double.  A number is read as a significand of 64 bits
and a power of ten; both are rounded to doubles and multiplied, and the number is too large if the
product is infinite.
-/

namespace WireTypes.Json

/-- `n / 2 ^ k` to the nearest, a half to the even neighbour. -/
def roundShift (n k : Nat) : Nat :=
  let quotient := n >>> k
  let unit := 1 <<< k
  let rest := n % unit
  let up := unit < 2 * rest || (unit == 2 * rest && quotient % 2 == 1)
  if up then quotient + 1 else quotient

/-- The nearest number with 53 significant bits. -/
def roundDouble (n : Nat) : Nat :=
  let k := n.log2 + 1 - 53
  roundShift n k <<< k

/-- The least number that rounds to infinity. -/
def infinity : Nat := (1 <<< 1024) - (1 <<< 970)

/-- `significand * 10 ^ exponent` is too large for a double. -/
def overflows (significand : Nat) (exponent : Int) : Bool :=
  significand != 0 && 0 ≤ exponent &&
    (308 < exponent || infinity ≤ roundDouble significand * roundDouble (Nat.pow 10 exponent.toNat))

/-- Takes digits into a significand while it stays below `2 ^ 64`; also the
number of digits taken. -/
def absorb (significand : Nat) : List Nat → Nat × Nat
  | [] => (significand, 0)
  | d :: ds =>
    if 10 * significand + d < UInt64.size then
      let (n, taken) := absorb (10 * significand + d) ds
      (n, taken + 1)
    else (significand, 0)

/-- A number with the given digits before and behind the point is too large for a double. -/
def tooLarge (whole fraction : List Nat) (exponent : Int) : Bool :=
  let (n, taken) := absorb 0 whole
  let (n, behind) := absorb n fraction
  overflows n (exponent + (whole.length - taken : Nat) - behind)

end WireTypes.Json
