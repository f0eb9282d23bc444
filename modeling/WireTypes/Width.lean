/-!
# Widths

How many bits a protocol value has, and how many its C object takes.  All widths are 32-bit words;
sums and products stop at the largest word instead of wrapping.

* `satAdd`, `satMul`: arithmetic of words that stops at `2 ^ 32 - 1`;
* `Extent`: the pair of a logical and a stored width;
* `Storage`: the C object that holds a scalar.
-/

namespace WireTypes

def maxWidth : Nat := 4294967295

/-- Sum, held at `maxWidth`. -/
def satAdd (a b : UInt32) : UInt32 := UInt32.ofNat (min (a.toNat + b.toNat) maxWidth)

/-- Product, held at `maxWidth`. -/
def satMul (a b : UInt32) : UInt32 := UInt32.ofNat (min (a.toNat * b.toNat) maxWidth)

theorem toNat_satAdd (a b : UInt32) : (satAdd a b).toNat = min (a.toNat + b.toNat) maxWidth :=
  UInt32.toNat_ofNat_of_lt' (by simp only [maxWidth, UInt32.size]; omega)

theorem toNat_satMul (a b : UInt32) : (satMul a b).toNat = min (a.toNat * b.toNat) maxWidth :=
  UInt32.toNat_ofNat_of_lt' (Nat.lt_of_le_of_lt (Nat.min_le_right _ _) (by decide))

/-- Width in protocol terms and width of the C object. -/
structure Extent where
  logical : UInt32
  stored : UInt32
  deriving DecidableEq, Repr

namespace Extent

def zero : Extent := ⟨0, 0⟩

instance : Inhabited Extent := ⟨zero⟩

/-- One after the other. -/
def add (a b : Extent) : Extent := ⟨satAdd a.logical b.logical, satAdd a.stored b.stored⟩

/-- `count` copies end to end. -/
def scale (a : Extent) (count : UInt32) : Extent := ⟨satMul a.logical count, satMul a.stored count⟩

end Extent

/-- Bytes that hold `bits` bits. -/
def byteCount (bits : UInt32) : UInt32 := UInt32.ofNat ((bits.toNat + 7) / 8)

theorem toNat_byteCount (bits : UInt32) : (byteCount bits).toNat = (bits.toNat + 7) / 8 := by
  have := bits.toNat_lt
  exact UInt32.toNat_ofNat_of_lt' (by simp only [UInt32.size]; omega)

/-- The C object that holds a scalar: an unsigned or signed integer, or a byte array where no
integer is wide enough. -/
inductive Storage where
  | u8
  | u16
  | u32
  | u64
  | bytes (count : UInt32)
  deriving DecidableEq, Repr

namespace Storage

/-- The smallest storage for `bits` bits; more than 64 bits take a byte array. -/
def ofBits (bits : UInt32) : Storage :=
  if bits ≤ 8 then .u8
  else if bits ≤ 16 then .u16
  else if bits ≤ 32 then .u32
  else if bits ≤ 64 then .u64
  else .bytes (byteCount bits)

/-- Width of the integer, if the storage is one. -/
def integerBits? : Storage → Option UInt32
  | .u8 => some 8
  | .u16 => some 16
  | .u32 => some 32
  | .u64 => some 64
  | .bytes _ => none

/-- Bits taken up. -/
def bits : Storage → UInt32
  | .u8 => 8
  | .u16 => 16
  | .u32 => 32
  | .u64 => 64
  | .bytes count => satMul count 8

/-- Alignment in bytes; a byte array has none beyond its bytes. -/
def alignment : Storage → UInt32
  | .u8 => 1
  | .u16 => 2
  | .u32 => 4
  | .u64 => 8
  | .bytes _ => 1

end Storage

end WireTypes
