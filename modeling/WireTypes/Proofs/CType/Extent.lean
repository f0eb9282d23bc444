import Mathlib.Data.List.Forall2
import Mathlib.Tactic.SplitIfs
import WireTypes.CType.Basic
import WireTypes.Proofs.Lower.Header

/-!
# Exact widths

Widths of C types are words that stop at `maxWidth`, in every sum and in every product.  A `Measure`
is a pair of widths as numbers, with no bound; `Holds m e` says that the extent `e` is the measure
`m`, stopped once at the end.

* `Holds.scale`, `holds_sum`: products and sums of what is held are held, so stopping early makes no
  difference;
* `toNat_sumExtents`: the widths of the parts that have one, added up;
* `holds_scalar`: so is the storage of a scalar, which stops at `maxWidth` by itself.
-/

namespace WireTypes

/-- Logical and stored width without a bound. -/
structure Measure where
  logical : Nat
  stored : Nat
  deriving DecidableEq, Repr, Inhabited

/-- Bits of the smallest integer that holds `bits` bits; above 64, of as many bytes as it takes. -/
def storageBits (bits : Nat) : Nat :=
  if bits ≤ 8 then 8
  else if bits ≤ 16 then 16
  else if bits ≤ 32 then 32
  else if bits ≤ 64 then 64
  else 8 * ((bits + 7) / 8)

theorem le_storageBits (bits : Nat) : bits ≤ storageBits bits := by
  unfold storageBits
  split_ifs <;> omega

namespace Measure

/-- `count` copies end to end. -/
def scale (m : Measure) (count : Nat) : Measure := ⟨count * m.logical, count * m.stored⟩

/-- One after the other. -/
def sum (ms : List Measure) : Measure := ⟨(ms.map (·.logical)).sum, (ms.map (·.stored)).sum⟩

/-- The extent is the measure, or `maxWidth` where the measure is larger. -/
structure Holds (m : Measure) (e : Extent) : Prop where
  logical : e.logical.toNat = min m.logical maxWidth
  stored : e.stored.toNat = min m.stored maxWidth

/-- What is stored is no less than what it stands for. -/
theorem Holds.logical_le {m : Measure} {e : Extent} (h : m.Holds e) (hle : m.logical ≤ m.stored) :
    e.logical ≤ e.stored := by
  rw [UInt32.le_iff_toNat_le, h.logical, h.stored]
  omega

/-! ## Arithmetic that stops -/

theorem toNat_eq_min (w : UInt32) : w.toNat = min w.toNat maxWidth := by
  have := w.toNat_lt
  simp only [maxWidth]
  omega

/-- A product of what was stopped is the product, stopped: no copies are nothing, and one copy of a
width that is too large is too large already. -/
theorem min_mul_min (a count : Nat) :
    min (min a maxWidth * count) maxWidth = min (count * a) maxWidth := by
  rw [Nat.mul_comm count a]
  by_cases ha : a ≤ maxWidth
  · rw [Nat.min_eq_left ha]
  · have hle : maxWidth ≤ a := by omega
    rw [Nat.min_eq_right hle]
    by_cases hcount : count = 0
    · rw [hcount, Nat.mul_zero, Nat.mul_zero]
    · have hheld : maxWidth ≤ maxWidth * count := Nat.le_mul_of_pos_right _ (by omega)
      have hexact : maxWidth * count ≤ a * count := Nat.mul_le_mul_right count hle
      omega

theorem Holds.scale {m : Measure} {e : Extent} (h : m.Holds e) (count : UInt32) :
    (m.scale count.toNat).Holds (e.scale count) where
  logical := by
    show (satMul e.logical count).toNat = _
    rw [toNat_satMul, h.logical, min_mul_min]
    rfl
  stored := by
    show (satMul e.stored count).toNat = _
    rw [toNat_satMul, h.stored, min_mul_min]
    rfl

theorem foldl_add_eq (es : List Extent) : ∀ e : Extent, es.foldl Extent.add e =
    ⟨(es.map (·.logical)).foldl satAdd e.logical, (es.map (·.stored)).foldl satAdd e.stored⟩ := by
  induction es with
  | nil => exact fun _ => rfl
  | cons e' es ih => exact fun e => ih (e.add e')

theorem toNat_foldl_add (es : List Extent) :
    (es.foldl Extent.add .zero).logical.toNat = min (es.map (·.logical.toNat)).sum maxWidth ∧
    (es.foldl Extent.add .zero).stored.toNat = min (es.map (·.stored.toNat)).sum maxWidth := by
  rw [foldl_add_eq]
  constructor
  · rw [toNat_foldl_satAdd, List.map_map]
    exact congrArg (min · maxWidth) (Nat.zero_add _)
  · rw [toNat_foldl_satAdd, List.map_map]
    exact congrArg (min · maxWidth) (Nat.zero_add _)

/-- A sum of what was stopped is the sum, stopped. -/
theorem min_sum_eq {ws held : List Nat} (h : List.Forall₂ (fun w v => v = min w maxWidth) ws held) :
    min held.sum maxWidth = min ws.sum maxWidth := by
  induction h with
  | nil => rfl
  | cons hv _ ih =>
    rw [List.sum_cons, List.sum_cons]
    omega

theorem holds_sum {ms : List Measure} {es : List Extent} (h : List.Forall₂ Holds ms es) :
    (sum ms).Holds (es.foldl Extent.add .zero) where
  logical := by
    rw [(toNat_foldl_add es).1]
    refine min_sum_eq (List.forall₂_map_left_iff.mpr (List.forall₂_map_right_iff.mpr ?_))
    exact h.imp fun _ _ hm => hm.logical
  stored := by
    rw [(toNat_foldl_add es).2]
    refine min_sum_eq (List.forall₂_map_left_iff.mpr (List.forall₂_map_right_iff.mpr ?_))
    exact h.imp fun _ _ hm => hm.stored

/-- The storage of a scalar stops at `maxWidth` too: the last few widths take more bytes than
a word can count bits. -/
theorem holds_scalar (width : UInt32) :
    (Measure.mk width.toNat (storageBits width.toNat)).Holds (CType.scalarExtent width) where
  logical := toNat_eq_min width
  stored := by
    show (Storage.ofBits width).bits.toNat = _
    unfold Storage.ofBits storageBits
    simp only [UInt32.le_iff_toNat_le, UInt32.reduceToNat]
    split_ifs with h8 h16 h32 h64
    · rfl
    · rfl
    · rfl
    · rfl
    · show (satMul (byteCount width) 8).toNat = _
      rw [toNat_satMul, toNat_byteCount, Nat.mul_comm]
      rfl

end Measure

namespace CType

/-- The sum over the parts that have a fixed width is exact, stopped once. -/
theorem toNat_sumExtents (es : List (Option Extent)) :
    (sumExtents es).logical.toNat = min ((es.filterMap id).map (·.logical.toNat)).sum maxWidth ∧
    (sumExtents es).stored.toNat = min ((es.filterMap id).map (·.stored.toNat)).sum maxWidth :=
  Measure.toNat_foldl_add (es.filterMap id)

end CType

end WireTypes
