import WireTypes.CType.Emit

/-!
# Zero values as trees

What `emitZero` writes, before it is text: `CType.zero` is the tree of a type's zero value and
`Zero.write` its text.

* `emitZero_eq_write`: `emitZero` writes that tree;
* `Zero.lists`: the brace lists at each depth of nested stacks;
* `stackSizes`: the sizes of a type's stacks, the outermost first and through every alias;
* `length_of_mem_lists`: a brace list has as many entries as the stack at its depth.
-/

namespace WireTypes

/-- The value an initialiser writes. -/
inductive Zero where
  | number
  /-- the bytes of a header, and its validity flag -/
  | header
  /-- one value for each member of a struct or union -/
  | record (members : List (String × Zero))
  /-- one value for each element of a stack -/
  | list (entries : List Zero)

namespace Zero

mutual

def write : Zero → Writer → Writer
  | .number, w => w.append "0"
  | .header, w => CType.emitHeaderZero w
  | .record members, w => (writeMembers members w.openBlock).closeBlock false
  | .list entries, w => (writeEntries " " entries (w.append "\x7b")).append " \x7d"

/-- One line for each member. -/
def writeMembers : List (String × Zero) → Writer → Writer
  | [], w => w
  | (name, z) :: rest, w =>
    writeMembers rest ((z.write (w.startLine.append s!".{name} = ")).appendLine ",")

/-- One entry after the other; `sep` comes before the first, a comma before each of the others. -/
def writeEntries (sep : String) : List Zero → Writer → Writer
  | [], w => w
  | z :: rest, w => writeEntries ", " rest (z.write (w.append sep))

end

/-- The brace lists inside `k` others, with nothing but brace lists in between. -/
def lists : Nat → Zero → List (List Zero)
  | 0, .list entries => [entries]
  | k + 1, .list entries => entries.flatMap (lists k)
  | _, _ => []

end Zero

namespace CType

mutual

def zero : CType → Zero
  | .bool => .number
  | .scalar _ _ => .number
  | .enum _ _ _ => .number
  | .header _ _ _ => .header
  | .aggregate _ _ _ members _ => .record (memberZeros members)
  | .stack element _ size => .list (List.replicate size.toNat element.zero)
  | .named _ _ canonical => canonical.zero

def memberZeros : List (Member × CType) → List (String × Zero)
  | [] => []
  | (m, ty) :: rest => (m.name, ty.zero) :: memberZeros rest

end

/-- The sizes of the stacks a type is made of, the outermost first. -/
def stackSizes : CType → List UInt32
  | .stack element _ size => size :: element.stackSizes
  | .named _ _ canonical => canonical.stackSizes
  | _ => []

end CType

/-! ## The text of a tree -/

theorem Zero.writeEntries_concat (z : Zero) (sep : String) (entries : List Zero) (w : Writer) :
    writeEntries sep (entries ++ [z]) w =
      z.write ((writeEntries sep entries w).append (if entries = [] then sep else ", ")) := by
  induction entries generalizing sep w with
  | nil => simp [writeEntries]
  | cons y rest ih =>
    rw [List.cons_append, writeEntries, ih, writeEntries]
    simp

/-- Copies of one value are written by counting them. -/
theorem Zero.writeEntries_replicate (z : Zero) (n : Nat) (w : Writer) :
    writeEntries " " (List.replicate n z) w =
      n.fold (fun i _ w => z.write (w.append (if i = 0 then " " else ", "))) w := by
  induction n with
  | zero => rfl
  | succ n ih =>
    rw [List.replicate_succ', writeEntries_concat, ih, Nat.fold_succ]
    simp

mutual

theorem CType.emitZero_eq_write (c : CType) (w : Writer) : c.emitZero w = c.zero.write w := by
  cases c with
  | bool | scalar | enum | header => simp only [emitZero, zero, Zero.write]
  | aggregate form name span members lossy =>
    simp only [emitZero, zero, Zero.write]
    rw [emitMemberZeros_eq_write members]
  | stack element extent size =>
    simp only [emitZero, zero, Zero.write]
    rw [Zero.writeEntries_replicate]
    simp only [emitZero_eq_write element]
  | named name span canonical =>
    simp only [emitZero, zero]
    exact emitZero_eq_write canonical w

theorem CType.emitMemberZeros_eq_write (members : List (Member × CType)) (w : Writer) :
    emitMemberZeros members w = Zero.writeMembers (memberZeros members) w := by
  match members with
  | [] => simp only [emitMemberZeros, memberZeros, Zero.writeMembers]
  | (m, ty) :: rest =>
    simp only [emitMemberZeros, memberZeros, Zero.writeMembers]
    rw [emitMemberZeros_eq_write rest, emitZero_eq_write ty]

end

/-! ## The lengths of brace lists -/

/-- A brace list has as many entries as the stack at its depth. -/
theorem CType.length_of_mem_lists {entries : List Zero} :
    ∀ {c : CType} {k : Nat}, entries ∈ c.zero.lists k →
      ∃ size, c.stackSizes[k]? = some size ∧ entries.length = size.toNat
  | .stack element extent size, 0, h => by
    obtain rfl := List.mem_singleton.mp h
    exact ⟨size, rfl, List.length_replicate⟩
  | .stack element extent size, k + 1, h => by
    obtain ⟨z, hz, hmem⟩ := List.mem_flatMap.mp h
    obtain rfl := List.eq_of_mem_replicate hz
    exact length_of_mem_lists (c := element) hmem
  | .named name span canonical, k, h => length_of_mem_lists (c := canonical) h
  | .bool, k, h | .scalar _ _, k, h | .enum _ _ _, k, h | .header _ _ _, k, h
  | .aggregate _ _ _ _ _, k, h => by
    cases k <;> cases h

end WireTypes
