/-!
# Names

Spellings of types, fields and members, each kept once.  A `Name` is the position of its spelling;
positions are handed out densely and never change.
-/

namespace WireTypes

/-- Position of a spelling in an `Interner`. -/
structure Name where
  index : Nat
  deriving DecidableEq, Repr

namespace Name

/-- The name of the empty spelling. -/
def empty : Name := ⟨0⟩

instance : Inhabited Name := ⟨empty⟩

/-- `Name(index)` -/
def debug (n : Name) : String := s!"Name({n.index})"

end Name

/-- The spellings seen so far, in order of first appearance. -/
structure Interner where
  spellings : Array String
  deriving Repr

namespace Interner

/-- The name of `s`: its position if it is known, else the next free one. -/
def intern (t : Interner) (s : String) : Name × Interner :=
  match t.spellings.idxOf? s with
  | some i => (⟨i⟩, t)
  | none => (⟨t.spellings.size⟩, ⟨t.spellings.push s⟩)

def internAll (t : Interner) : List String → List Name × Interner
  | [] => ([], t)
  | s :: rest =>
    let (n, t) := t.intern s
    let (ns, t) := t.internAll rest
    (n :: ns, t)

/-- Spellings that every description may use. -/
def builtins : List String := ["bool", "bit", "int", "varbit", "data", "valid"]

/-- The empty spelling, then the builtins. -/
def initial : Interner := (internAll ⟨#[""]⟩ builtins).2

instance : Inhabited Interner := ⟨initial⟩

/-- The spelling of a name; a name of no spelling reads as the empty one. -/
def spelling (t : Interner) (n : Name) : String := t.spellings.getD n.index ""

/-- What is said where no position is left for another spelling. -/
def fullMessage (count : Nat) : String := s!"string interner is full after {count} names"

/-- Number of spellings, the empty one included. -/
def size (t : Interner) : Nat := t.spellings.size

/-- Nothing but the empty spelling is known. -/
def isEmpty (t : Interner) : Bool := t.size ≤ 1

end Interner

end WireTypes
