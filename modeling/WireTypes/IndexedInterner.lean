import WireTypes.Interner

/-!
# Names through an index

An interner that is asked for the same spellings again and again keeps, beside the spellings, an
index in which the name of a spelling is found without a search.  Names are 32-bit numbers, so a
full interner refuses new spellings.

A type table needs no index; it names spellings as an interner with one does.
-/

namespace WireTypes

/-- The spellings, and an index of their names.  Both say the same: a spelling is found under the
name under which it is kept, and what is not kept is not found. -/
structure IndexedInterner extends Interner where
  /-- The name of each spelling, the newest first. -/
  names : List (String × Name)
  lookup_names : ∀ s n, names.lookup s = some n ↔ spellings[n.index]? = some s
  deriving Repr

/-- No name is left for another spelling. -/
structure InternerFull where
  /-- Number of spellings. -/
  count : Nat
  deriving DecidableEq, Repr

def InternerFull.message (e : InternerFull) : String := Interner.fullMessage e.count

namespace IndexedInterner

variable {spellings : Array String} {names : List (String × Name)} {s : String}

/-- What the index does not find is not kept. -/
theorem getElem?_ne_of_lookup_eq_none
    (h : ∀ s n, names.lookup s = some n ↔ spellings[n.index]? = some s) (hs : names.lookup s = none)
    (i : Nat) : spellings[i]? ≠ some s := by
  intro hi
  have hfound := (h s ⟨i⟩).mpr hi
  rw [hs] at hfound
  cases hfound

/-- A spelling that is put behind the others, and into the index under that position, is found
there; all others are found where they were. -/
theorem lookup_names_push (h : ∀ s n, names.lookup s = some n ↔ spellings[n.index]? = some s)
    (hs : names.lookup s = none) (r : String) (n : Name) :
    ((s, (⟨spellings.size⟩ : Name)) :: names).lookup r = some n ↔
      (spellings.push s)[n.index]? = some r := by
  obtain ⟨i⟩ := n
  rw [List.lookup_cons, Array.getElem?_push]
  by_cases hi : i = spellings.size
  · rw [if_pos hi]
    by_cases hr : r = s
    · simp [hr, hi]
    · -- nothing is kept behind the end
      have hnone : names.lookup r ≠ some ⟨i⟩ := by
        rw [ne_eq, h, hi, Array.getElem?_size]
        simp
      have hb : (r == s) = false := beq_false_of_ne hr
      simp [hb, hnone, Ne.symm hr]
  · rw [if_neg hi]
    by_cases hr : r = s
    · have hold := getElem?_ne_of_lookup_eq_none h hs i
      simp [hr, hold, Ne.symm hi]
    · have hb : (r == s) = false := beq_false_of_ne hr
      simp [hb, h]

/-- The name of `s`, if it has one. -/
def find? (t : IndexedInterner) (s : String) : Option Name := t.names.lookup s

/-- The next free name goes to `s`, which has none. -/
def push (t : IndexedInterner) (s : String) (h : t.find? s = none) : IndexedInterner where
  spellings := t.spellings.push s
  names := (s, ⟨t.spellings.size⟩) :: t.names
  lookup_names := lookup_names_push t.lookup_names h

/-- Gives `s` a name, if there is one left.  Another caller may have done so since `s` was looked
for; then it has that name. -/
def assign (t : IndexedInterner) (s : String) : Except InternerFull (Name × IndexedInterner) :=
  match h : t.find? s with
  | some n => .ok (n, t)
  | none => if t.size < UInt32.size then .ok (⟨t.size⟩, t.push s h) else .error ⟨t.size⟩

/-- The name of `s`: the one it has, else a new one. -/
def tryIntern (t : IndexedInterner) (s : String) : Except InternerFull (Name × IndexedInterner) :=
  match t.find? s with
  | some n => .ok (n, t)
  | none => t.assign s

def empty : IndexedInterner := ⟨⟨#[]⟩, [], by simp⟩

/-! ## Calls -/

inductive Call where
  | intern (s : String)
  | lookup (n : Name)
  deriving DecidableEq, Repr

inductive Reply where
  | name (n : Name)
  | spelling (s : String)
  | full (e : InternerFull)
  deriving DecidableEq, Repr

/-- Answers a call.  What is refused changes nothing. -/
def call (t : IndexedInterner) : Call → Reply × IndexedInterner
  | .intern s =>
    match t.tryIntern s with
    | .ok (n, u) => (.name n, u)
    | .error e => (.full e, t)
  | .lookup n => (.spelling (t.spelling n), t)

def after (t : IndexedInterner) (calls : List Call) : IndexedInterner :=
  calls.foldl (fun t c => (t.call c).2) t

/-- The empty spelling, then the builtins. -/
def initial : IndexedInterner := empty.after (("" :: Interner.builtins).map .intern)

end IndexedInterner

end WireTypes
