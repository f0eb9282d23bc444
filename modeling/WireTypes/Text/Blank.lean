/-!
# Blank characters

The characters with the Unicode property `White_Space`, and the removal of blanks at the ends of a
text.
-/

namespace WireTypes.Text

/-- The ranges of `White_Space`, in order. -/
def blankRanges : List (Nat × Nat) :=
  [(0x09, 0x0d), (0x20, 0x20), (0x85, 0x85), (0xa0, 0xa0), (0x1680, 0x1680), (0x2000, 0x200a),
   (0x2028, 0x2029), (0x202f, 0x202f), (0x205f, 0x205f), (0x3000, 0x3000)]

/-- The character has the property `White_Space`. -/
def isBlank (c : Char) : Bool := blankRanges.any fun r => r.1 ≤ c.toNat && c.toNat ≤ r.2

def trimStart (s : List Char) : List Char := s.dropWhile isBlank

def trimEnd (s : List Char) : List Char := (s.reverse.dropWhile isBlank).reverse

def trim (s : List Char) : List Char := trimEnd (trimStart s)

theorem length_trimStart_le (s : List Char) : (trimStart s).length ≤ s.length :=
  (List.dropWhile_sublist _).length_le

theorem length_trimEnd_le (s : List Char) : (trimEnd s).length ≤ s.length := by
  have := length_trimStart_le s.reverse
  simpa [trimStart, trimEnd] using this

theorem length_trim_le (s : List Char) : (trim s).length ≤ s.length :=
  Nat.le_trans (length_trimEnd_le _) (length_trimStart_le _)

/-- What follows `start` in `s`, if `s` begins with it. -/
def after? (start : List Char) (s : List Char) : Option (List Char) :=
  if start.isPrefixOf s then some (s.drop start.length) else none

/-- The parts before and after the last `c`. -/
def splitAtLast (c : Char) : List Char → Option (List Char × List Char)
  | [] => none
  | d :: s =>
    match splitAtLast c s with
    | some (before, tail) => some (d :: before, tail)
    | none => if d = c then some ([], s) else none

theorem eq_append_of_splitAtLast {c : Char} {s before tail : List Char}
    (h : splitAtLast c s = some (before, tail)) : s = before ++ c :: tail := by
  induction s generalizing before tail with
  | nil => simp [splitAtLast] at h
  | cons d s ih =>
    unfold splitAtLast at h
    split at h
    · next hs =>
      simp only [Option.some.injEq, Prod.mk.injEq] at h
      obtain ⟨rfl, rfl⟩ := h
      simp [ih hs]
    · split at h
      · next hd =>
        simp only [Option.some.injEq, Prod.mk.injEq] at h
        obtain ⟨rfl, rfl⟩ := h
        simp [hd]
      · simp at h

end WireTypes.Text
