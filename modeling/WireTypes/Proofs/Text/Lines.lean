import Mathlib.Algebra.GroupWithZero.Nat
import Mathlib.Data.List.Basic
import WireTypes.Proofs.Text.Shift

/-!
# Lines and their characters

`lines` takes a text apart at its line breaks (`lines_join`).  A text that is put together with
separators is the parts before any of its parts, each with a separator behind it, the part, and the
others, each with a separator before it (`intercalate_append_cons`); its length is the sum of these
(`length_intercalate`).
-/

namespace WireTypes

/-- The lines of a text in which each line ends with a line break. -/
def lines (text : String) : List String := (text.toList.splitOn '\n').dropLast.map String.ofList

/-! ## Characters -/

theorem length_le_utf8ByteSize (s : String) : s.length ≤ s.utf8ByteSize := by
  rw [← String.ofList_toList (s := s)]
  induction s.toList with
  | nil => exact Nat.zero_le _
  | cons c cs ih =>
    have hpos := c.utf8Size_pos
    rw [String.ofList_cons, String.utf8ByteSize_append, String.length_append,
      String.length_singleton, String.utf8ByteSize_singleton]
    omega

theorem length_toString_le_iff {n : UInt32} {k : Nat} (hk : 0 < k) :
    (toString n).length ≤ k ↔ n.toNat < Nat.pow 10 k :=
  Nat.length_repr_le_iff hk

theorem length_join (parts : List String) :
    (String.join parts).length = (parts.map String.length).sum := by
  induction parts with
  | nil => rfl
  | cons s parts ih => rw [String.join_cons, String.length_append, List.map_cons, List.sum_cons, ih]

/-! ## Line breaks -/

theorem oneLine_join {parts : List String} (h : ∀ s ∈ parts, OneLine s) :
    OneLine (String.join parts) := by
  unfold OneLine
  rw [String.toList_join, List.mem_flatMap]
  rintro ⟨s, hs, hmem⟩
  exact h s hs hmem

theorem lines_join {ls : List String} (h : ∀ l ∈ ls, OneLine l) :
    lines (String.join (ls.map (· ++ "\n"))) = ls := by
  have hsplit : (String.join (ls.map (· ++ "\n"))).toList.splitOn '\n' =
      ls.map String.toList ++ [[]] := by
    induction ls with
    | nil => rfl
    | cons l ls ih =>
      have hl : '\n' ∉ l.toList := h l List.mem_cons_self
      have hrest := ih fun l' hl' => h l' (List.mem_cons_of_mem l hl')
      have hbreak : ("\n" : String).toList = ['\n'] := rfl
      rw [List.map_cons, String.join_cons, String.toList_append, String.toList_append, hbreak,
        List.append_assoc, List.singleton_append,
        List.splitOn_append_cons_self_of_not_mem hl, hrest]
      rfl
  unfold lines
  rw [hsplit, List.dropLast_concat, List.map_map]
  exact List.map_id'' (fun l => String.ofList_toList) ls

/-! ## Separators -/

section Separators

variable (separator : String)

theorem intercalate_cons_eq (s : String) (parts : List String) :
    separator.intercalate (s :: parts) = s ++ String.join (parts.map (separator ++ ·)) := by
  induction parts generalizing s with
  | nil => simp
  | cons t parts ih =>
    rw [String.intercalate_cons_cons, ih, List.map_cons, String.join_cons, String.append_assoc,
      String.append_assoc]

theorem intercalate_append_cons (left : List String) (s : String) (right : List String) :
    separator.intercalate (left ++ s :: right) =
      String.join (left.map (· ++ separator)) ++
        (s ++ String.join (right.map (separator ++ ·))) := by
  induction left with
  | nil =>
    rw [List.nil_append, intercalate_cons_eq, List.map_nil, String.join_nil, String.empty_append]
  | cons r left ih =>
    have hrest : left ++ s :: right ≠ [] := by simp
    rw [List.cons_append, String.intercalate_cons_of_ne_nil hrest, ih, List.map_cons,
      String.join_cons]
    exact String.append_assoc.symm

theorem length_intercalate (s : String) (parts : List String) :
    (separator.intercalate (s :: parts)).length + separator.length =
      ((s :: parts).map fun t => t.length + separator.length).sum := by
  have hsum : (parts.map fun t => (separator ++ t).length) =
      parts.map fun t => t.length + separator.length :=
    List.map_congr_left fun t _ => by rw [String.length_append, Nat.add_comm]
  rw [intercalate_cons_eq, String.length_append, length_join, List.map_map, List.map_cons,
    List.sum_cons]
  show s.length + (parts.map fun t => (separator ++ t).length).sum + separator.length = _
  rw [hsum]
  omega

end Separators

end WireTypes
