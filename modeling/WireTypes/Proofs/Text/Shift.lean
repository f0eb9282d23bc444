import Mathlib.Data.List.Basic
import WireTypes.Proofs.Text.Digits

/-!
# Shifted texts

`shift margin text` puts a margin behind every line break of a text, so that the text keeps its
shape when it is written that much further to the right.  Texts in one line stay as they are.
-/

namespace WireTypes

def spaces (n : Nat) : String := "".pushn ' ' n

def OneLine (s : String) : Prop := '\n' ∉ s.toList

instance (s : String) : Decidable (OneLine s) := inferInstanceAs (Decidable ('\n' ∉ s.toList))

/-- The text with `margin` behind every line break. -/
def shift (margin text : String) : String :=
  .ofList (text.toList.flatMap fun c => if c = '\n' then c :: margin.toList else [c])

/-! ## Blanks -/

theorem toList_spaces (n : Nat) : (spaces n).toList = List.replicate n ' ' := by
  induction n with
  | zero => rfl
  | succ n ih =>
    have hpush : spaces (n + 1) = (spaces n).push ' ' := rfl
    rw [hpush, String.toList_push, ih, List.replicate_succ']

theorem spaces_zero : spaces 0 = "" := rfl

theorem spaces_add (m n : Nat) : spaces (m + n) = spaces m ++ spaces n := by
  rw [← String.toList_inj, String.toList_append]
  simp only [toList_spaces, List.replicate_add]

/-! ## Texts in one line -/

@[simp] theorem oneLine_append {s t : String} : OneLine (s ++ t) ↔ OneLine s ∧ OneLine t := by
  unfold OneLine
  rw [String.toList_append, List.mem_append, not_or]

@[simp] theorem oneLine_spaces (n : Nat) : OneLine (spaces n) := by
  unfold OneLine
  rw [toList_spaces]
  intro h
  exact absurd (List.eq_of_mem_replicate h) (by decide)

@[simp] theorem oneLine_toString (n : UInt32) : OneLine (toString n) := by
  have hdigits := not_mem_toDigits (c := '\n') (by decide) n.toNat
  simpa [OneLine, toString, Nat.toList_repr] using hdigits

/-! ## Shifting -/

theorem shift_append (margin s t : String) :
    shift margin (s ++ t) = shift margin s ++ shift margin t := by
  unfold shift
  rw [String.toList_append, List.flatMap_append, String.ofList_append]

theorem shift_newline (margin : String) : shift margin "\n" = "\n" ++ margin := by
  rw [← String.toList_inj]
  simp [shift]

theorem OneLine.shift {s : String} (h : OneLine s) (margin : String) : shift margin s = s := by
  have hsame : (s.toList.flatMap fun c => if c = '\n' then c :: margin.toList else [c]) =
    s.toList.flatMap ([·]) := by
    refine List.flatMap_congr fun c hc => if_neg ?_
    rintro rfl
    exact h hc
  unfold WireTypes.shift
  rw [hsame, List.flatMap_singleton', String.ofList_toList]

end WireTypes
