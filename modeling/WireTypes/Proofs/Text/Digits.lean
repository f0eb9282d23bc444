import Mathlib.Data.List.Induction
import WireTypes.Text.Numeral

/-!
# Decimal digits

A number is read back from its digits, and these end before the first character that is none.  A row
of digits is the number that it writes, behind zeros.  `IsNumeral` says which texts are numerals,
and of what (`numeral?_eq_some_iff`).
-/

namespace WireTypes

theorem not_mem_toDigits {c : Char} (hc : c.isDigit = false) (n : Nat) : c ∉ Nat.toDigits 10 n := by
  intro h
  have hdigit := Nat.isDigit_of_mem_toDigits (by decide) (by decide) h
  rw [hc] at hdigit
  cases hdigit

theorem toDigits_inj {m n : Nat} (h : Nat.toDigits 10 m = Nat.toDigits 10 n) : m = n :=
  calc m
      = Nat.ofDigitChars 10 (Nat.toDigits 10 m) 0 := Nat.ofDigitChars_ten_toDigits.symm
    _ = n := by rw [h, Nat.ofDigitChars_ten_toDigits]

/-- A number may end before the text. -/
def NoDigitAhead (xs : List Char) : Prop := ∀ c, xs.head? = some c → c.isDigit = false

theorem noDigitAhead_nil : NoDigitAhead [] := fun _ h => nomatch h

theorem noDigitAhead_cons {c : Char} (hc : c.isDigit = false) (xs : List Char) :
    NoDigitAhead (c :: xs) := by
  intro d hd
  cases hd
  exact hc

theorem takeWhile_toDigits_append {xs : List Char} (hxs : NoDigitAhead xs) (n : Nat) :
    (Nat.toDigits 10 n ++ xs).takeWhile Char.isDigit = Nat.toDigits 10 n := by
  have hdigit : ∀ d ∈ Nat.toDigits 10 n, d.isDigit = true :=
    fun d hd => Nat.isDigit_of_mem_toDigits (by decide) (by decide) hd
  rw [List.takeWhile_append_of_pos hdigit]
  cases xs with
  | nil => rw [List.takeWhile_nil, List.append_nil]
  | cons c xs => rw [List.takeWhile_cons_of_neg (by simp [hxs c rfl]), List.append_nil]

/-- The digits at the front of a text tell a number, and what comes behind them. -/
theorem toDigits_append_cancel {m n : Nat} {xs ys : List Char} (hxs : NoDigitAhead xs)
    (hys : NoDigitAhead ys) (h : Nat.toDigits 10 m ++ xs = Nat.toDigits 10 n ++ ys) :
    m = n ∧ xs = ys := by
  have hdigits := congrArg (List.takeWhile Char.isDigit) h
  rw [takeWhile_toDigits_append hxs, takeWhile_toDigits_append hys] at hdigits
  rw [hdigits] at h
  exact ⟨toDigits_inj hdigits, List.append_cancel_left h⟩

theorem toDigits_append_inj {c : Char} (hc : c.isDigit = false) {m n : Nat} {xs ys : List Char}
    (h : Nat.toDigits 10 m ++ c :: xs = Nat.toDigits 10 n ++ c :: ys) : m = n ∧ xs = ys := by
  obtain ⟨hnumber, hrest⟩ :=
    toDigits_append_cancel (noDigitAhead_cons hc xs) (noDigitAhead_cons hc ys) h
  exact ⟨hnumber, (List.cons.inj hrest).2⟩

theorem toNat_of_isDigit {c : Char} (h : c.isDigit = true) : 48 ≤ c.toNat ∧ c.toNat ≤ 57 := by
  simp only [Char.isDigit, Bool.and_eq_true, decide_eq_true_eq, ge_iff_le,
    UInt32.le_iff_toNat_le] at h
  exact h

theorem digitChar_of_isDigit {c : Char} (h : c.isDigit = true) :
    c.toNat - '0'.toNat < 10 ∧ (c.toNat - '0'.toNat).digitChar = c := by
  obtain ⟨hmin, hmax⟩ := toNat_of_isDigit h
  have hzero : '0'.toNat = 48 := rfl
  have hlt : c.toNat - '0'.toNat < 10 := by omega
  refine ⟨hlt, Char.toNat_inj.mp ?_⟩
  rw [Nat.toNat_digitChar_of_lt_ten hlt]
  omega

theorem ofDigitChars_concat (ds : List Char) (c : Char) :
    Nat.ofDigitChars 10 (ds ++ [c]) 0 = 10 * Nat.ofDigitChars 10 ds 0 + (c.toNat - '0'.toNat) := by
  rw [Nat.ofDigitChars_append, Nat.ofDigitChars_cons, Nat.ofDigitChars_nil]

/-- Before the number that it writes, a row of digits has nothing but zeros. -/
theorem exists_zeros_append_toDigits {ds : List Char} (hne : ds ≠ [])
    (hdigits : ∀ c ∈ ds, c.isDigit = true) :
    ∃ k, ds = List.replicate k '0' ++ Nat.toDigits 10 (Nat.ofDigitChars 10 ds 0) := by
  induction ds using List.reverseRecOn with
  | nil => exact absurd rfl hne
  | append_singleton ds c ih =>
    obtain ⟨hlt, hchar⟩ := digitChar_of_isDigit (hdigits c (by simp))
    rw [ofDigitChars_concat]
    generalize c.toNat - '0'.toNat = d at hlt hchar
    have hone : Nat.toDigits 10 d = [c] := by rw [Nat.toDigits_of_lt_base hlt, hchar]
    by_cases hds : ds = []
    · subst hds
      refine ⟨0, ?_⟩
      rw [Nat.ofDigitChars_nil]
      simp [hone]
    · obtain ⟨k, hk⟩ := ih hds fun c' hc' => hdigits c' (List.mem_append_left _ hc')
      generalize hv : Nat.ofDigitChars 10 ds 0 = v at hk ⊢
      rcases Nat.eq_zero_or_pos v with rfl | hpos
      · refine ⟨k + 1, ?_⟩
        rw [hk, Nat.toDigits_zero]
        simp [hone, List.replicate_succ']
      · refine ⟨k, ?_⟩
        rw [← Nat.toDigits_append_toDigits (by decide) hpos hlt, hone, ← List.append_assoc, ← hk]

/-! ## Numerals -/

namespace Text

/-- An optional `+` and a row of digits. -/
inductive IsNumeral : List Char → Nat → Prop
  | intro {plus digits : List Char} (hplus : plus = [] ∨ plus = ['+']) (hne : digits ≠ [])
      (hdigits : ∀ c ∈ digits, c.isDigit = true) :
      IsNumeral (plus ++ digits) (Nat.ofDigitChars 10 digits 0)

theorem dropPlus_cases (s : List Char) :
    ∃ plus, (plus = [] ∨ plus = ['+']) ∧ s = plus ++ dropPlus s := by
  unfold dropPlus
  split
  · exact ⟨['+'], .inr rfl, rfl⟩
  · exact ⟨[], .inl rfl, rfl⟩

theorem dropPlus_append {plus digits : List Char} (hplus : plus = [] ∨ plus = ['+'])
    (hdigits : ∀ c ∈ digits, c.isDigit = true) : dropPlus (plus ++ digits) = digits := by
  rcases hplus with rfl | rfl
  · rw [List.nil_append]
    unfold dropPlus
    split
    · exact absurd (hdigits '+' List.mem_cons_self) (by decide)
    · rfl
  · rfl

theorem numeral?_eq_some_iff {limit n : Nat} {s : List Char} :
    numeral? limit s = some n ↔ IsNumeral s n ∧ n < limit := by
  have hvalue : ∀ digits, digitsValue digits = Nat.ofDigitChars 10 digits 0 := fun _ => rfl
  simp only [numeral?, isDigits, Option.ite_none_right_eq_some, Bool.and_eq_true, decide_eq_true_eq,
    Option.some.injEq, List.all_eq_true, Bool.not_eq_eq_eq_not, Bool.not_true,
    List.isEmpty_eq_false_iff, hvalue]
  constructor
  · rintro ⟨⟨⟨hne, hdigits⟩, hlt⟩, rfl⟩
    obtain ⟨plus, hplus, hs⟩ := dropPlus_cases s
    refine ⟨?_, hlt⟩
    nth_rewrite 1 [hs]
    exact .intro hplus hne hdigits
  · rintro ⟨⟨hplus, hne, hdigits⟩, hlt⟩
    rw [dropPlus_append hplus hdigits]
    exact ⟨⟨⟨hne, hdigits⟩, hlt⟩, rfl⟩

end Text

end WireTypes
