import WireTypes.Text.Blank

/-!
# Blanks around a text

`Blanks` holds of texts of blanks, `Solid` of texts that neither begin nor end with one.  A text is
blanks, its trimmed part, and blanks again (`exists_blanks_trim`), and what is left by trimming is
the solid part (`trim_eq_of_solid`).
-/

namespace WireTypes.Text

def Blanks (s : List Char) : Prop := ∀ c ∈ s, isBlank c = true

/-- There is a first and a last character, and both can be seen. -/
structure Solid (s : List Char) : Prop where
  ne_nil : s ≠ []
  head : ∀ c, s.head? = some c → isBlank c = false
  last : ∀ c, s.getLast? = some c → isBlank c = false

theorem blanks_nil : Blanks [] := List.forall_mem_nil _

theorem Blanks.append {s s' : List Char} (h : Blanks s) (h' : Blanks s') : Blanks (s ++ s') :=
  List.forall_mem_append.mpr ⟨h, h'⟩

/-- The printing characters of ASCII can be seen. -/
theorem isBlank_of_printing {c : Char} (hmin : 0x21 ≤ c.toNat) (hmax : c.toNat ≤ 0x7e) :
    isBlank c = false := by
  simp [isBlank, blankRanges]
  omega

/-! ## Trimming -/

theorem trimStart_append {before : List Char} (h : Blanks before) (s : List Char) :
    trimStart (before ++ s) = trimStart s := List.dropWhile_append_of_pos h

theorem trimStart_eq_self {s : List Char} (h : ∀ c, s.head? = some c → isBlank c = false) :
    trimStart s = s := by
  cases s with
  | nil => rfl
  | cons c s =>
    have hc : isBlank c = false := h c rfl
    unfold trimStart
    rw [List.dropWhile_cons_of_neg (by simp [hc])]

theorem exists_blanks_trimStart (s : List Char) :
    ∃ before, Blanks before ∧ s = before ++ trimStart s := by
  refine ⟨s.takeWhile isBlank, ?_, (List.takeWhile_append_dropWhile).symm⟩
  exact List.all_eq_true.mp List.all_takeWhile

theorem trimEnd_eq (s : List Char) : trimEnd s = (trimStart s.reverse).reverse := rfl

theorem exists_blanks_trim (s : List Char) :
    ∃ before behind, Blanks before ∧ Blanks behind ∧ s = before ++ trim s ++ behind := by
  obtain ⟨before, hbefore, hstart⟩ := exists_blanks_trimStart s
  obtain ⟨behind, hbehind, hend⟩ := exists_blanks_trimStart (trimStart s).reverse
  have hrest : trimStart s = trim s ++ behind.reverse := by
    have h := congrArg List.reverse hend
    rw [List.reverse_reverse, List.reverse_append] at h
    exact h
  refine ⟨before, behind.reverse, hbefore, fun c hc => hbehind c (List.mem_reverse.mp hc), ?_⟩
  rw [List.append_assoc, ← hrest]
  exact hstart

/-- Between blanks, the solid part is what trimming leaves. -/
theorem trim_eq_of_solid {before core behind : List Char} (hbefore : Blanks before)
    (hcore : Solid core) (hbehind : Blanks behind) : trim (before ++ core ++ behind) = core := by
  have hstart : trimStart (before ++ core ++ behind) = core ++ behind := by
    rw [List.append_assoc, trimStart_append hbefore]
    refine trimStart_eq_self fun c hc => hcore.head c ?_
    rwa [List.head?_append, Option.or_of_isSome (by simpa using hcore.ne_nil)] at hc
  have hend : trimStart (behind.reverse ++ core.reverse) = core.reverse := by
    rw [trimStart_append fun c hc => hbehind c (List.mem_reverse.mp hc)]
    refine trimStart_eq_self fun c hc => hcore.last c ?_
    rwa [List.head?_reverse] at hc
  unfold trim
  rw [hstart, trimEnd_eq, List.reverse_append, hend, List.reverse_reverse]

/-! ## Beginnings -/

theorem after?_eq_some_iff {start s rest : List Char} :
    after? start s = some rest ↔ s = start ++ rest := by
  unfold after?
  rw [Option.ite_none_right_eq_some, List.isPrefixOf_iff_prefix, Option.some.injEq]
  constructor
  · rintro ⟨⟨t, rfl⟩, rfl⟩
    rw [List.drop_left]
  · rintro rfl
    exact ⟨⟨rest, rfl⟩, List.drop_left⟩

end WireTypes.Text
