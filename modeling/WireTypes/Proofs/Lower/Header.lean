import Mathlib.Algebra.GroupWithZero.Nat
import WireTypes.Lower.Basic

/-!
# Headers

`fieldWidth?` is the number of bits of a header field, as a number and not as a word.  A header is
lowered without a problem exactly if every field has a width and their exact sum is a whole number
of bytes and a width (`reports_lowerHeader_eq_nil`): a sum that is too large is held at `maxWidth`,
which is no whole number of bytes.
-/

namespace WireTypes

/-- A held sum is the exact sum, or `maxWidth` if that is too large. -/
theorem toNat_foldl_satAdd (ws : List UInt32) :
    ∀ a : UInt32, (ws.foldl satAdd a).toNat =
      min (a.toNat + (ws.map UInt32.toNat).sum) maxWidth := by
  induction ws with
  | nil =>
    intro a
    have := a.toNat_lt
    simp only [List.foldl_nil, List.map_nil, List.sum_nil, maxWidth]
    omega
  | cons w ws ih =>
    intro a
    rw [List.foldl_cons, ih, toNat_satAdd, List.map_cons, List.sum_cons]
    simp only [maxWidth]
    omega

theorem mod_eight_eq_zero (w : UInt32) : w % 8 = 0 ↔ w.toNat % 8 = 0 := by
  rw [← UInt32.toNat_inj, UInt32.toNat_mod]
  rfl

namespace TypeTable

/-- Bits of a header field, if there is a number of bits or a boolean behind its names. -/
def fieldWidth? (t : TypeTable) (f : Field) : Option Nat :=
  match t.resolve? f.type with
  | none => none
  | some ty =>
    match t.kind ty with
    | .bits width _ => some width.toNat
    | .bool => some 1
    | _ => none

/-- A field has a width, or a problem of one of three sorts. -/
theorem headerField_cases (t : TypeTable) (header : Name) (span : Span) (f : Field) :
    (∃ w, t.headerField header span f = .ok w ∧ t.fieldWidth? f = some w.toNat) ∨
    (∃ d, t.headerField header span f = .error d ∧ t.fieldWidth? f = none ∧
      (d = t.unknownFieldType f ∨ (∃ w, d = t.varbitField header span f w) ∨
        ∃ kind, d = t.fieldKind header f kind)) := by
  unfold headerField fieldWidth?
  cases hr : t.resolve? f.type with
  | none => exact .inr ⟨_, rfl, rfl, .inl rfl⟩
  | some ty =>
    cases hk : t.kind ty with
    | bits width signed => exact .inl ⟨width, by simp [hk], by simp [hk]⟩
    | bool => exact .inl ⟨1, by simp [hk], by simp [hk]⟩
    | varbits width => exact .inr ⟨_, by simp [hk], by simp [hk], .inr (.inl ⟨width, rfl⟩)⟩
    | _ => exact .inr ⟨_, by simp [hk]; rfl, by simp [hk], .inr (.inr ⟨_, rfl⟩)⟩

/-- What a header reports comes from a field, or says that it ends within a byte. -/
theorem mem_reports_lowerHeader {t : TypeTable} {n : Name} {fields : List Field} {span : Span}
    {d : Diagnostic} (h : d ∈ (t.lowerHeader n fields span).reports) :
    (∃ f ∈ fields, d = t.unknownFieldType f ∨ (∃ w, d = t.varbitField n span f w) ∨
      ∃ kind, d = t.fieldKind n f kind) ∨ ∃ w, d = t.misalignedHeader n span w := by
  unfold lowerHeader at h
  rcases List.mem_append.mp h with h | h
  · left
    obtain ⟨x, hx, hd⟩ := List.mem_filterMap.mp h
    obtain ⟨f, hf, rfl⟩ := List.mem_map.mp hx
    refine ⟨f, hf, ?_⟩
    rcases headerField_cases t n span f with ⟨w, he, -⟩ | ⟨d', he, -, hd'⟩
    · rw [he] at hd
      cases hd
    · rw [he] at hd
      obtain rfl := Option.some.inj hd
      exact hd'
  · right
    split at h
    · cases h
    · exact ⟨_, List.mem_singleton.mp h⟩

theorem fieldReports_eq_nil (t : TypeTable) (n : Name) (span : Span) (fields : List Field) :
    ∀ widths : List Nat,
      (fieldReports (fields.map (t.headerField n span)) = [] ∧
        (soundBits (fields.map (t.headerField n span))).map UInt32.toNat = widths) ↔
      fields.map t.fieldWidth? = widths.map some := by
  induction fields with
  | nil =>
    intro widths
    cases widths <;> simp [fieldReports, soundBits]
  | cons f fields ih =>
    intro widths
    rcases headerField_cases t n span f with ⟨w, he, hw⟩ | ⟨d, he, hw, -⟩
    · cases widths with
      | nil => simp [soundBits, he, Except.toOption]
      | cons k widths =>
        rw [List.map_cons, he, List.map_cons, hw, List.map_cons, List.cons.injEq,
          Option.some.injEq, ← ih widths]
        show (fieldReports _ = [] ∧ w.toNat :: (soundBits _).map UInt32.toNat = k :: widths) ↔ _
        rw [List.cons.injEq, and_left_comm]
        exact Iff.rfl
    · rw [List.map_cons, List.map_cons, hw]
      cases widths <;> simp [fieldReports, he]

/-- **A header without problems**: all fields have widths, and their sum is a whole number
of bytes and a width. -/
theorem reports_lowerHeader_eq_nil (t : TypeTable) (n : Name) (fields : List Field) (span : Span) :
    (t.lowerHeader n fields span).reports = [] ↔
      ∃ widths : List Nat, fields.map t.fieldWidth? = widths.map some ∧ 8 ∣ widths.sum ∧
        widths.sum < UInt32.size := by
  have hwidth : ∀ ws : List UInt32, ws.foldl satAdd 0 % 8 = 0 ↔
      8 ∣ (ws.map UInt32.toNat).sum ∧ (ws.map UInt32.toNat).sum < UInt32.size := by
    intro ws
    rw [mod_eight_eq_zero, toNat_foldl_satAdd]
    simp only [UInt32.toNat_zero, maxWidth, UInt32.size]
    omega
  unfold lowerHeader
  simp only [List.append_eq_nil_iff]
  constructor
  · rintro ⟨hf, hw⟩
    refine ⟨_, (fieldReports_eq_nil t n span fields _).mp ⟨hf, rfl⟩, ?_⟩
    rw [← hwidth]
    split at hw
    · assumption
    · cases hw
  · rintro ⟨widths, hmap, hsum⟩
    obtain ⟨hf, rfl⟩ := (fieldReports_eq_nil t n span fields widths).mpr hmap
    exact ⟨hf, if_pos ((hwidth _).mpr hsum)⟩

end TypeTable

end WireTypes
