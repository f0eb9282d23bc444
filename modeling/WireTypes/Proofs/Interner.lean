import Mathlib.Data.List.Nodup
import WireTypes.Interner

/-!
# One name for each spelling

`Interner.Distinct` says that no spelling is kept twice.  `intern_cases` is all that `intern` can
do; from it

* a name that was handed out stays in range (`size_le_intern`, `index_intern_lt`) and keeps its
  spelling (`Extends.spelling`);
* the spellings stay distinct (`Distinct.intern`), so names in range with one spelling are one name
  (`spelling_inj`).
-/

namespace WireTypes

theorem getElem?_eq_of_prefix {α : Type} {xs ys : Array α} (h : xs.toList <+: ys.toList) {i : Nat}
    (hi : i < xs.size) : ys[i]? = xs[i]? := by
  obtain ⟨rest, hrest⟩ := h
  rw [← Array.getElem?_toList, ← hrest, List.getElem?_append_left hi, Array.getElem?_toList]

namespace Interner

def Distinct (t : Interner) : Prop := t.spellings.toList.Nodup

/-- `n` was handed out by `t`. -/
def Knows (t : Interner) (n : Name) : Prop := n.index < t.size

/-- A known spelling is found, an unknown one is put at the end. -/
theorem intern_cases (t : Interner) (s : String) :
    (∃ i, t.spellings.toList[i]? = some s ∧ t.intern s = (⟨i⟩, t)) ∨
    (s ∉ t.spellings.toList ∧ t.intern s = (⟨t.size⟩, ⟨t.spellings.push s⟩)) := by
  unfold intern
  cases h : t.spellings.idxOf? s with
  | none =>
    right
    rw [Array.idxOf?_eq_none_iff] at h
    exact ⟨by simpa using h, rfl⟩
  | some i =>
    left
    refine ⟨i, ?_, rfl⟩
    obtain ⟨spellings⟩ := t
    rw [← spellings.toArray_toList, List.idxOf?_toArray, List.idxOf?_eq_some_iff] at h
    obtain ⟨hi, he, -⟩ := h
    rw [List.getElem?_eq_getElem hi, he]

theorem size_le_intern (t : Interner) (s : String) : t.size ≤ (t.intern s).2.size := by
  rcases intern_cases t s with ⟨i, -, h⟩ | ⟨-, h⟩
  · exact Nat.le_of_eq (by rw [h])
  · rw [h]
    simp [size]

theorem index_intern_lt (t : Interner) (s : String) : (t.intern s).2.Knows (t.intern s).1 := by
  unfold Knows
  rcases intern_cases t s with ⟨i, hi, h⟩ | ⟨-, h⟩
  · rw [h]
    obtain ⟨hlt, -⟩ := List.getElem?_eq_some_iff.mp hi
    simpa [size] using hlt
  · rw [h]
    simp [size]

theorem Distinct.intern {t : Interner} (ht : t.Distinct) (s : String) :
    (t.intern s).2.Distinct := by
  rcases intern_cases t s with ⟨i, -, h⟩ | ⟨hs, h⟩
  · rw [h]
    exact ht
  · rw [h]
    unfold Distinct
    simp only [Array.toList_push]
    rw [List.nodup_append]
    refine ⟨ht, by simp, ?_⟩
    intro a ha b hb
    rw [List.mem_singleton] at hb
    subst hb
    rintro rfl
    exact hs ha

theorem spelling_inj {t : Interner} (ht : t.Distinct) {m n : Name} (hm : t.Knows m) (hn : t.Knows n)
    (h : t.spelling m = t.spelling n) : m = n := by
  obtain ⟨i⟩ := m
  obtain ⟨j⟩ := n
  unfold Knows size at hm hn
  unfold spelling at h
  simp only at hm hn h
  rw [Array.getD_eq_getD_getElem?, Array.getD_eq_getD_getElem?, Array.getElem?_eq_getElem hm,
    Array.getElem?_eq_getElem hn, Option.getD_some, Option.getD_some] at h
  have hi : i < t.spellings.toList.length := by simpa using hm
  have hj : j < t.spellings.toList.length := by simpa using hn
  have hij : t.spellings.toList[i] = t.spellings.toList[j] := by simpa using h
  rw [List.Nodup.getElem_inj_iff ht] at hij
  rw [hij]

theorem spelling_intern (t : Interner) (s : String) :
    (t.intern s).2.spelling (t.intern s).1 = s := by
  unfold spelling
  rcases intern_cases t s with ⟨i, hi, h⟩ | ⟨-, h⟩
  · rw [h, Array.getD_eq_getD_getElem?, ← Array.getElem?_toList, hi, Option.getD_some]
  · rw [h]
    simp [size]

theorem intern_spelling {t : Interner} (ht : t.Distinct) {n : Name} (hn : t.Knows n) :
    t.intern (t.spelling n) = (n, t) := by
  have hsame : (t.intern (t.spelling n)).2 = t := by
    rcases intern_cases t (t.spelling n) with ⟨i, -, h⟩ | ⟨hnew, -⟩
    · rw [h]
    · refine absurd ?_ hnew
      unfold spelling
      rw [Array.getD_eq_getD_getElem?, Array.getElem?_eq_getElem hn, Option.getD_some]
      exact Array.getElem_mem_toList hn
  have hknows := index_intern_lt t (t.spelling n)
  have hspelling := spelling_intern t (t.spelling n)
  rw [hsame] at hknows hspelling
  exact Prod.ext (spelling_inj ht hknows hn hspelling) hsame

/-! ## Growth -/

/-- Every spelling of `t` is in its place in `u`. -/
def Extends (t u : Interner) : Prop := t.spellings.toList <+: u.spellings.toList

theorem Extends.refl (t : Interner) : t.Extends t := List.prefix_rfl

theorem Extends.trans {t u v : Interner} (h : t.Extends u) (h' : u.Extends v) : t.Extends v :=
  List.IsPrefix.trans h h'

theorem Extends.knows {t u : Interner} (h : t.Extends u) {n : Name} (hn : t.Knows n) : u.Knows n :=
  Nat.lt_of_lt_of_le hn (List.IsPrefix.length_le h)

theorem Extends.spelling {t u : Interner} (h : t.Extends u) {n : Name} (hn : t.Knows n) :
    u.spelling n = t.spelling n := by
  unfold Interner.spelling
  rw [Array.getD_eq_getD_getElem?, Array.getD_eq_getD_getElem?, getElem?_eq_of_prefix h hn]

theorem extends_intern (t : Interner) (s : String) : t.Extends (t.intern s).2 := by
  rcases intern_cases t s with ⟨i, -, h⟩ | ⟨-, h⟩
  · rw [h]
    exact .refl t
  · rw [h]
    exact ⟨[s], by simp⟩

theorem mem_spellings_intern {t : Interner} {r s : String} :
    r ∈ (t.intern s).2.spellings.toList ↔ r ∈ t.spellings.toList ∨ r = s := by
  rcases intern_cases t s with ⟨i, hi, h⟩ | ⟨-, h⟩
  · rw [h]
    exact ⟨.inl, fun hr => hr.elim id fun heq => heq ▸ List.mem_of_getElem? hi⟩
  · rw [h]
    simp

/-! ## Several spellings -/

theorem size_le_internAll (ss : List String) :
    ∀ t : Interner, t.size ≤ (t.internAll ss).2.size := by
  induction ss with
  | nil => intro t; exact Nat.le_refl _
  | cons s ss ih =>
    intro t
    exact Nat.le_trans (size_le_intern t s) (ih (t.intern s).2)

theorem index_internAll_lt (ss : List String) :
    ∀ t : Interner, ∀ n ∈ (t.internAll ss).1, (t.internAll ss).2.Knows n := by
  induction ss with
  | nil => intro t n hn; simp [internAll] at hn
  | cons s ss ih =>
    intro t n hn
    rcases List.mem_cons.mp hn with rfl | hn
    · exact Nat.lt_of_lt_of_le (index_intern_lt t s) (size_le_internAll ss (t.intern s).2)
    · exact ih (t.intern s).2 n hn

theorem Distinct.internAll (ss : List String) :
    ∀ {t : Interner}, t.Distinct → (t.internAll ss).2.Distinct := by
  induction ss with
  | nil => intro t ht; exact ht
  | cons s ss ih => intro t ht; exact ih (ht.intern s)

theorem mem_spellings_internAll {r : String} (ss : List String) :
    ∀ {t : Interner}, r ∈ (t.internAll ss).2.spellings.toList ↔
      r ∈ t.spellings.toList ∨ r ∈ ss := by
  induction ss with
  | nil => intro t; simp [internAll]
  | cons s ss ih =>
    intro t
    show r ∈ ((t.intern s).2.internAll ss).2.spellings.toList ↔ _
    rw [ih, mem_spellings_intern, List.mem_cons, or_assoc]

theorem distinct_initial : initial.Distinct := by
  refine Distinct.internAll builtins ?_
  unfold Distinct
  simp

end Interner

end WireTypes
