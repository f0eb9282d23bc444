import Mathlib.Data.List.Basic
import WireTypes.Directory

/-!
# Writing to a directory

* `read_put`: a text that is put where a path may be written is read back from that path;
* `lookup_put`: no other file changes.

A path is followed step by step, and a file that comes in changes what the steps before it meet in
no way: they were directories and stay so (`place_put`).
-/

namespace WireTypes.Directory

variable {d : Directory} {here : Steps}

theorem lookup_filter_ne (here other : Steps) (h : other ≠ here)
    (files : List (Steps × FileContent)) :
    (files.filter (·.1 ≠ here)).lookup other = files.lookup other := by
  induction files with
  | nil => rfl
  | cons f rest ih =>
    obtain ⟨key, content⟩ := f
    by_cases hkey : key = here
    · rw [List.filter_cons_of_neg (by simpa using hkey), ih, List.lookup_cons]
      have hother : (other == key) = false := by simpa [hkey] using h
      rw [hother]
    · rw [List.filter_cons_of_pos (by simpa using hkey), List.lookup_cons, List.lookup_cons, ih]

theorem lookup_put (d : Directory) (here : Steps) (text : String) (other : Steps) :
    (d.put here text).files.lookup other = if other = here then some (.text text)
    else d.files.lookup other := by
  unfold put
  rw [List.lookup_cons]
  split
  · next h => rw [if_pos (by simpa using h)]
  · next h =>
    have hne : other ≠ here := by simpa using h
    rw [if_neg hne, lookup_filter_ne here other hne]

theorem isAncestor_iff {steps : Steps} :
    d.isAncestor steps = true ↔ ∃ f ∈ d.files, steps <+: f.1 ∧ steps.length < f.1.length := by
  simp [isAncestor]

theorem isAncestor_put {steps : Steps} (h : d.isAncestor steps = true) (text : String) :
    (d.put here text).isAncestor steps = true := by
  rw [isAncestor_iff] at h ⊢
  obtain ⟨f, hf, hprefix⟩ := h
  by_cases hkey : f.1 = here
  · exact ⟨(here, .text text), List.mem_cons_self, hkey ▸ hprefix⟩
  · exact ⟨f, List.mem_cons_of_mem _ (List.mem_filter.mpr ⟨hf, by simpa using hkey⟩), hprefix⟩

/-- A file makes a directory of nothing but what leads to it. -/
theorem isAncestor_of_put {text : String} (h : (d.put here text).isAncestor here = true) :
    d.isAncestor here = true := by
  rw [isAncestor_iff] at h ⊢
  obtain ⟨f, hf, hprefix, hlt⟩ := h
  rcases List.mem_cons.mp hf with rfl | hf
  · exact absurd hlt (Nat.lt_irrefl _)
  · exact ⟨f, (List.mem_filter.mp hf).1, hprefix, hlt⟩

/-- How a place may look once a text was put at `here`. -/
def Place.Becomes (here : Steps) (p q : Place) : Prop :=
  (∀ a, p = .directory a → q = .directory a) ∧ (p = .file here ∨ p = .vacant here → q = .file here)

theorem becomes_directory (here a : Steps) : Place.Becomes here (.directory a) (.directory a) :=
  ⟨fun _ h => h, by simp⟩

theorem place_put (d : Directory) (steps here : Steps) (text : String) :
    Place.Becomes here (d.place steps) ((d.put here text).place steps) := by
  by_cases habove : (isAbove steps || d.isAncestor steps) = true
  · have hplace : d.place steps = .directory steps := if_pos habove
    have hput : (d.put here text).place steps = .directory steps := by
      refine if_pos ?_
      rw [Bool.or_eq_true] at habove ⊢
      exact habove.imp_right fun h => isAncestor_put h text
    rw [hplace, hput]
    exact becomes_directory here steps
  · have hplace : d.place steps = if (d.files.lookup steps).isSome then .file steps
    else .vacant steps :=
      if_neg habove
    constructor
    · intro a h
      rw [hplace] at h
      split at h <;> cases h
    · intro h
      have hhere : steps = here := by
        rw [hplace] at h
        split at h
        · simpa using h
        · simpa using h
      subst hhere
      have hstill : ¬ (isAbove steps || (d.put steps text).isAncestor steps) = true := by
        rw [Bool.or_eq_true] at habove ⊢
        exact fun h => habove (h.imp_right isAncestor_of_put)
      have hput : (d.put steps text).place steps =
          if ((d.put steps text).files.lookup steps).isSome then .file steps
          else .vacant steps := if_neg hstill
      rw [hput, lookup_put, if_pos rfl]
      rfl

theorem walk_put {a : Steps} {step : String} {p : Place} (h : d.walk (.directory a) step = .ok p)
    (here : Steps) (text : String) :
    ∃ q, (d.put here text).walk (.directory a) step = .ok q ∧ Place.Becomes here p q := by
  unfold walk at h ⊢
  simp only at h ⊢
  split at h
  · next hstay =>
    cases h
    exact ⟨_, if_pos hstay, becomes_directory here a⟩
  · next hstay =>
    rw [if_neg hstay]
    split at h
    · next hup =>
      cases h
      exact ⟨_, if_pos hup, becomes_directory here _⟩
    · next hup =>
      cases h
      exact ⟨_, if_neg hup, place_put d _ here text⟩

/-- From a place that is no directory there is no step. -/
theorem eq_of_foldlM_walk {path : Steps} {p r : Place} (hp : ∀ a, p ≠ .directory a)
    (h : path.foldlM d.walk p = .ok r) : path = [] ∧ p = r := by
  cases path with
  | nil => exact ⟨rfl, Except.ok.inj h⟩
  | cons step rest =>
    cases p with
    | directory a => exact absurd rfl (hp a)
    | file b | vacant b => cases h

/-- A path to the place of a text leads to the text. -/
theorem foldlM_walk_put (text : String) (path : Steps) : ∀ {a : Steps} {r : Place},
    path.foldlM d.walk (.directory a) = .ok r → r = .file here ∨ r = .vacant here →
      path.foldlM (d.put here text).walk (.directory a) = .ok (.file here) := by
  induction path with
  | nil =>
    intro a r h hr
    cases h
    rcases hr with hr | hr <;> cases hr
  | cons step rest ih =>
    intro a r h hr
    rw [List.foldlM_cons] at h ⊢
    cases hstep : d.walk (.directory a) step with
    | error fault =>
      rw [hstep] at h
      cases h
    | ok p =>
      rw [hstep] at h
      obtain ⟨q, hq, hdirectory, hplace⟩ := walk_put hstep here text
      rw [hq]
      cases p with
      | directory b =>
        rw [hdirectory b rfl]
        exact ih h hr
      | file b | vacant b =>
        -- the path ends here
        obtain ⟨rfl, rfl⟩ := eq_of_foldlM_walk (by simp) h
        rw [hplace hr]
        rfl

theorem follow_put {path : Steps} {r : Place} (h : d.follow path = .ok r)
    (hr : r = .file here ∨ r = .vacant here) (text : String) :
    (d.put here text).follow path = .ok (.file here) := by
  unfold follow at h ⊢
  split at h
  · cases h
  · split at h
    · cases h
      rcases hr with hr | hr <;> cases hr
    · cases h
  · exact foldlM_walk_put text _ h hr

theorem follow_of_target {path : Steps} (h : d.target path = .ok here) :
    ∃ r, d.follow path = .ok r ∧ (r = .file here ∨ r = .vacant here) := by
  unfold target at h
  split at h
  · cases hstem : d.follow (stem path) with
    | error fault | ok p =>
      rw [hstem] at h
      cases h
  · cases hfollow : d.follow path with
    | error fault =>
      rw [hfollow] at h
      cases h
    | ok r =>
      rw [hfollow] at h
      cases r with
      | directory a => cases h
      | file a =>
        cases h
        exact ⟨_, rfl, .inl rfl⟩
      | vacant a =>
        cases h
        exact ⟨_, rfl, .inr rfl⟩

theorem read_put {path : String} (h : d.target (steps path) = .ok here) (text : String) :
    (d.put here text).read path = .ok text := by
  obtain ⟨r, hfollow, hr⟩ := follow_of_target h
  unfold read
  rw [follow_put hfollow hr text]
  simp only [bind, Except.bind, lookup_put, if_pos, Option.bind_some]
  rfl

end WireTypes.Directory
