import Mathlib.Data.List.Perm.Subperm
import WireTypes.Proofs.Lower.Outcome

/-!
# Following names

`resolve?` gives up after one step more than the table has nodes, `Resolves` follows names for as
long as it takes.  Names that lead to a node pass no node twice, so the bound is never met:
`Sound.resolve?_eq_some_iff`.
-/

namespace WireTypes.TypeTable

theorem resolves_of_chase? {t : TypeTable} {steps : Nat} :
    ∀ {ty a : TypeId}, t.chase? steps ty = some a →
    t.Resolves ty a := by
  induction steps with
  | zero =>
    intro ty a h
    cases h
  | succ steps ih =>
    intro ty a h
    unfold chase? at h
    split at h
    · next n hk =>
      obtain ⟨b, hl, hb⟩ := Option.bind_eq_some_iff.mp h
      exact .name ⟨n, hk, hl⟩ (ih hb)
    · next hname =>
      obtain rfl := Option.some.inj h
      exact .here hname

/-- The nodes in `seen` were passed on the way to `ty`, each once; as many steps are left as
there may be other nodes. -/
theorem Resolves.chase?_eq {t : TypeTable} (ht : t.Sound) {ty a : TypeId} (h : t.Resolves ty a) :
    ∀ (seen : List TypeId) {steps : Nat}, seen.Nodup →
      (∀ b ∈ seen, b < t.size ∧ Relation.ReflTransGen t.Renames b ty) →
        t.size < steps + seen.length →
      t.chase? steps ty = some a := by
  have hlength : ∀ {seen : List TypeId}, seen.Nodup → (∀ b ∈ seen, b < t.size) →
      seen.length ≤ t.size := by
    intro seen hnodup hlt
    have hsub : seen.Subperm (List.range t.size) :=
      hnodup.subperm fun b hb => List.mem_range.mpr (hlt b hb)
    simpa using hsub.length_le
  induction h with
  | @here a hk =>
    intro seen steps hnodup hseen hsteps
    have hle := hlength hnodup fun b hb => (hseen b hb).1
    cases steps with
    | zero => omega
    | succ steps =>
      unfold chase?
      split
      · next n hn => exact absurd hn (hk n)
      · rfl
  | @name ty b a hb h ih =>
    intro seen steps hnodup hseen hsteps
    have hle := hlength hnodup fun b hb => (hseen b hb).1
    obtain ⟨n, hk, hl⟩ := id hb
    have hfresh : b ∉ seen :=
      fun hmem => h.not_circular (Relation.TransGen.tail' (hseen b hmem).2 hb)
    cases steps with
    | zero => omega
    | succ steps =>
      have hstep : t.chase? (steps + 1) ty = t.chase? steps b := by
        rw [chase?, hk]
        show (t.lookup n).bind (t.chase? steps) = _
        rw [hl]
        rfl
      rw [hstep]
      refine ih (b :: seen) (List.nodup_cons.mpr ⟨hfresh, hnodup⟩) ?_ ?_
      · intro c hc
        rcases List.mem_cons.mp hc with rfl | hc
        · exact ⟨ht.target_lt n _ hl, .refl⟩
        · exact ⟨(hseen c hc).1, (hseen c hc).2.tail hb⟩
      · rw [List.length_cons]
        omega

theorem Sound.resolve?_eq_some_iff {t : TypeTable} (ht : t.Sound) {ty a : TypeId} :
    t.resolve? ty = some a ↔ t.Resolves ty a := by
  constructor
  · exact resolves_of_chase?
  · intro h
    exact h.chase?_eq ht [] List.nodup_nil (List.forall_mem_nil _) (by simp)

theorem Sound.resolve?_eq_none_iff {t : TypeTable} (ht : t.Sound) {ty : TypeId} :
    t.resolve? ty = none ↔ ∀ a, ¬ t.Resolves ty a := by
  simp only [Option.eq_none_iff_forall_ne_some, ne_eq, ht.resolve?_eq_some_iff]

end WireTypes.TypeTable
