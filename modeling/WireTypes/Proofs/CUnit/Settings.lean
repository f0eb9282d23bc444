import WireTypes.Proofs.CUnit.Items
import WireTypes.Proofs.Diagnostic.Cutoff

/-!
# What the settings of the queue change

How many errors are kept, and whether repetitions are, is a matter of what is shown.  The code of a
unit and its verdict do not depend on it, and a limit shows the first errors of those that are shown
without one.
-/

namespace WireTypes

namespace Queue

theorem listing_eq (q : Queue) : q.listing =
    q.kept.mergeSort (fun a b => a.position ≤ b.position) ++
      if 0 < q.dropped then [tooManyErrors q.config.errorLimit q.dropped] else [] := rfl

end Queue

namespace CUnit

theorem hasErrors_collect (u : CUnit) (t : TypeTable) (style : Style) (config : QueueConfig) :
    (u.collect t style config).hasErrors =
      (u.itemReports t style).flatten.any Diagnostic.isError := by
  have hempty : (Queue.ofConfig config).hasErrors = false := by
    simp [Queue.ofConfig, Queue.hasErrors]
  unfold collect
  rw [Queue.hasErrors_funnel (Queue.counted_ofConfig config),
    Queue.hasErrors_addAll _ (Queue.counted_ofConfig config), hempty, Bool.false_or]

/-- A queue for each item shows what one queue for all of them shows. -/
theorem kept_collect (u : CUnit) (t : TypeTable) (style : Style) (config : QueueConfig) :
    (u.collect t style config).kept = (u.report t style (.ofConfig config)).kept := by
  rw [report_eq]
  exact (Queue.agree_funnel (Queue.counted_ofConfig config) _).kept

theorem config_collect (u : CUnit) (t : TypeTable) (style : Style) (config : QueueConfig) :
    (u.collect t style config).config = config := by
  have hagree := Queue.agree_funnel (Queue.counted_ofConfig config) (u.itemReports t style)
  exact hagree.config.trans (Queue.grows_addAll _ _).config

theorem dropped_collect (u : CUnit) (t : TypeTable) (style : Style) (dup : Bool) :
    (u.collect t style ⟨0, dup⟩).dropped = 0 := by
  by_contra hdropped
  have hconsistent :=
    Queue.consistent_funnel (Queue.consistent_ofConfig ⟨0, dup⟩) (u.itemReports t style)
  have hpos := (hconsistent.full (Nat.pos_of_ne_zero hdropped)).1
  have hconfig : (Queue.funnel _ _).config = ⟨0, dup⟩ := u.config_collect t style ⟨0, dup⟩
  rw [hconfig] at hpos
  exact Nat.lt_irrefl 0 hpos

/-- **The settings of the queue change what is shown and nothing else.**  Code and verdict of a unit
are the same under all of them.  A limit shows the first errors of those that are kept without one,
and says so if any are missing. -/
theorem lower_settings {t : TypeTable} (ht : t.Built) (u : CUnit) (style : Style) :
    (∀ config config' : QueueConfig, (u.lower t style config).code =
      (u.lower t style config').code ∧
      (u.lower t style config).success = (u.lower t style config').success) ∧
    ∀ (dup : Bool) (shown : List Diagnostic), shown = (u.report t style (.ofConfig ⟨0, dup⟩)).kept →
      (u.collect t style ⟨0, dup⟩).kept = shown ∧
      (u.lower t style ⟨0, dup⟩).diagnostics = shown.mergeSort
        (fun a b => a.position ≤ b.position) ∧
      ∀ limit : Nat, 0 < limit → ∃ tail,
        (u.lower t style ⟨limit, dup⟩).diagnostics =
          (shown.take (min limit shown.length)).mergeSort
            (fun a b => a.position ≤ b.position) ++ tail ∧
        (tail = [] ∨ ∃ n, tail = [Queue.tooManyErrors limit n]) ∧
        (limit < shown.length → tail ≠ []) := by
  constructor
  · intro config config'
    rw [lower_eq, lower_eq, hasErrors_collect, hasErrors_collect]
    exact ⟨rfl, rfl⟩
  · rintro dup shown rfl
    have herrors : ∀ d ∈ (u.itemReports t style).flatten, d.isError = true :=
      fun d hd => isError_of_mem_itemReports ht hd
    rw [← kept_collect]
    refine ⟨rfl, ?_, ?_⟩
    · rw [lower_eq, Queue.listing_eq, dropped_collect, if_neg (Nat.lt_irrefl 0), List.append_nil]
    · intro limit hpos
      have hkept : (u.collect t style ⟨limit, dup⟩).kept =
          (u.collect t style ⟨0, dup⟩).kept.take limit :=
        Queue.kept_funnel_cutoff hpos dup herrors
      refine ⟨if 0 < (u.collect t style ⟨limit, dup⟩).dropped then
          [Queue.tooManyErrors limit (u.collect t style ⟨limit, dup⟩).dropped] else [],
        ?_, ?_, ?_⟩
      · rw [lower_eq, Queue.listing_eq, config_collect, hkept, List.take_eq_take_min]
      · split
        · exact .inr ⟨_, rfl⟩
        · exact .inl rfl
      · intro hlong
        have hdropped : 0 < (u.collect t style ⟨limit, dup⟩).dropped :=
          Queue.dropped_funnel_pos hpos dup herrors hlong
        rw [if_pos hdropped]
        exact List.cons_ne_nil _ _

/-- Two variables of variable width, and an error shown for one of them. -/
theorem lower_settings_varbits :
    let t := (TypeTable.Growth.alloc (.varbits 8) .dummy).grow ∅
    let u : CUnit := ⟨[], [⟨"a", 0⟩, ⟨"b", 0⟩]⟩
    t.Built ∧ ∃ tail, (u.lower t default ⟨1, false⟩).diagnostics = t.unsupportedType 0 :: tail ∧
      tail ≠ [] := by
  intro t u
  have ht : t.Built := TypeTable.built_single .dummy rfl rfl
  have hkind : t.kind 0 = .varbits 8 := by decide +kernel
  have hlower : t.lower [] 0 = .fail (t.unsupportedType 0) := by
    rw [TypeTable.lower, hkind]
  have hreports : (u.itemReports t default).flatten =
      [t.unsupportedType 0, t.unsupportedType 0] := by
    simp only [itemReports, items, u, List.map_nil, List.nil_append, List.map_cons,
      Item.reports, Item.outcome, Item.type, hlower]
    rfl
  obtain ⟨-, -, hcut⟩ := (lower_settings ht u default).2 false _ rfl
  have hboth : (u.report t default (.ofConfig ⟨0, false⟩)).kept =
      [t.unsupportedType 0, t.unsupportedType 0] := by
    rw [report_eq, hreports, Queue.kept_addAll_unlimited _ rfl]
    rfl
  obtain ⟨tail, hdiagnostics, -, hmissing⟩ := hcut 1 (by decide)
  rw [hboth] at hdiagnostics hmissing
  refine ⟨ht, tail, ?_, hmissing (by decide)⟩
  simpa using hdiagnostics
end CUnit

end WireTypes
