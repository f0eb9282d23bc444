import Mathlib.Data.Finset.Card
import WireTypes.IndexedInterner
import WireTypes.Proofs.Interner

/-!
# A growing bijection of names and spellings

The index and the spellings agree in every interner, so an index and a search come to the same.

* `tryIntern_cases` is all that interning can do, and `Interner.intern` does the same
  (`intern_toInterner`);
* what has a name keeps it (`find?_after`), and names are told apart by their spellings
  (`find?_inj`);
* `mem_spellings_after`: after any calls, what was interned is known, and nothing else;
* `interned_eq_asked`: nothing is refused as long as there is room;
* `names_outcome` puts these together for all sequences of calls of a new interner.
-/

namespace WireTypes

namespace IndexedInterner

/-! ## The index -/

theorem find?_eq_some_iff {t : IndexedInterner} {s : String} {n : Name} :
    t.find? s = some n ↔ t.spellings.toList[n.index]? = some s := by
  rw [Array.getElem?_toList]
  exact t.lookup_names s n

theorem isSome_find?_iff {t : IndexedInterner} {s : String} :
    (∃ n, t.find? s = some n) ↔ s ∈ t.spellings.toList := by
  rw [List.mem_iff_getElem?]
  constructor
  · rintro ⟨n, hn⟩
    exact ⟨n.index, find?_eq_some_iff.mp hn⟩
  · rintro ⟨i, hi⟩
    exact ⟨⟨i⟩, find?_eq_some_iff.mpr hi⟩

theorem find?_eq_none_iff {t : IndexedInterner} {s : String} :
    t.find? s = none ↔ s ∉ t.spellings.toList := by
  rw [← isSome_find?_iff, Option.eq_none_iff_forall_ne_some, not_exists]

theorem find?_inj {t : IndexedInterner} {r s : String} {n : Name} (hr : t.find? r = some n)
    (hs : t.find? s = some n) : r = s := by
  rw [find?_eq_some_iff] at hr hs
  exact Option.some.inj (hr.symm.trans hs)

theorem spelling_of_find? {t : IndexedInterner} {s : String} {n : Name} (h : t.find? s = some n) :
    t.spelling n = s := by
  rw [find?_eq_some_iff, Array.getElem?_toList] at h
  unfold Interner.spelling
  rw [Array.getD_eq_getD_getElem?, h, Option.getD_some]

theorem index_lt_iff {t : IndexedInterner} {n : Name} :
    n.index < t.size ↔ ∃ s, t.find? s = some n := by
  have hlength : t.size = t.spellings.toList.length := rfl
  simp only [find?_eq_some_iff, hlength, List.getElem?_eq_some_iff]
  exact ⟨fun h => ⟨_, h, rfl⟩, fun ⟨_, h, _⟩ => h⟩

/-- No spelling is kept twice: it would be found under two names. -/
theorem distinct (t : IndexedInterner) : t.toInterner.Distinct := by
  refine List.nodup_iff_getElem?_ne_getElem?.mpr fun i j hij hj heq => ?_
  have hlast : t.spellings.toList[j]? = some t.spellings.toList[j] := List.getElem?_eq_getElem hj
  have hfirst := find?_eq_some_iff (n := ⟨i⟩).mpr (heq.trans hlast)
  have hsecond := find?_eq_some_iff (n := ⟨j⟩).mpr hlast
  rw [hfirst] at hsecond
  cases hsecond
  exact Nat.lt_irrefl i hij

/-! ## One call -/

theorem tryIntern_of_find? {t : IndexedInterner} {s : String} {n : Name} (h : t.find? s = some n) :
    t.tryIntern s = .ok (n, t) := by
  unfold tryIntern
  rw [h]

theorem assign_of_find? {t : IndexedInterner} {s : String} {n : Name} (h : t.find? s = some n) :
    t.assign s = .ok (n, t) := by
  unfold assign
  split
  · next m hm =>
    cases h.symm.trans hm
    rfl
  · next hnone => cases h.symm.trans hnone

theorem assign_of_new {t : IndexedInterner} {s : String} (h : t.find? s = none) :
    t.assign s = if t.size < UInt32.size then .ok (⟨t.size⟩, t.push s h) else .error ⟨t.size⟩ := by
  unfold assign
  split
  · next n hn => cases h.symm.trans hn
  · rfl

/-- The second look finds what the first one does. -/
theorem tryIntern_eq_assign (t : IndexedInterner) (s : String) : t.tryIntern s = t.assign s := by
  unfold tryIntern
  cases h : t.find? s with
  | some n => exact (assign_of_find? h).symm
  | none => rfl

theorem tryIntern_of_new {t : IndexedInterner} {s : String} (h : t.find? s = none) :
    t.tryIntern s = if t.size < UInt32.size then .ok (⟨t.size⟩, t.push s h)
    else .error ⟨t.size⟩ := by
  rw [tryIntern_eq_assign, assign_of_new h]

/-- A known spelling has its name; a new one gets the next name, or there is none left. -/
theorem tryIntern_cases (t : IndexedInterner) (s : String) :
    (∃ n, t.find? s = some n ∧ t.tryIntern s = .ok (n, t)) ∨
    (∃ h, t.size < UInt32.size ∧ t.tryIntern s = .ok (⟨t.size⟩, t.push s h)) ∨
    (t.find? s = none ∧ UInt32.size ≤ t.size ∧ t.tryIntern s = .error ⟨t.size⟩) := by
  rcases Option.eq_none_or_eq_some (t.find? s) with hfind | ⟨n, hfind⟩
  · have hnew := tryIntern_of_new hfind
    by_cases hroom : t.size < UInt32.size
    · rw [if_pos hroom] at hnew
      exact .inr (.inl ⟨hfind, hroom, hnew⟩)
    · rw [if_neg hroom] at hnew
      exact .inr (.inr ⟨hfind, Nat.le_of_not_lt hroom, hnew⟩)
  · exact .inl ⟨n, hfind, tryIntern_of_find? hfind⟩

theorem full_of_tryIntern {t : IndexedInterner} {s : String} {e : InternerFull}
    (h : t.tryIntern s = .error e) : t.find? s = none ∧ UInt32.size ≤ t.size := by
  rcases t.tryIntern_cases s with ⟨n, -, hok⟩ | ⟨hnew, -, hok⟩ | ⟨hnew, hfull, -⟩
  · cases h.symm.trans hok
  · cases h.symm.trans hok
  · exact ⟨hnew, hfull⟩

/-- A search comes to the same as the index. -/
theorem intern_toInterner {t u : IndexedInterner} {s : String} {n : Name}
    (h : t.tryIntern s = .ok (n, u)) : t.toInterner.intern s = (n, u.toInterner) := by
  rcases t.toInterner.intern_cases s with ⟨i, hi, hsearch⟩ | ⟨hnew, hsearch⟩
  · cases h.symm.trans (tryIntern_of_find? (find?_eq_some_iff.mpr hi : t.find? s = some ⟨i⟩))
    exact hsearch
  · rw [tryIntern_of_new (find?_eq_none_iff.mpr hnew)] at h
    split at h
    · cases h
      exact hsearch
    · cases h

/-- A name that was given stays given. -/
theorem find?_of_extends {t u : IndexedInterner} (hu : t.toInterner.Extends u.toInterner)
    {s : String} {n : Name} (h : t.find? s = some n) : u.find? s = some n := by
  have hlt : n.index < t.toInterner.size := index_lt_iff.mpr ⟨s, h⟩
  have hsame := getElem?_eq_of_prefix hu hlt
  rw [find?_eq_some_iff, Array.getElem?_toList] at h ⊢
  exact hsame.trans h

theorem extends_tryIntern {t u : IndexedInterner} {s : String} {n : Name}
    (h : t.tryIntern s = .ok (n, u)) : t.toInterner.Extends u.toInterner := by
  have hextends := t.toInterner.extends_intern s
  rw [intern_toInterner h] at hextends
  exact hextends

theorem find?_tryIntern {t u : IndexedInterner} {s : String} {n : Name}
    (h : t.tryIntern s = .ok (n, u)) : u.find? s = some n := by
  rcases t.tryIntern_cases s with ⟨m, hm, hok⟩ | ⟨hnew, -, hok⟩ | ⟨-, -, hfull⟩
  · cases h.symm.trans hok
    exact hm
  · cases h.symm.trans hok
    unfold find? push
    exact List.lookup_cons_self
  · cases h.symm.trans hfull

/-! ## Several calls -/

theorem call_of_ok {t u : IndexedInterner} {s : String} {n : Name}
    (h : t.tryIntern s = .ok (n, u)) : t.call (.intern s) = (.name n, u) := by
  simp only [call, h]

theorem call_of_error {t : IndexedInterner} {s : String} {e : InternerFull}
    (h : t.tryIntern s = .error e) : t.call (.intern s) = (.full e, t) := by
  simp only [call, h]

theorem tryIntern_of_call {t u : IndexedInterner} {s : String} {n : Name}
    (h : t.call (.intern s) = (.name n, u)) : t.tryIntern s = .ok (n, u) := by
  cases hresult : t.tryIntern s with
  | ok x =>
    cases h.symm.trans (call_of_ok hresult)
    rfl
  | error e => cases h.symm.trans (call_of_error hresult)

theorem extends_call (t : IndexedInterner) (c : Call) :
    t.toInterner.Extends (t.call c).2.toInterner := by
  cases c with
  | lookup n => exact .refl t.toInterner
  | intern s =>
    cases h : t.tryIntern s with
    | ok x =>
      rw [call_of_ok h]
      exact extends_tryIntern h
    | error e =>
      rw [call_of_error h]
      exact .refl t.toInterner

theorem extends_after (calls : List Call) :
    ∀ t : IndexedInterner, t.toInterner.Extends (t.after calls).toInterner := by
  induction calls with
  | nil => intro t; exact .refl t.toInterner
  | cons c calls ih => intro t; exact (t.extends_call c).trans (ih (t.call c).2)

theorem find?_after {t : IndexedInterner} {s : String} {n : Name} (h : t.find? s = some n)
    (calls : List Call) : (t.after calls).find? s = some n :=
  find?_of_extends (t.extends_after calls) h

def asked (calls : List Call) : List String :=
  calls.filterMap fun
    | .intern s => some s
    | .lookup _ => none

/-- The spellings that are asked for and not refused. -/
def interned (t : IndexedInterner) : List Call → List String
  | [] => []
  | .lookup _ :: calls => interned t calls
  | .intern s :: calls =>
    match t.tryIntern s with
    | .ok (_, u) => s :: interned u calls
    | .error _ => interned t calls

/-- A search names the same spellings, in the same order. -/
theorem toInterner_after (calls : List Call) :
    ∀ t : IndexedInterner, (t.after calls).toInterner =
      (t.toInterner.internAll (t.interned calls)).2 := by
  induction calls with
  | nil => intro t; rfl
  | cons c calls ih =>
    intro t
    show ((t.call c).2.after calls).toInterner = _
    rw [ih]
    cases c with
    | lookup n => rfl
    | intern s =>
      cases h : t.tryIntern s with
      | ok x =>
        rw [call_of_ok h]
        simp only [interned, h, Interner.internAll, intern_toInterner h]
      | error e =>
        rw [call_of_error h]
        simp only [interned, h]

theorem toInterner_initial : initial.toInterner = Interner.initial :=
  congrArg Interner.mk (by decide +kernel)

theorem spellings_initial : initial.spellings.toList = "" :: Interner.builtins := by decide +kernel

theorem mem_spellings_after {calls : List Call} {s : String} :
    s ∈ (initial.after calls).spellings.toList ↔
      s ∈ "" :: Interner.builtins ++ initial.interned calls := by
  rw [toInterner_after, Interner.mem_spellings_internAll, spellings_initial, List.mem_append]

/-- Nothing is refused as long as there are no more spellings than names. -/
theorem interned_eq_asked {calls : List Call} : ∀ {t : IndexedInterner},
    (t.spellings.toList ++ asked calls).toFinset.card ≤ UInt32.size →
      t.interned calls = asked calls := by
  induction calls with
  | nil => intro t _; rfl
  | cons c calls ih =>
    intro t hcard
    cases c with
    | lookup n => exact ih hcard
    | intern s =>
      have hasked : asked (.intern s :: calls) = s :: asked calls := rfl
      rw [hasked] at hcard ⊢
      cases h : t.tryIntern s with
      | ok x =>
        -- what is known afterwards was known or asked for
        have hsubset : (x.2.spellings.toList ++ asked calls).toFinset ⊆
            (t.spellings.toList ++ s :: asked calls).toFinset := by
          intro r hr
          have hspellings : x.2.toInterner = (t.toInterner.intern s).2 :=
            (congrArg Prod.snd (intern_toInterner h)).symm
          rw [List.mem_toFinset, List.mem_append, hspellings, Interner.mem_spellings_intern,
            or_assoc] at hr
          rwa [List.mem_toFinset, List.mem_append, List.mem_cons]
        simp only [interned, h]
        rw [ih (Nat.le_trans (Finset.card_le_card hsubset) hcard)]
      | error e =>
        -- all names are given, and `s` has none of them
        obtain ⟨hnew, hfull⟩ := full_of_tryIntern h
        have hunknown : s ∉ t.spellings.toList.toFinset :=
          fun hs => find?_eq_none_iff.mp hnew (List.mem_toFinset.mp hs)
        have hsubset : insert s t.spellings.toList.toFinset ⊆ (t.spellings.toList ++
            s :: asked calls).toFinset := by
          intro r hr
          rw [Finset.mem_insert, List.mem_toFinset] at hr
          rw [List.mem_toFinset, List.mem_append, List.mem_cons]
          exact hr.elim (fun heq => .inr (.inl heq)) .inl
        have hlt := Finset.card_le_card hsubset
        rw [Finset.card_insert_of_notMem hunknown, List.toFinset_card_of_nodup t.distinct] at hlt
        have hsize : t.size = t.spellings.toList.length := rfl
        omega

theorem size_after (calls : List Call) : (initial.after calls).size =
    1 + ((Interner.builtins ++ initial.interned calls).toFinset.erase "").card := by
  have hset : (initial.after calls).spellings.toList.toFinset =
      insert "" ((Interner.builtins ++ initial.interned calls).toFinset.erase "") := by
    ext s
    rw [List.mem_toFinset, mem_spellings_after, List.cons_append, List.mem_cons, Finset.mem_insert,
      Finset.mem_erase, List.mem_toFinset]
    by_cases hs : s = ""
    · simp only [hs, true_or]
    · simp only [hs, false_or, ne_eq, not_false_eq_true, true_and]
  have hsize : (initial.after calls).size = (initial.after calls).spellings.toList.length := rfl
  rw [hsize, ← List.toFinset_card_of_nodup (distinct _), hset,
    Finset.card_insert_of_notMem (Finset.notMem_erase _ _), Nat.add_comm]

/-- **Names and spellings.**  After any calls of a new interner: a spelling that is known has a name
already, and asking for it changes nothing; any other gets the next name, until all names are given.
Names that were given keep their spellings from then on, whatever else is called, and are given to
no other spelling.  The names below the size are those of the known spellings; there is one for the
empty spelling, which is the first, and one for each that is not empty among the builtins and all
that was interned, which is all that was asked for unless there is not room for it.  An interner
without an index gives the same names. -/
theorem names_outcome (calls : List Call) :
    let t := initial.after calls
    let known := "" :: Interner.builtins ++ initial.interned calls
    (∀ s ∈ known, ∃ n, t.call (.intern s) = (.name n, t)) ∧
    (∀ s ∉ known, t.size < UInt32.size →
      ∃ u, t.call (.intern s) = (.name ⟨t.size⟩, u) ∧ u.size = t.size + 1) ∧
    (∀ s ∉ known, UInt32.size ≤ t.size → t.call (.intern s) = (.full ⟨t.size⟩, t)) ∧
    (∀ s n u, t.call (.intern s) = (.name n, u) → ∀ later, let v := u.after later
      v.call (.lookup n) = (.spelling s, v) ∧
      ∀ r m w, v.call (.intern r) = (.name m, w) → (m = n ↔ r = s)) ∧
    (∀ n, n.index < t.size ↔ ∃ s ∈ known, t.call (.intern s) = (.name n, t)) ∧
    t.size = 1 + ((Interner.builtins ++ initial.interned calls).toFinset.erase "").card ∧
    t.call (.intern "") = (.name .empty, t) ∧
    (("" :: Interner.builtins ++ asked calls).toFinset.card ≤ UInt32.size →
      initial.interned calls = asked calls) ∧
    t.toInterner = (Interner.initial.internAll (initial.interned calls)).2 ∧
    (∀ s n u, t.call (.intern s) = (.name n, u) → t.toInterner.intern s = (n, u.toInterner)) := by
  intro t known
  have hknown : ∀ s, s ∈ known ↔ ∃ n, t.find? s = some n :=
    fun s => mem_spellings_after.symm.trans isSome_find?_iff.symm
  have hnew : ∀ s, s ∉ known → t.find? s = none := by
    intro s hs
    rw [hknown, not_exists] at hs
    exact Option.eq_none_iff_forall_ne_some.mpr hs
  have hempty : t.find? "" = some .empty := find?_after (t := initial) (by decide +kernel) calls
  refine ⟨?_, ?_, ?_, ?_, ?_, size_after calls, call_of_ok (tryIntern_of_find? hempty), ?_, ?_, ?_⟩
  · intro s hs
    obtain ⟨n, hn⟩ := (hknown s).mp hs
    exact ⟨n, call_of_ok (tryIntern_of_find? hn)⟩
  · intro s hs hroom
    have hok := tryIntern_of_new (hnew s hs)
    rw [if_pos hroom] at hok
    exact ⟨_, call_of_ok hok, Array.size_push s⟩
  · intro s hs hfull
    have herror := tryIntern_of_new (hnew s hs)
    rw [if_neg (Nat.not_lt_of_le hfull)] at herror
    exact call_of_error herror
  · intro s n u hcall later v
    have hn : v.find? s = some n := find?_after (find?_tryIntern (tryIntern_of_call hcall)) later
    refine ⟨?_, fun r m w hagain => ?_⟩
    · show (Reply.spelling (v.spelling n), v) = _
      rw [spelling_of_find? hn]
    · have hagain := tryIntern_of_call hagain
      have hm := find?_tryIntern hagain
      have hn' := find?_of_extends (extends_tryIntern hagain) hn
      constructor
      · rintro rfl
        exact find?_inj hm hn'
      · rintro rfl
        exact Option.some.inj (hm.symm.trans hn')
  · intro n
    rw [index_lt_iff]
    constructor
    · rintro ⟨s, hs⟩
      exact ⟨s, (hknown s).mpr ⟨n, hs⟩, call_of_ok (tryIntern_of_find? hs)⟩
    · rintro ⟨s, -, hs⟩
      exact ⟨s, find?_tryIntern (tryIntern_of_call hs)⟩
  · intro hcard
    exact interned_eq_asked (by rwa [spellings_initial])
  · rw [← toInterner_initial]
    exact toInterner_after calls initial
  · intro s n u hcall
    exact intern_toInterner (tryIntern_of_call hcall)

/-- Two spellings, one of them twice. -/
theorem names_outcome_repeated :
    let calls : List Call := [.intern "ipv4_t", .intern "udp_t", .intern "ipv4_t"]
    let t := initial.after calls
    initial.interned calls = ["ipv4_t", "udp_t", "ipv4_t"] ∧ t.size = 9 ∧ ∃ m n, m ≠ n ∧
      t.call (.intern "ipv4_t") = (.name m, t) ∧ t.call (.intern "udp_t") = (.name n, t) := by
  intro calls t
  have hasked : initial.interned calls = ["ipv4_t", "udp_t", "ipv4_t"] := by decide +kernel
  obtain ⟨hknown, -, -, hlater, -, hsize, -⟩ := names_outcome calls
  rw [hasked] at hknown hsize
  obtain ⟨m, hm⟩ := hknown "ipv4_t" (by decide)
  obtain ⟨n, hn⟩ := hknown "udp_t" (by decide)
  refine ⟨hasked, hsize.trans (by decide), m, n, fun hmn => ?_, hm, hn⟩
  exact absurd (((hlater _ _ _ hn []).2 _ _ _ hm).mp hmn) (by decide)

end IndexedInterner

end WireTypes
