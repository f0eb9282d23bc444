import Mathlib.Data.List.Chain
import Mathlib.Logic.Relation
import WireTypes.Proofs.Lower.Rules

/-!
# Lowering comes to an end

A call of lowering is a pair of the names being expanded and a node; `Call t a b` says that the call
`a` makes the call `b`.  Names can lead anywhere in the table, so nodes alone do not measure the
recursion: `rank` puts the declarations that are still unexpanded first and the node second, and
every call lowers it (`Call.rank_lt`).

* `length_le_rank`: a chain of calls is no longer than the rank of its start;
* `Reaches.nodup`: no name is expanded inside its own expansion;
* `Lowers.passes`: no branch of a lowered type passes one alias twice;
* `Built.lowering_terminates` puts these together for every table.
-/

namespace WireTypes

namespace TypeTable

/-- The call `a` makes the call `b`. -/
inductive Call (t : TypeTable) : List Name × TypeId → List Name × TypeId → Prop
  | part {path : List Name} {ty c : TypeId} (hc : c ∈ (t.kind ty).parts) :
      Call t (path, ty) (path, c)
  | name {path : List Name} {ty target : TypeId} {n : Name} (hk : t.kind ty = .named n)
      (hn : n ∉ path) (hl : t.lookup n = some target) : Call t (path, ty) (path ++ [n], target)

/-- Calls that are made while `a` runs, `a` among them. -/
def Reaches (t : TypeTable) : List Name × TypeId → List Name × TypeId → Prop :=
  Relation.ReflTransGen t.Call

/-! ## The measure -/

/-- Declarations left to expand, then the node. -/
def rank (t : TypeTable) (a : List Name × TypeId) : Nat := t.unexpanded a.1 * t.size + a.2

theorem Call.rank_lt {t : TypeTable} (ht : t.Sound) {a b : List Name × TypeId} (h : t.Call a b) :
    t.rank b < t.rank a := by
  cases h with
  | @part path ty c hc =>
    exact Nat.add_lt_add_left (ht.part_lt hc) _
  | @name path ty target n hk hn hl =>
    calc t.unexpanded (path ++ [n]) * t.size + target
        < t.unexpanded (path ++ [n]) * t.size + t.size :=
          Nat.add_lt_add_left (ht.target_lt n target hl) _
      _ = (t.unexpanded (path ++ [n]) + 1) * t.size := by rw [Nat.add_mul, Nat.one_mul]
      _ ≤ t.unexpanded path * t.size := Nat.mul_le_mul_right t.size (unexpanded_lt hn hl)
      _ ≤ t.unexpanded path * t.size + ty := Nat.le_add_right _ _

/-- Calls inside calls go no deeper than the rank. -/
theorem length_le_rank {t : TypeTable} (ht : t.Sound) (calls : List (List Name × TypeId)) :
    ∀ a, List.IsChain t.Call (a :: calls) → calls.length ≤ t.rank a := by
  induction calls with
  | nil => intro a _; exact Nat.zero_le _
  | cons b calls ih =>
    intro a h
    rw [List.isChain_cons_cons] at h
    have hlt := h.1.rank_lt ht
    have hle := ih b h.2
    rw [List.length_cons]
    omega

theorem rank_nil_le (t : TypeTable) (ty : TypeId) :
    t.rank ([], ty) ≤ t.definitions.length * t.size + ty :=
  Nat.add_le_add_right (Nat.mul_le_mul_right t.size List.countP_le_length) ty

/-! ## The names being expanded -/

theorem Reaches.lt_size {t : TypeTable} (ht : t.Sound) {a b : List Name × TypeId}
    (h : t.Reaches a b) (ha : a.2 < t.size) : b.2 < t.size := by
  induction h with
  | refl => exact ha
  | tail _ hcall ih =>
    cases hcall with
    | part hc => exact Nat.lt_trans (ht.part_lt hc) ih
    | name _ _ hl => exact ht.target_lt _ _ hl

theorem Call.nodup {t : TypeTable} {a b : List Name × TypeId} (h : t.Call a b) (ha : a.1.Nodup) :
    b.1.Nodup := by
  cases h with
  | part _ => exact ha
  | name _ hn _ =>
    rw [List.nodup_append]
    refine ⟨ha, by simp, ?_⟩
    intro m hm n' hn'
    rw [List.mem_singleton] at hn'
    subst hn'
    rintro rfl
    exact hn hm

theorem Reaches.nodup {t : TypeTable} {a b : List Name × TypeId} (h : t.Reaches a b)
    (ha : a.1.Nodup) : b.1.Nodup := by
  induction h with
  | refl => exact ha
  | tail _ hcall ih => exact hcall.nodup ih

end TypeTable

/-! ## The aliases on a branch -/

/-- A branch that starts at the root of `c`, wherever it stops, passes these aliases. -/
inductive CType.Passes : CType → List String → Prop
  | stop (c : CType) : Passes c []
  | member {form : AggregateForm} {name : String} {span : Span} {members : List (Member × CType)}
      {lossy : Bool}
      {m : Member} {c : CType} {as : List String} (hm : (m, c) ∈ members) (h : Passes c as) :
      Passes (.aggregate form name span members lossy) as
  | element {element : CType} {extent : Extent} {size : UInt32} {as : List String}
      (h : Passes element as) :
      Passes (.stack element extent size) as
  | renamed {name : String} {span : Span} {canonical : CType} {as : List String}
      (h : Passes canonical as) :
      Passes (.named name span canonical) (name :: as)

namespace TypeTable

/-- The aliases on a branch are spellings of names that are expanded one inside the other. -/
theorem Lowers.passes {t : TypeTable} (ht : t.Sound) {path : List Name} {ty : TypeId} {x : Lowered}
    (h : t.Lowers path ty x) :
    ty < t.size → path.Nodup → ∀ c, x.result = .ok c → ∀ as, c.Passes as →
      ∃ ns : List Name, as = ns.map t.spelling ∧ (path ++ ns).Nodup ∧ ∀ n ∈ ns, t.Knows n := by
  -- a leaf of the tree has only the branch that stops at it
  have leaf : ∀ {path : List Name}, path.Nodup → ∃ ns : List Name,
      [] = ns.map t.spelling ∧ (path ++ ns).Nodup ∧ ∀ n ∈ ns, t.Knows n :=
    fun hp => ⟨[], rfl, by simpa using hp, by simp⟩
  induction h with
  | bool hk | bits hk | enum hk | header hk =>
    intro _ hp c hc as has
    cases hc
    cases has
    exact leaf hp
  | varbits hk | cycle hk hn | unknown hk hn hl =>
    intro _ _ c hc
    cases hc
  | @aggregate path ty form n fields x hk hx ih =>
    intro hty hp c hc as has
    rw [result_assemble fun f hf => (hx f hf).reported] at hc
    cases hc
    cases has with
    | stop => exact leaf hp
    | @member _ _ _ _ _ m c _ hm has =>
      obtain ⟨f, hf, hres, -⟩ := mem_keptMembers.mp hm
      have hlt : f.type < ty := ht.part_lt (mem_parts_of_field hk hf)
      exact ih f hf (Nat.lt_trans hlt hty) hp c hres as has
  | @stack path ty element size x hk hx ih =>
    intro hty hp c hc as has
    obtain ⟨element', extent, hres, -, rfl⟩ := Lowered.result_stack.mp hc
    cases has with
    | stop => exact leaf hp
    | element has =>
      have hlt : element < ty := ht.part_lt (mem_parts_of_element hk)
      exact ih (Nat.lt_trans hlt hty) hp element' hres as has
  | @declared path ty target n x hk hn hl hx ih =>
    intro hty hp c hc as has
    obtain ⟨c', hres, rfl⟩ := Lowered.result_rename.mp hc
    cases has with
    | stop => exact leaf hp
    | renamed has =>
      have hnodup : (path ++ [n]).Nodup := (Call.name hk hn hl).nodup hp
      obtain ⟨ns, rfl, hns, hknows⟩ := ih (ht.target_lt n target hl) hnodup c' hres _ has
      refine ⟨n :: ns, rfl, by simpa using hns, ?_⟩
      intro m hm
      rcases List.mem_cons.mp hm with rfl | hm
      · exact ht.knows ty hty m (by rw [hk]; exact List.mem_singleton_self m)
      · exact hknows m hm

/-- Distinct names are spelled differently, so a branch passes no alias twice. -/
theorem Sound.passes_nodup {t : TypeTable} (ht : t.Sound) {ty : TypeId}
    (hty : ty < t.size) {c : CType} (hc : (t.lower [] ty).result = .ok c) {as : List String}
    (has : c.Passes as) : as.Nodup := by
  obtain ⟨ns, rfl, hns, hknows⟩ := (ht.lowers [] ty).passes ht hty List.nodup_nil c hc as has
  exact hns.map_on fun m hm n hn h => Interner.spelling_inj ht.distinct (hknows m hm)
    (hknows n hn) h

/-- **Lowering comes to an end** on every table that came about by its own operations, whatever
its declarations point to: ids point backwards and declarations to nodes; calls nest no deeper
than the bound, and the rules reach the answer of `create` and no other; no call meets a node
outside the table or expands a name inside its own expansion; and on no branch of the answer
does an alias come twice. -/
theorem Built.lowering_terminates {t : TypeTable} (h : t.Built) :
    ((∀ ty, ∀ c ∈ (t.kind ty).ids, c < ty) ∧ ∀ n ty, t.lookup n = some ty → ty < t.size) ∧
    ∀ ty < t.size,
      (∀ calls, List.IsChain t.Call (([], ty) :: calls) →
        calls.length ≤ t.definitions.length * t.size + ty) ∧
      (∃ x, t.Lowers [] ty x ∧ (∀ y, t.Lowers [] ty y → y = x) ∧
        ∀ q, t.create ty q = (x.result, q.addAll x.reports)) ∧
      (∀ path ty', t.Reaches ([], ty) (path, ty') → ty' < t.size ∧ path.Nodup) ∧
      ∀ q c, (t.create ty q).1 = .ok c → ∀ as, c.Passes as → as.Nodup := by
  have ht := h.sound
  refine ⟨⟨ht.ids_lt, ht.target_lt⟩, fun ty hty => ⟨?_, ?_, ?_, ?_⟩⟩
  · intro calls hcalls
    exact Nat.le_trans (length_le_rank ht calls ([], ty) hcalls) (rank_nil_le t ty)
  · exact ⟨t.lower [] ty, ht.lowers [] ty, fun y hy => hy.eq_lower ht, fun q => rfl⟩
  · intro path ty' hreach
    exact ⟨hreach.lt_size ht hty, hreach.nodup List.nodup_nil⟩
  · intro q c hc as has
    exact ht.passes_nodup hty hc has

/-- A struct that holds itself comes to an end too. -/
theorem lowering_terminates_mixed : mixed.Built ∧ mixed.size = 6 ∧
    (∀ path ty, mixed.Reaches ([], 5) (path, ty) → ty < 6 ∧ path.Nodup) ∧
    ∃ x, mixed.Lowers [] 5 x ∧ ∀ q, mixed.create 5 q = (x.result, q.addAll x.reports) := by
  obtain ⟨-, h⟩ := Built.lowering_terminates built_mixed
  obtain ⟨-, ⟨x, hx, -, hcreate⟩, hreach, -⟩ := h 5 (by decide)
  exact ⟨built_mixed, rfl, hreach, x, hx, hcreate⟩

end TypeTable

end WireTypes
