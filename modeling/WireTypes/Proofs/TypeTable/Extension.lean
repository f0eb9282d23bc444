import WireTypes.Proofs.TypeTable.History

/-!
# Larger tables

A table only grows, so ids and names that it has answered keep their meaning (`Extends`).

Headers, structs, unions and enums become C types with a tag.  Such a node is made by a declaration;
the nodes that spell a reference have none (`AddsRefs`), so tags are told apart by the declarations
alone.
-/

namespace WireTypes

/-- A tagged type of C, as it is referred to. -/
structure Tag where
  keyword : String
  name : String
  deriving DecidableEq, Repr

/-- The keyword before the tag, if the type has one. -/
def Kind.keyword? : Kind → Option String
  | .header _ _ => some "struct"
  | .aggregate form _ _ => some form.keyword
  | .enum _ _ => some "enum"
  | _ => none

namespace TypeTable

def tag? (t : TypeTable) (ty : TypeId) : Option Tag :=
  (t.kind ty).keyword?.bind fun keyword => (t.kind ty).name?.map fun n => ⟨keyword, t.spelling n⟩

theorem tag?_eq_none_iff {t : TypeTable} {ty : TypeId} :
    t.tag? ty = none ↔ (t.kind ty).keyword? = none := by
  unfold tag?
  cases t.kind ty <;> simp [Kind.keyword?, Kind.name?]

/-- Ids outside the table have no tag. -/
theorem keyword?_eq_none_of_size_le {t : TypeTable} {ty : TypeId} (h : t.size ≤ ty) :
    (t.kind ty).keyword? = none := by
  rw [kind_eq_of_size_le h]
  rfl

theorem lt_size_of_tag? {t : TypeTable} {ty : TypeId} {tag : Tag} (h : t.tag? ty = some tag) :
    ty < t.size := by
  by_contra hle
  rw [tag?_eq_none_iff.mpr (keyword?_eq_none_of_size_le (Nat.le_of_not_lt hle))] at h
  cases h

/-! ## Extension -/

/-- `u` has the nodes and the spellings of `t` in their places. -/
structure Extends (t u : TypeTable) : Prop where
  nodes : t.nodes.toList <+: u.nodes.toList
  names : t.interner.Extends u.interner

theorem Extends.refl (t : TypeTable) : t.Extends t := ⟨List.prefix_rfl, .refl _⟩

theorem Extends.trans {t u v : TypeTable} (h : t.Extends u) (h' : u.Extends v) : t.Extends v :=
  ⟨h.nodes.trans h'.nodes, h.names.trans h'.names⟩

theorem Extends.size_le {t u : TypeTable} (h : t.Extends u) : t.size ≤ u.size := h.nodes.length_le

theorem Extends.node {t u : TypeTable} (h : t.Extends u) {ty : TypeId} (hty : ty < t.size) :
    u.node ty = t.node ty := by
  unfold TypeTable.node
  rw [Array.getD_eq_getD_getElem?, Array.getD_eq_getD_getElem?, getElem?_eq_of_prefix h.nodes hty]

theorem Extends.kind {t u : TypeTable} (h : t.Extends u) {ty : TypeId} (hty : ty < t.size) :
    u.kind ty = t.kind ty := by
  unfold TypeTable.kind
  rw [h.node hty]

theorem Extends.knows {t u : TypeTable} (h : t.Extends u) {n : Name} (hn : t.Knows n) : u.Knows n :=
  h.names.knows hn

theorem Extends.spelling {t u : TypeTable} (h : t.Extends u) {n : Name} (hn : t.Knows n) :
    u.spelling n = t.spelling n := h.names.spelling hn

/-- A node keeps its tag: its name has been answered too. -/
theorem Extends.tag? {t u : TypeTable} (h : t.Extends u) (ht : t.Sound) {ty : TypeId}
    (hty : ty < t.size) : u.tag? ty = t.tag? ty := by
  have hnames := ht.knows ty hty
  unfold TypeTable.tag?
  rw [h.kind hty]
  cases hk : t.kind ty with
  | header n fields | aggregate form n fields | enum n members =>
    have hn : u.spelling n = t.spelling n := by
      refine h.spelling (hnames n ?_)
      rw [hk]
      exact List.mem_cons_self
    simp [Kind.keyword?, Kind.name?, hn]
  | _ => rfl

theorem extends_alloc (t : TypeTable) (kind : Kind) (span : Span) :
    t.Extends (t.alloc kind span).2 :=
  ⟨⟨[⟨kind, span⟩], by simp [alloc]⟩, .refl _⟩

theorem extends_intern (t : TypeTable) (s : String) : t.Extends (t.intern s).2 :=
  ⟨List.prefix_rfl, Interner.extends_intern _ _⟩

theorem extends_define (t : TypeTable) (n : Name) (ty : TypeId) : t.Extends (t.define n ty) :=
  ⟨List.prefix_rfl, .refl _⟩

theorem extends_declare (t : TypeTable) (n : Name) (kind : Kind) (span : Span) :
    t.Extends (t.declare n kind span).2 :=
      (extends_alloc t kind span).trans (extends_define _ n t.size)

theorem spelling_intern (t : TypeTable) (s : String) : (t.intern s).2.spelling (t.intern s).1 = s :=
  Interner.spelling_intern t.interner s

theorem lookupSpelling_spelling {t : TypeTable} (ht : t.Sound) {n : Name} (hn : t.Knows n) :
    (t.lookupSpelling (t.spelling n)).1 = t.lookup n := by
  have hintern : t.interner.intern (t.interner.spelling n) = (n, t.interner) :=
    Interner.intern_spelling ht.distinct hn
  unfold lookupSpelling TypeTable.intern spelling
  rw [hintern]

/-! ## References -/

/-- From `t` to `u` only names and nodes without a tag came in, and nothing was declared. -/
structure AddsRefs (t u : TypeTable) : Prop where
  built : u.Built
  grows : t.Extends u
  definitions : u.definitions = t.definitions
  untagged : ∀ ty, t.size ≤ ty → (u.kind ty).keyword? = none

theorem AddsRefs.refl {t : TypeTable} (ht : t.Built) : t.AddsRefs t :=
  ⟨ht, .refl t, rfl, fun _ h => keyword?_eq_none_of_size_le h⟩

theorem AddsRefs.trans {t u v : TypeTable} (h : t.AddsRefs u) (h' : u.AddsRefs v) :
    t.AddsRefs v where
  built := h'.built
  grows := h.grows.trans h'.grows
  definitions := h'.definitions.trans h.definitions
  untagged ty hty := by
    rcases Nat.lt_or_ge ty u.size with hlt | hge
    · rw [h'.grows.kind hlt]
      exact h.untagged ty hty
    · exact h'.untagged ty hge

theorem AddsRefs.lookup {t u : TypeTable} (h : t.AddsRefs u) (n : Name) :
    u.lookup n = t.lookup n := by
  unfold TypeTable.lookup
  rw [h.definitions]

theorem addsRefs_intern {t : TypeTable} (ht : t.Built) (s : String) :
    t.AddsRefs (t.intern s).2 where
  built := .grow ht (.intern s) trivial
  grows := extends_intern t s
  definitions := rfl
  untagged _ hty := keyword?_eq_none_of_size_le hty

theorem addsRefs_internAll (ss : List String) :
    ∀ {t : TypeTable}, t.Built → t.AddsRefs (t.internAll ss).2 := by
  induction ss with
  | nil => intro t ht; exact .refl ht
  | cons s ss ih => intro t ht; exact (addsRefs_intern ht s).trans (ih (addsRefs_intern ht s).built)

theorem addsRefs_alloc {t : TypeTable} (ht : t.Built) {kind : Kind} (span : Span)
    (hk : kind.keyword? = none) (hids : ∀ c ∈ kind.ids, c < t.size)
    (hnames : ∀ n ∈ kind.names, t.Knows n) :
    t.AddsRefs (t.alloc kind span).2 where
  built := .grow ht (.alloc kind span) ⟨hids, hnames⟩
  grows := extends_alloc t kind span
  definitions := rfl
  untagged ty hty := by
    rw [kind_alloc]
    split
    · exact hk
    · exact keyword?_eq_none_of_size_le hty

/-- A reference adds its nodes, the last of which stands for it. -/
theorem addsRefs_allocRef (span : Span) (ref : TypeRef) : ∀ {t : TypeTable}, t.Built →
    t.AddsRefs (t.allocRef span ref).2 ∧ t.size ≤ (t.allocRef span ref).1 ∧
      (t.allocRef span ref).1 < (t.allocRef span ref).2.size := by
  have hlast : ∀ (t : TypeTable) (kind : Kind), (t.alloc kind span).1 <
      (t.alloc kind span).2.size := by
    intro t kind
    rw [size_alloc]
    exact Nat.lt_succ_self t.size
  induction ref with
  | bool | bits | varbits =>
    intro t ht
    refine ⟨addsRefs_alloc ht span rfl ?_ ?_, Nat.le_refl _, hlast t _⟩
    · exact List.forall_mem_nil _
    · exact List.forall_mem_nil _
  | named name =>
    intro t ht
    have hintern := addsRefs_intern ht name
    refine ⟨hintern.trans (addsRefs_alloc hintern.built span rfl ?_ ?_), Nat.le_refl _, hlast _ _⟩
    · exact List.forall_mem_nil _
    · intro n hn
      obtain rfl := List.mem_singleton.mp hn
      exact knows_intern t name
  | stack element size ih =>
    intro t ht
    obtain ⟨helement, -, hlt⟩ := ih ht
    refine ⟨helement.trans (addsRefs_alloc helement.built span rfl ?_ ?_),
      helement.grows.size_le, hlast _ _⟩
    · intro c hc
      obtain rfl := List.mem_singleton.mp hc
      exact hlt
    · exact List.forall_mem_nil _

end TypeTable

end WireTypes
