import WireTypes.Proofs.TypeRef.Reading
import WireTypes.Proofs.TypeTable.Extension
import WireTypes.TypeTable.Resolve

/-!
# What the nodes of a table spell

`Spells t span ref ty` says that the nodes from `ty` on are those of the reference `ref`, all of
them at `span`.  It is true of the nodes that a reference adds (`spells_allocRef`), and stays true
in larger tables (`Spells.extend`).
-/

namespace WireTypes.TypeTable

/-- The table has the node in its place. -/
def Has (t : TypeTable) (ty : TypeId) (kind : Kind) (span : Span) : Prop :=
  t.nodes[ty]? = some ⟨kind, span⟩

def Names (t : TypeTable) (n : Name) (s : String) : Prop := t.Knows n ∧ t.spelling n = s

/-- The node spells the reference. -/
inductive Spells (t : TypeTable) (span : Span) : TypeRef → TypeId → Prop
  | bool {ty : TypeId} (h : t.Has ty .bool span) : Spells t span .bool ty
  | bits {ty : TypeId} {width : UInt32} {signed : Bool} (h : t.Has ty (.bits width signed) span) :
      Spells t span (.bits width signed) ty
  | varbits {ty : TypeId} {width : UInt32} (h : t.Has ty (.varbits width) span) :
      Spells t span (.varbits width) ty
  | named {ty : TypeId} {n : Name} {name : String} (h : t.Has ty (.named n) span)
      (hn : t.Names n name) :
      Spells t span (.named name) ty
  | stack {ty e : TypeId} {element : TypeRef} {size : UInt32} (h : t.Has ty (.stack e size) span)
      (he : Spells t span element e) : Spells t span (.stack element size) ty

/-- `b` is `ty` or, at some depth, an element of it. -/
inductive ElementOf (t : TypeTable) (b : TypeId) : TypeId → Prop
  | here : ElementOf t b b
  | element {ty e : TypeId} {size : UInt32} (hk : t.kind ty = .stack e size) (h : ElementOf t b e) :
      ElementOf t b ty

variable {t u : TypeTable} {ty : TypeId} {kind : Kind} {span : Span} {n : Name} {s : String}

theorem Has.kind_eq (h : t.Has ty kind span) : t.kind ty = kind := by
  unfold TypeTable.kind node
  rw [Array.getD_eq_getD_getElem?, h]
  rfl

theorem Has.lt_size (h : t.Has ty kind span) : ty < t.size := by
  obtain ⟨hlt, -⟩ := Array.getElem?_eq_some_iff.mp h
  exact hlt

theorem Has.extend (h : t.Has ty kind span) (hu : t.Extends u) : u.Has ty kind span := by
  unfold Has
  rw [← h]
  exact getElem?_eq_of_prefix hu.nodes h.lt_size

theorem Names.extend (h : t.Names n s) (hu : t.Extends u) : u.Names n s :=
  ⟨hu.knows h.1, (hu.spelling h.1).trans h.2⟩

theorem Names.unique (ht : t.Sound) {m : Name} (hm : t.Names m s) (hn : t.Names n s) : m = n :=
  Interner.spelling_inj ht.distinct hm.1 hn.1 (hm.2.trans hn.2.symm)

theorem Names.lookupSpelling (ht : t.Sound) (h : t.Names n s) :
    (t.lookupSpelling s).1 = t.lookup n := by
  rw [← h.2, lookupSpelling_spelling ht h.1]

theorem Spells.extend {ref : TypeRef} (h : t.Spells span ref ty) (hu : t.Extends u) :
    u.Spells span ref ty := by
  induction h with
  | bool h => exact .bool (h.extend hu)
  | bits h => exact .bits (h.extend hu)
  | varbits h => exact .varbits (h.extend hu)
  | named h hn => exact .named (h.extend hu) (hn.extend hu)
  | stack h _ ih => exact .stack (h.extend hu) ih

theorem Spells.base {ref : TypeRef} (h : t.Spells span ref ty) :
    ∃ b, t.ElementOf b ty ∧ t.Spells span ref.base b := by
  induction h with
  | bool h => exact ⟨_, .here, .bool h⟩
  | bits h => exact ⟨_, .here, .bits h⟩
  | varbits h => exact ⟨_, .here, .varbits h⟩
  | named h hn => exact ⟨_, .here, .named h hn⟩
  | stack h _ ih =>
    obtain ⟨b, hb, hbase⟩ := ih
    exact ⟨b, .element h.kind_eq hb, hbase⟩

theorem has_alloc (t : TypeTable) (kind : Kind) (span : Span) :
    (t.alloc kind span).2.Has (t.alloc kind span).1 kind span := Array.getElem?_push_size

theorem has_declare (t : TypeTable) (n : Name) (kind : Kind) (span : Span) :
    (t.declare n kind span).2.Has (t.declare n kind span).1 kind span :=
  (has_alloc t kind span).extend (extends_define _ n _)

theorem names_intern (t : TypeTable) (s : String) : (t.intern s).2.Names (t.intern s).1 s :=
  ⟨knows_intern t s, spelling_intern t s⟩

theorem spells_allocRef (span : Span) (ref : TypeRef) (t : TypeTable) :
    (t.allocRef span ref).2.Spells span ref (t.allocRef span ref).1 := by
  induction ref with
  | bool => exact .bool (has_alloc t _ span)
  | bits => exact .bits (has_alloc t _ span)
  | varbits => exact .varbits (has_alloc t _ span)
  | named name =>
    exact .named (has_alloc _ _ span) ((names_intern t name).extend (extends_alloc _ _ span))
  | stack element size ih => exact .stack (has_alloc _ _ span) (ih.extend (extends_alloc _ _ span))

theorem Has.step? (h : t.Has ty (.named n) span) : t.step? ty = t.lookup n := by
  unfold TypeTable.step?
  rw [h.kind_eq]

end WireTypes.TypeTable
