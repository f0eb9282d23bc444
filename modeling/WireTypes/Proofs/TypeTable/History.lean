import WireTypes.Proofs.Interner
import WireTypes.TypeTable.Basic

/-!
# How tables come about

A table starts empty and grows by its own operations (`Growth`); ids and names handed to an
operation were answered by the same table before (`Growth.Fits`).  `Built t` says that `t` came
about in this way.  Names may be declared any number of times, so a declaration may point to any
node.

`Sound t` is what every operation keeps (`Sound.grow`) and so what holds of every such table
(`Built.sound`): ids inside a node point backwards, declarations point to nodes, names have
spellings, and no spelling has two names.
-/

namespace WireTypes

namespace Kind

def ids : Kind → List TypeId
  | .header _ fields => fields.map (·.type)
  | .aggregate _ _ fields => fields.map (·.type)
  | .stack element _ => [element]
  | _ => []

def names : Kind → List Name
  | .header n fields => n :: fields.map (·.name)
  | .aggregate _ n fields => n :: fields.map (·.name)
  | .enum n members => n :: members
  | .named n => [n]
  | _ => []

end Kind

namespace TypeTable

/-- `n` was answered by the table. -/
def Knows (t : TypeTable) (n : Name) : Prop := t.interner.Knows n

/-- What can be done to a table. -/
inductive Growth where
  | intern (s : String)
  | alloc (kind : Kind) (span : Span)
  | define (n : Name) (ty : TypeId)
  | lookupSpelling (s : String)
  | allocNamed (s : String) (span : Span)
  | declareHeader (s : String) (fields : List (String × TypeId))
  | declareAggregate (form : AggregateForm) (s : String) (fields : List (String × TypeId))
  | declareEnum (s : String) (members : List String)
  | declareTypedef (s : String) (ty : TypeId)

namespace Growth

/-- The ids and names handed in were answered by the table. -/
def Fits (t : TypeTable) : Growth → Prop
  | .alloc kind _ => (∀ c ∈ kind.ids, c < t.size) ∧ ∀ n ∈ kind.names, t.Knows n
  | .define n ty => t.Knows n ∧ ty < t.size
  | .declareHeader _ fields => ∀ f ∈ fields, f.2 < t.size
  | .declareAggregate _ _ fields => ∀ f ∈ fields, f.2 < t.size
  | .declareTypedef _ ty => ty < t.size
  | .intern _ | .lookupSpelling _ | .allocNamed _ _ | .declareEnum _ _ => True

def grow (t : TypeTable) : Growth → TypeTable
  | .intern s => (t.intern s).2
  | .alloc kind span => (t.alloc kind span).2
  | .define n ty => t.define n ty
  | .lookupSpelling s => (t.lookupSpelling s).2
  | .allocNamed s span => (t.allocNamed s span).2
  | .declareHeader s fields => (t.declareHeader s fields).2
  | .declareAggregate form s fields => (t.declareAggregate form s fields).2
  | .declareEnum s members => (t.declareEnum s members).2
  | .declareTypedef s ty => t.declareTypedef s ty

end Growth

/-- The table came about by its own operations. -/
inductive Built : TypeTable → Prop
  | empty : Built ∅
  | grow {t : TypeTable} (h : Built t) (g : Growth) (hg : g.Fits t) : Built (g.grow t)

theorem Built.alloc_leaf {t : TypeTable} (h : t.Built) (kind : Kind) (span : Span)
    (hids : kind.ids = []) (hnames : kind.names = []) :
    ((Growth.alloc kind span).grow t).Built := by
  refine .grow h (.alloc kind span) ⟨?_, ?_⟩
  · rw [hids]
    exact List.forall_mem_nil _
  · rw [hnames]
    exact List.forall_mem_nil _

theorem Built.alloc_stack {t : TypeTable} (h : t.Built) {element : TypeId}
    (size : UInt32) (span : Span) (helement : element < t.size) :
    ((Growth.alloc (.stack element size) span).grow t).Built := by
  refine .grow h (.alloc (.stack element size) span) ⟨?_, List.forall_mem_nil _⟩
  intro c hc
  obtain rfl := List.mem_singleton.mp hc
  exact helement

theorem built_single {kind : Kind} (span : Span) (hids : kind.ids = []) (hnames : kind.names = []) :
    ((Growth.alloc kind span).grow ∅).Built :=
  Built.empty.alloc_leaf kind span hids hnames

/-- The invariant of tables. -/
structure Sound (t : TypeTable) : Prop where
  /-- Ids inside a node point backwards. -/
  ids_lt : ∀ ty, ∀ c ∈ (t.kind ty).ids, c < ty
  /-- Declarations point to nodes. -/
  target_lt : ∀ n ty, t.lookup n = some ty → ty < t.size
  /-- Names inside a node have spellings. -/
  knows : ∀ ty < t.size, ∀ n ∈ (t.kind ty).names, t.Knows n
  /-- No spelling has two names. -/
  distinct : t.interner.Distinct

/-! ## Single steps -/

theorem kind_alloc (t : TypeTable) (kind : Kind) (span : Span) (ty : TypeId) :
    (t.alloc kind span).2.kind ty = if ty = t.size then kind else t.kind ty := by
  unfold TypeTable.kind node alloc size
  rw [Array.getD_eq_getD_getElem?, Array.getD_eq_getD_getElem?, Array.getElem?_push]
  split
  · rfl
  · rfl

theorem size_alloc (t : TypeTable) (kind : Kind) (span : Span) :
    (t.alloc kind span).2.size = t.size + 1 := by
  simp [alloc, size]

theorem kind_eq_of_size_le {t : TypeTable} {ty : TypeId} (h : t.size ≤ ty) :
    t.kind ty = .named .empty := by
  unfold TypeTable.kind node
  rw [Array.getD_eq_getD_getElem?, Array.getElem?_eq_none h]
  rfl

theorem lookup_define (t : TypeTable) (n m : Name) (ty : TypeId) :
    (t.define n ty).lookup m = if m = n then some ty else t.lookup m := by
  unfold lookup define
  rw [List.lookup_cons]
  by_cases h : m = n
  · simp [h]
  · have hb : (m == n) = false := by simpa using h
    simp [h, hb]

theorem sound_empty : Sound ∅ where
  ids_lt ty c hc := by
    rw [kind_eq_of_size_le (Nat.zero_le ty)] at hc
    simp [Kind.ids] at hc
  target_lt n ty h := by simp [lookup, EmptyCollection.emptyCollection, TypeTable.empty] at h
  knows ty h := absurd h (Nat.not_lt_zero ty)
  distinct := Interner.distinct_initial

/-- More spellings do no harm. -/
theorem Sound.withInterner {t : TypeTable} (ht : t.Sound) {names : Interner} (hd : names.Distinct)
    (hle : t.interner.size ≤ names.size) : Sound { t with interner := names } where
  ids_lt := ht.ids_lt
  target_lt := ht.target_lt
  knows ty h n hn := Nat.lt_of_lt_of_le (ht.knows ty h n hn) hle
  distinct := hd

theorem Sound.intern {t : TypeTable} (ht : t.Sound) (s : String) : (t.intern s).2.Sound :=
  ht.withInterner (ht.distinct.intern s) (Interner.size_le_intern t.interner s)

theorem Sound.internAll {t : TypeTable} (ht : t.Sound) (ss : List String) :
    (t.internAll ss).2.Sound :=
  ht.withInterner (.internAll ss ht.distinct) (Interner.size_le_internAll ss t.interner)

theorem Sound.alloc {t : TypeTable} (ht : t.Sound) {kind : Kind} (hids : ∀ c ∈ kind.ids, c < t.size)
    (hnames : ∀ n ∈ kind.names, t.Knows n) (span : Span) : (t.alloc kind span).2.Sound where
  ids_lt ty c hc := by
    rw [kind_alloc] at hc
    split at hc
    · next h =>
      rw [h]
      exact hids c hc
    · exact ht.ids_lt ty c hc
  target_lt n ty h := by
    rw [size_alloc]
    exact Nat.lt_succ_of_lt (ht.target_lt n ty h)
  knows ty h n hn := by
    rw [size_alloc] at h
    rw [kind_alloc] at hn
    split at hn
    · exact hnames n hn
    · next hne => exact ht.knows ty (Nat.lt_of_le_of_ne (Nat.le_of_lt_succ h) hne) n hn
  distinct := ht.distinct

theorem Sound.define {t : TypeTable} (ht : t.Sound) (n : Name) {ty : TypeId} (hty : ty < t.size) :
    (t.define n ty).Sound where
  ids_lt := ht.ids_lt
  target_lt m ty' h := by
    rw [lookup_define] at h
    split at h
    · cases h
      exact hty
    · exact ht.target_lt m ty' h
  knows := ht.knows
  distinct := ht.distinct

/-! ## Steps made of several -/

theorem Sound.declare {t : TypeTable} (ht : t.Sound) (n : Name) {kind : Kind}
    (hids : ∀ c ∈ kind.ids, c < t.size) (hnames : ∀ m ∈ kind.names, t.Knows m) (span : Span) :
    (t.declare n kind span).2.Sound := by
  refine (ht.alloc hids hnames span).define n ?_
  rw [size_alloc]
  exact Nat.lt_succ_self t.size

theorem knows_intern (t : TypeTable) (s : String) : (t.intern s).2.Knows (t.intern s).1 :=
  Interner.index_intern_lt t.interner s

theorem Knows.internAll {t : TypeTable} {n : Name} (h : t.Knows n) (ss : List String) :
    (t.internAll ss).2.Knows n :=
  Nat.lt_of_lt_of_le h (Interner.size_le_internAll ss t.interner)

/-- The fields of a declaration: their ids were handed in, their names are new or known. -/
theorem mem_internFields {t : TypeTable} {fields : List (String × TypeId)} {f : Field}
    (hf : f ∈ (t.internFields fields).1) :
    (∃ g ∈ fields, f.type = g.2) ∧ (t.internFields fields).2.Knows f.name := by
  unfold internFields at hf ⊢
  obtain ⟨i, hi, rfl⟩ := List.mem_iff_getElem.mp hf
  rw [List.getElem_zipWith]
  refine ⟨⟨_, List.getElem_mem _, rfl⟩, ?_⟩
  exact Interner.index_internAll_lt (fields.map (·.1)) t.interner _ (List.getElem_mem _)

/-- A header, struct or union declared from spellings: all of these are made in one way. -/
theorem Sound.declareFields {t : TypeTable} (ht : t.Sound) (s : String)
    {fields : List (String × TypeId)} (hf : ∀ f ∈ fields, f.2 < t.size)
    {kind : Name → List Field → Kind} (hids : ∀ n fs, (kind n fs).ids = fs.map (·.type))
    (hnames : ∀ n fs, (kind n fs).names = n :: fs.map (·.name)) :
    (((t.intern s).2.internFields fields).2.declare (t.intern s).1
      (kind (t.intern s).1 ((t.intern s).2.internFields fields).1)).2.Sound := by
  have hs : ((t.intern s).2.internFields fields).2.Sound := (ht.intern s).internAll _
  refine hs.declare (t.intern s).1 ?_ ?_ .dummy
  · intro c hc
    rw [hids, List.mem_map] at hc
    obtain ⟨f, hmem, rfl⟩ := hc
    obtain ⟨⟨g, hg, he⟩, -⟩ := mem_internFields hmem
    rw [he]
    exact hf g hg
  · intro m hm
    rw [hnames] at hm
    rcases List.mem_cons.mp hm with rfl | hm
    · exact (knows_intern t s).internAll _
    · obtain ⟨f, hmem, rfl⟩ := List.mem_map.mp hm
      exact (mem_internFields hmem).2

theorem Sound.declareEnum {t : TypeTable} (ht : t.Sound) (s : String) (members : List String) :
    (t.declareEnum s members).2.Sound := by
  refine ((ht.intern s).internAll members).declare (t.intern s).1 ?_ ?_ .dummy
  · intro c hc
    simp [Kind.ids] at hc
  · intro m hm
    rcases List.mem_cons.mp hm with rfl | hm
    · exact (knows_intern t s).internAll members
    · exact Interner.index_internAll_lt members _ m hm

theorem Sound.allocNamed {t : TypeTable} (ht : t.Sound) (s : String) (span : Span) :
    (t.allocNamed s span).2.Sound := by
  refine (ht.intern s).alloc ?_ ?_ span
  · intro c hc
    simp [Kind.ids] at hc
  · intro m hm
    obtain rfl := List.mem_singleton.mp hm
    exact knows_intern t s

/-- What one operation keeps. -/
theorem Sound.grow {t : TypeTable} (ht : t.Sound) {g : Growth} (hg : g.Fits t) :
    (g.grow t).Sound := by
  cases g with
  | intern s => exact ht.intern s
  | alloc kind span => exact ht.alloc hg.1 hg.2 span
  | define n ty => exact ht.define n hg.2
  | lookupSpelling s => exact ht.intern s
  | allocNamed s span => exact ht.allocNamed s span
  | declareHeader s fields =>
    exact ht.declareFields s hg (fun _ _ => rfl) (fun _ _ => rfl)
  | declareAggregate form s fields =>
    exact ht.declareFields s hg (fun _ _ => rfl) (fun _ _ => rfl)
  | declareEnum s members => exact ht.declareEnum s members
  | declareTypedef s ty => exact (ht.intern s).define _ hg

/-- What holds after any number of operations. -/
theorem Built.sound {t : TypeTable} (h : t.Built) : t.Sound := by
  induction h with
  | empty => exact sound_empty
  | grow _ g hg ih => exact ih.grow hg

/-! ## A table -/

/-- A header, a struct that holds it under its name, and a struct that holds itself. -/
def mixed : TypeTable :=
  let t := (Growth.alloc (.bits 8 false) .dummy).grow ∅
  let t := (Growth.declareHeader "h" [("x", 0)]).grow t
  let t := (Growth.allocNamed "h" .dummy).grow t
  let t := (Growth.declareAggregate .struct "s" [("a", 2)]).grow t
  let t := (Growth.allocNamed "node" .dummy).grow t
  (Growth.declareAggregate .struct "node" [("next", 4)]).grow t

theorem built_mixed : mixed.Built := by
  refine .grow
    (.grow (.grow (.grow (.grow (built_single .dummy rfl rfl) (.declareHeader "h" [("x", 0)]) ?_)
    (.allocNamed "h" .dummy) trivial) (.declareAggregate .struct "s" [("a", 2)]) ?_)
      (.allocNamed "node" .dummy)
    trivial) (.declareAggregate .struct "node" [("next", 4)]) ?_
  · intro f hf
    obtain rfl := List.mem_singleton.mp hf
    decide
  · intro f hf
    obtain rfl := List.mem_singleton.mp hf
    exact (by decide : 2 < 3)
  · intro f hf
    obtain rfl := List.mem_singleton.mp hf
    exact (by decide : 4 < 5)

end TypeTable

end WireTypes
