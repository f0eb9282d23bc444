import WireTypes.Proofs.Description.Loading
import WireTypes.Proofs.TypeRef.Canonical
import WireTypes.Proofs.TypeTable.Spelled

/-!
# References in tables

What the text of a reference adds to a table, and how it is spelled there.

* `addsStacks_allocRef`: a base comes as one node, and each size as a stack of the node before it;
* `read_reference`: which texts are references, and what each of them adds;
* `Shape`: two nodes of one shape are the same tree, wherever they stand;
* `display_inverse`: a tree is read back from its spelling.
-/

namespace WireTypes.TypeTable

open TypeRef (Legible Drops)

/-! ## Nodes of a reference -/

/-- The kind of node that stands for a base. -/
inductive StandsFor (u : TypeTable) : TypeRef → Kind → Prop
  | bool : StandsFor u .bool .bool
  | bits (width : UInt32) (signed : Bool) : StandsFor u (.bits width signed) (.bits width signed)
  | varbits (width : UInt32) : StandsFor u (.varbits width) (.varbits width)
  | named {n : Name} {name : String} (hn : u.Names n name) : StandsFor u (.named name) (.named n)

/-- Between `t` and `u` come a node for a base and, in order, a stack for each size, all at `span`.
Every stack has the node before it as its element, `ty` is the last node, and nothing else changes
but that new spellings get names. -/
structure AddsStacks (t u : TypeTable) (span : Span) (base : TypeRef) (sizes : List UInt32)
    (ty : TypeId) : Prop where
  nodes : ∃ kind, u.StandsFor base kind ∧ u.nodes.toList =
    t.nodes.toList ++ ⟨kind, span⟩ :: sizes.mapIdx fun i n => ⟨.stack (t.size + i) n, span⟩
  last : ty = t.size + sizes.length
  definitions : u.definitions = t.definitions
  names : t.interner.Extends u.interner

theorem StandsFor.of_interner {u v : TypeTable} {base : TypeRef} {kind : Kind}
    (h : u.StandsFor base kind) (hv : v.interner = u.interner) : v.StandsFor base kind := by
  cases h with
  | bool => exact .bool
  | bits width signed => exact .bits width signed
  | varbits width => exact .varbits width
  | named hn =>
    refine .named ?_
    unfold Names Knows spelling at hn ⊢
    rwa [hv]

theorem addsStacks_base (t : TypeTable) (span : Span) {kind : Kind} {base : TypeRef}
    {names : Interner} (hnames : t.interner.Extends names)
    (hkind : ({ t with interner := names }.alloc kind span).2.StandsFor base kind) :
    t.AddsStacks ({ t with interner := names }.alloc kind span).2 span base [] t.size where
  nodes := ⟨kind, hkind, by simp [alloc]⟩
  last := rfl
  definitions := rfl
  names := hnames

/-- The nodes of a reference are those of its base and of its stacks. -/
theorem addsStacks_allocRef (t : TypeTable) (span : Span) (ref : TypeRef) :
    t.AddsStacks (t.allocRef span ref).2 span ref.base ref.sizes (t.allocRef span ref).1 := by
  induction ref with
  | bool => exact addsStacks_base t span (.refl _) .bool
  | bits width signed => exact addsStacks_base t span (.refl _) (.bits width signed)
  | varbits width => exact addsStacks_base t span (.refl _) (.varbits width)
  | named name =>
    have hname : (t.allocRef span (.named name)).2.Names (t.intern name).1 name :=
      (names_intern t name).extend (extends_alloc _ _ span)
    exact addsStacks_base t span (Interner.extends_intern t.interner name) (.named hname)
  | stack element n ih =>
    obtain ⟨kind, hkind, hnodes⟩ := ih.nodes
    refine ⟨⟨kind, hkind.of_interner rfl, ?_⟩, ?_, ih.definitions, ih.names⟩
    · show ((t.allocRef span element).2.nodes.push ⟨.stack (t.allocRef span element).1 n,
          span⟩).toList =
        t.nodes.toList ++ ⟨kind, span⟩ :: (element.sizes ++ [n]).mapIdx _
      rw [Array.toList_push, hnodes, ih.last, List.mapIdx_concat]
      simp
    · show (t.allocRef span element).2.nodes.size = t.size + (element.sizes ++ [n]).length
      rw [← Array.length_toList, hnodes]
      simp [size]

/-! ## Texts -/

/-- **Reading a reference into a table.**  A text is read exactly if it obeys the rules of
references, and then it has one base and one list of sizes; these add their nodes to the table, the
stack of the first size being the innermost one.  All other texts are malformed. -/
theorem read_reference (t : TypeTable) (span : Span) (text : String) :
    (∃ base sizes, TypeRef.Written text.toList base sizes ∧
      (∀ base' sizes', TypeRef.Written text.toList base' sizes' → base' = base ∧ sizes' = sizes) ∧
      ∃ ty u, (Description.parseRef text).map (t.allocRef span) = .ok (ty, u) ∧
        t.AddsStacks u span base sizes ty) ∨
    ((∀ base sizes, ¬ TypeRef.Written text.toList base sizes) ∧
      ∃ part, (Description.parseRef text).map (t.allocRef span) =
        .error (.malformedType part)) := by
  unfold Description.parseRef
  cases hparse : TypeRef.parse text with
  | ok ref =>
    left
    obtain ⟨base, sizes, hwritten, rfl⟩ := TypeRef.parse_eq_ok_iff.mp hparse
    obtain ⟨hbase, hsizes⟩ := hwritten.base_eq
    refine ⟨base, sizes, hwritten, fun base' sizes' h => h.unique hwritten, _, _, rfl, ?_⟩
    have hadds := addsStacks_allocRef t span (base.stacked sizes)
    rwa [TypeRef.base_stacked, hbase, TypeRef.sizes_stacked, hsizes, List.nil_append] at hadds
  | error part =>
    right
    refine ⟨fun base sizes h => ?_, part, rfl⟩
    rw [TypeRef.parse_eq_ok_iff.mpr ⟨base, sizes, h, rfl⟩] at hparse
    cases hparse

/-! ## Trees -/

/-- The tree of nodes from `ty` on is that of the reference, at whatever places it was spelled. -/
inductive Shape (t : TypeTable) : TypeRef → TypeId → Prop
  | bool {ty : TypeId} (h : t.kind ty = .bool) : Shape t .bool ty
  | bits {ty : TypeId} {width : UInt32} {signed : Bool} (h : t.kind ty = .bits width signed) :
      Shape t (.bits width signed) ty
  | varbits {ty : TypeId} {width : UInt32} (h : t.kind ty = .varbits width) :
      Shape t (.varbits width) ty
  | named {ty : TypeId} {n : Name} (h : t.kind ty = .named n) : Shape t (.named (t.spelling n)) ty
  | stack {ty e : TypeId} {element : TypeRef} {n : UInt32} (h : t.kind ty = .stack e n)
      (he : Shape t element e) :
      Shape t (.stack element n) ty

variable {t u : TypeTable} {ref : TypeRef} {ty : TypeId} {span : Span}

theorem Spells.shape (h : t.Spells span ref ty) : t.Shape ref ty := by
  induction h with
  | bool h => exact .bool h.kind_eq
  | bits h => exact .bits h.kind_eq
  | varbits h => exact .varbits h.kind_eq
  | named h hn =>
    have hshape := Shape.named h.kind_eq
    rwa [hn.2] at hshape
  | stack h _ ih => exact .stack h.kind_eq ih

theorem Shape.reference_eq (ht : t.Sound) (h : t.Shape ref ty) : t.reference ty = ref := by
  induction h with
  | bool h | bits h | varbits h | named h =>
    unfold reference
    rw [h]
  | @stack ty e element n h _ ih =>
    -- the element comes before its stack, so it is not left out
    have hlt : e < ty := by
      refine ht.ids_lt ty e ?_
      rw [h]
      exact List.mem_singleton_self e
    unfold reference
    rw [h]
    simp only [hlt, if_true, ih]

theorem Shape.display_eq (ht : t.Sound) (h : t.Shape ref ty) : t.display ty = ref.display := by
  unfold display
  rw [h.reference_eq ht]

theorem shape_allocRef (t : TypeTable) (span : Span) (ref : TypeRef) :
    (t.allocRef span ref).2.Shape ref (t.allocRef span ref).1 := (spells_allocRef span ref t).shape

/-- The canonical spelling of a reference, read into a table. -/
theorem read_display (href : ref.Legible) (t : TypeTable) (span : Span) :
    (Description.parseRef ref.display).map (t.allocRef span) = .ok (t.allocRef span ref) := by
  unfold Description.parseRef
  rw [TypeRef.parse_display href]
  rfl

/-- **Spelling and reading.**  From the spelling of a tree, any table reads the same tree.  And if a
text was read, its tree is read again from its spelling, which is the text without blanks, plus
signs and leading zeros: whatever spells the same tree is reduced to it by leaving some of these
out, and it has no blanks and no plus signs of its own. -/
theorem display_inverse {t : TypeTable} (ht : t.Built) :
    (∀ (ref : TypeRef) (ty : TypeId), ref.Legible → t.Shape ref ty →
      ∀ (u : TypeTable) (span : Span), ∃ ty' u',
      (Description.parseRef (t.display ty)).map (u.allocRef span) = .ok (ty', u') ∧
        u'.Shape ref ty') ∧
    ∀ (text : String) (span : Span) (ty : TypeId) (u : TypeTable),
      (Description.parseRef text).map (t.allocRef span) = .ok (ty, u) →
      ∃ ref, u.Shape ref ty ∧
        (∀ (v : TypeTable) (span' : Span), ∃ ty' v',
          (Description.parseRef (u.display ty)).map (v.allocRef span') = .ok (ty', v') ∧
            v'.Shape ref ty') ∧
        (∀ other, Description.parseRef other = .ok ref → Drops other.toList (u.display ty).toList) ∧
        Drops text.toList (u.display ty).toList ∧
        ∀ c ∈ (u.display ty).toList, TypeRef.Visible c := by
  refine ⟨fun ref ty href hshape u span => ?_, fun text span ty u hread => ?_⟩
  · rw [hshape.display_eq ht.sound]
    exact ⟨_, _, read_display href u span, shape_allocRef u span ref⟩
  · cases href : Description.parseRef text with
    | error e =>
      rw [href] at hread
      cases hread
    | ok ref =>
      rw [href] at hread
      obtain ⟨rfl, rfl⟩ : (t.allocRef span ref).1 = ty ∧ (t.allocRef span ref).2 = u :=
        Prod.ext_iff.mp (Except.ok.inj hread)
      have hlegible := TypeRef.legible_of_parse (Description.parse_of_parseRef href)
      have hdrops : ∀ other, Description.parseRef other = .ok ref →
          Drops other.toList ref.display.toList :=
        fun other h => TypeRef.drops_display (Description.parse_of_parseRef h)
      have hshape := shape_allocRef t span ref
      rw [hshape.display_eq (addsRefs_allocRef span ref ht).1.built.sound]
      refine ⟨ref, hshape, fun v span' => ?_, hdrops, hdrops text href,
        TypeRef.visible_display hlegible⟩
      exact ⟨_, _, read_display hlegible v span', shape_allocRef v span' ref⟩

/-- A name that begins with a keyword, in stacks: its spelling is read, and so is the same with
blanks, a plus sign and zeros. -/
theorem display_inverse_varbit_t :
    let text := " varbit_t [ +02 ][00]\t"
    ∃ (t : TypeTable) (ty : TypeId), t.Built ∧ t.display ty = "varbit_t[2][0]" ∧
      (∃ ty' u, (Description.parseRef "varbit_t[2][0]").map (t.allocRef .dummy) = .ok (ty', u) ∧
        u.Shape (.stack (.stack (.named "varbit_t") 2) 0) ty') ∧
      ∃ ty' u, (Description.parseRef text).map (t.allocRef .dummy) = .ok (ty', u) ∧
        Drops text.toList (u.display ty').toList := by
  intro text
  let ref : TypeRef := .stack (.stack (.named "varbit_t") 2) 0
  have hbuilt := (addsRefs_allocRef .dummy ref .empty).1.built
  have hshape := shape_allocRef ∅ .dummy ref
  have href : ref.Legible := ⟨TypeRef.isIdentifier_iff.mp (by decide), by decide⟩
  have hdisplay : ((∅ : TypeTable).allocRef .dummy ref).2.display
      ((∅ : TypeTable).allocRef .dummy ref).1 =
      "varbit_t[2][0]" := (hshape.display_eq hbuilt.sound).trans (by decide)
  have hparse : TypeRef.parse text = .ok ref := by decide +kernel
  have hread : ∀ u : TypeTable, (Description.parseRef text).map (u.allocRef .dummy) =
      .ok (u.allocRef .dummy ref) := by
    intro u
    unfold Description.parseRef
    rw [hparse]
    rfl
  obtain ⟨hthere, hback⟩ := display_inverse hbuilt
  refine ⟨_, _, hbuilt, hdisplay, ?_, _, _, hread _, ?_⟩
  · rw [← hdisplay]
    exact hthere ref _ href hshape _ .dummy
  · obtain ⟨-, -, -, -, hdrops, -⟩ := hback text .dummy _ _ (hread _)
    exact hdrops

end WireTypes.TypeTable
