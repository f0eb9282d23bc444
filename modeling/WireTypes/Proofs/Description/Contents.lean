import WireTypes.Proofs.Description.Faults
import WireTypes.Proofs.Description.References
import WireTypes.Proofs.TypeTable.Spelled

/-!
# What is loaded of a description

A description is loaded declaration by declaration into one table, in which names and references are
still to come.  What a declaration put there is found there at the end (`Holds.extend`), and no
other declaration takes its name.

* `Contents`: what declarations leave in a table, with the exact list of its definitions;
* `Loads`: what is in the table and the unit of a description;
* `load_outcome`: loading fails with the first fault, and without any it loads the description.
-/

namespace WireTypes

variable {ρ : Type}

namespace TypeTable

/-! ## Declarations in a table -/

/-- The fields of a node are those that are declared, in order.  `R` tells how a reference is
found. -/
def HasFields (t : TypeTable) (R : Span → ρ → TypeId → Prop) (fields : List (FieldDecl ρ))
    (fs : List Field) : Prop :=
  List.Forall₂ (fun f g => t.Names g.name f.name ∧ g.span = f.span ∧
    R f.span f.type g.type) fields fs

/-- The node is the declared one, with the name and the fields of the declaration. -/
def HasRecord (t : TypeTable) (R : Span → ρ → TypeId → Prop) (d : Declaration ρ)
    (fields : List (FieldDecl ρ)) (kind : Name → List Field → Kind) (ty : TypeId) : Prop :=
  ∃ n fs, t.Has ty (kind n fs) d.span ∧ t.Names n d.name ∧ t.HasFields R fields fs

/-- The node is what is declared. -/
def Holds (t : TypeTable) (R : Span → ρ → TypeId → Prop) (d : Declaration ρ) (ty : TypeId) : Prop :=
  match d.body with
  | .typedef target => R d.span target ty
  | .header fields => t.HasRecord R d fields .header ty
  | .struct fields => t.HasRecord R d fields (.aggregate .struct) ty
  | .headerUnion fields => t.HasRecord R d fields (.aggregate .union) ty
  | .enum members =>
    ∃ n ms, t.Has ty (.enum n ms) d.span ∧ t.Names n d.name ∧ List.Forall₂ t.Names ms members

/-- The node spells the text of a reference. -/
def SpellsText (t : TypeTable) (span : Span) (text : String) (ty : TypeId) : Prop :=
  ∃ ref, TypeRef.parse text = .ok ref ∧ t.Spells span ref ty

section

variable {t u : TypeTable} {d : Declaration TypeRef} {ty : TypeId}

theorem HasFields.extend {fields : List (FieldDecl TypeRef)} {fs : List Field}
    (h : t.HasFields t.Spells fields fs) (hu : t.Extends u) : u.HasFields u.Spells fields fs :=
  h.imp fun _ _ h => ⟨h.1.extend hu, h.2.1, h.2.2.extend hu⟩

theorem HasRecord.extend {fields : List (FieldDecl TypeRef)} {kind : Name → List Field → Kind}
    (h : t.HasRecord t.Spells d fields kind ty) (hu : t.Extends u) :
    u.HasRecord u.Spells d fields kind ty := by
  obtain ⟨n, fs, hnode, hn, hfs⟩ := h
  exact ⟨n, fs, hnode.extend hu, hn.extend hu, hfs.extend hu⟩

theorem Holds.extend (h : t.Holds t.Spells d ty) (hu : t.Extends u) : u.Holds u.Spells d ty := by
  unfold Holds at h ⊢
  cases hbody : d.body with
  | typedef target =>
    rw [hbody] at h
    exact Spells.extend h hu
  | header fields | struct fields | headerUnion fields =>
    rw [hbody] at h
    exact HasRecord.extend h hu
  | enum members =>
    rw [hbody] at h
    obtain ⟨n, ms, hnode, hn, hms⟩ := h
    exact ⟨n, ms, hnode.extend hu, hn.extend hu, hms.imp fun _ _ hm => hm.extend hu⟩

end

/-! ## What comes in -/

theorem names_internAll (ss : List String) : ∀ {t : TypeTable}, t.Built →
    List.Forall₂ (t.internAll ss).2.Names (t.internAll ss).1 ss := by
  induction ss with
  | nil => exact fun _ => .nil
  | cons s ss ih =>
    intro t ht
    have hs := (addsRefs_intern ht s).built
    exact .cons ((names_intern t s).extend (addsRefs_internAll ss hs).grows) (ih hs)

theorem hasFields_addFields (fields : List (FieldDecl TypeRef)) : ∀ {t : TypeTable}, t.Built →
    (t.addFields fields).2.HasFields (t.addFields fields).2.Spells fields
      (t.addFields fields).1 := by
  induction fields with
  | nil => exact fun _ => .nil
  | cons f rest ih =>
    intro t ht
    have hname := addsRefs_intern ht f.name
    obtain ⟨htype, -⟩ := addsRefs_allocRef f.span f.type hname.built
    obtain ⟨hrest, -⟩ := addsRefs_addFields rest htype.built
    refine .cons ⟨?_, rfl, ?_⟩ (ih htype.built)
    · exact (names_intern t f.name).extend (htype.trans hrest).grows
    · exact (spells_allocRef f.span f.type (t.intern f.name).2).extend hrest.grows

theorem hasRecord_addRecord {t : TypeTable} (ht : t.Built) (d : Declaration TypeRef)
    (fields : List (FieldDecl TypeRef)) (kind : Name → List Field → Kind) :
    HasRecord (t.addRecord d.name d.span fields kind).2
      (t.addRecord d.name d.span fields kind).2.Spells d fields kind
      (t.addRecord d.name d.span fields kind).1 := by
  have hname := addsRefs_intern ht d.name
  obtain ⟨hfields, -⟩ := addsRefs_addFields fields hname.built
  have hdeclare := extends_declare ((t.intern d.name).2.addFields fields).2 (t.intern d.name).1
    (kind (t.intern d.name).1 ((t.intern d.name).2.addFields fields).1) d.span
  refine ⟨_, _, has_declare _ _ _ d.span, ?_, ?_⟩
  · exact (names_intern t d.name).extend (hfields.grows.trans hdeclare)
  · exact (hasFields_addFields fields hname.built).extend hdeclare

theorem holds_addDeclaration {t : TypeTable} (ht : t.Built) (d : Declaration TypeRef) :
    (t.addDeclaration d).2.Holds (t.addDeclaration d).2.Spells d (t.addDeclaration d).1 := by
  obtain ⟨name, span, body⟩ := d
  cases body with
  | typedef target =>
    have hname := extends_intern (t.allocRef span target).2 name
    exact (spells_allocRef span target t).extend (hname.trans (extends_define _ _ _))
  | header fields => exact hasRecord_addRecord ht ⟨name, span, .header fields⟩ fields .header
  | struct fields =>
    exact hasRecord_addRecord ht ⟨name, span, .struct fields⟩ fields (.aggregate .struct)
  | headerUnion fields =>
    exact hasRecord_addRecord ht ⟨name, span, .headerUnion fields⟩ fields (.aggregate .union)
  | enum members =>
    have hname := addsRefs_intern ht name
    have hmembers := addsRefs_internAll members hname.built
    have hdeclare := extends_declare ((t.intern name).2.internAll members).2 (t.intern name).1
      (.enum (t.intern name).1 ((t.intern name).2.internAll members).1) span
    refine ⟨_, _, has_declare _ _ _ span, ?_, ?_⟩
    · exact (names_intern t name).extend (hmembers.grows.trans hdeclare)
    · exact (names_internAll members hname.built).imp fun _ _ h => h.extend hdeclare

/-! ## All declarations -/

/-- From `t` to `u` the declarations `ds` came in; `defs` are their names and nodes. -/
structure Contents (t : TypeTable) (ds : List (Declaration TypeRef)) (defs : List (Name × TypeId))
    (u : TypeTable) :
    Prop where
  built : u.Built
  grows : t.Extends u
  holds : List.Forall₂ (fun d p => u.Names p.1 d.name ∧ u.Holds u.Spells d p.2) ds defs
  definitions : u.definitions = defs.reverse ++ t.definitions

theorem contents_addDeclarations (ds : List (Declaration TypeRef)) : ∀ {t : TypeTable}, t.Built →
    ∃ defs, t.Contents ds defs (t.addDeclarations ds).2 ∧
      (t.addDeclarations ds).1 = ((ds.zip defs).filter (·.1.isDefinition)).map (·.2.2) := by
  induction ds with
  | nil => exact fun ht => ⟨[], ⟨ht, .refl _, .nil, rfl⟩, rfl⟩
  | cons d ds ih =>
    intro t ht
    have hadds := adds_addDeclaration ht d
    obtain ⟨n, hn, hspelling, hdefinitions⟩ := hadds.declared
    obtain ⟨defs, hrest, htypes⟩ := ih hadds.built
    refine ⟨(n, (t.addDeclaration d).1) :: defs,
      ⟨hrest.built, hadds.grows.trans hrest.grows, ?_, ?_⟩, ?_⟩
    · have hname : (t.addDeclaration d).2.Names n d.name := ⟨hn, hspelling⟩
      exact .cons ⟨hname.extend hrest.grows,
        (holds_addDeclaration ht d).extend hrest.grows⟩ hrest.holds
    · show ((t.addDeclaration d).2.addDeclarations ds).2.definitions = _
      rw [hrest.definitions, hdefinitions, List.reverse_cons, List.append_assoc]
      rfl
    · show (if d.isDefinition then
          (t.addDeclaration d).1 :: ((t.addDeclaration d).2.addDeclarations ds).1
        else ((t.addDeclaration d).2.addDeclarations ds).1) = _
      rw [htypes, List.zip_cons_cons, List.filter_cons]
      split <;> rfl

theorem spells_addVariables (vars : List (VariableDecl TypeRef)) : ∀ {t : TypeTable}, t.Built →
    List.Forall₂ (fun v x => x.name = v.name ∧
      (t.addVariables vars).2.Spells .dummy v.type x.type) vars
      (t.addVariables vars).1 := by
  induction vars with
  | nil => exact fun _ => .nil
  | cons v rest ih =>
    intro t ht
    obtain ⟨htype, -⟩ := addsRefs_allocRef .dummy v.type ht
    obtain ⟨hrest, -⟩ := addsRefs_addVariables rest htype.built
    exact .cons ⟨rfl, (spells_allocRef .dummy v.type t).extend hrest.grows⟩ (ih htype.built)

/-- Variables come in behind the declarations. -/
theorem Contents.addsRefs {t u v : TypeTable} {ds : List (Declaration TypeRef)}
    {defs : List (Name × TypeId)} (h : t.Contents ds defs u) (hv : u.AddsRefs v) :
    t.Contents ds defs v where
  built := hv.built
  grows := h.grows.trans hv.grows
  holds := h.holds.imp fun _ _ hd => ⟨hd.1.extend hv.grows, hd.2.extend hv.grows⟩
  definitions := hv.definitions.trans h.definitions

/-! ## Names -/

theorem lookup_of_mem {defs : List (Name × TypeId)} (hnodup : (defs.map (·.1)).Nodup)
    {n : Name} {ty : TypeId} (h : (n, ty) ∈ defs) : defs.lookup n = some ty := by
  induction defs with
  | nil => cases h
  | cons p rest ih =>
    obtain ⟨m, a⟩ := p
    obtain ⟨hfresh, hrest⟩ := List.nodup_cons.mp hnodup
    rw [List.lookup_cons]
    rcases List.mem_cons.mp h with heq | hmem
    · cases heq
      simp
    · have hne : (n == m) = false := by
        rw [beq_eq_false_iff_ne]
        rintro rfl
        exact hfresh (List.mem_map.mpr ⟨_, hmem, rfl⟩)
      rw [hne]
      exact ih hrest hmem

section

variable {u : TypeTable} {ds : List (Declaration TypeRef)} {defs : List (Name × TypeId)}

theorem Contents.nodup (h : Contents ∅ ds defs u) (hnames : (ds.map (·.name)).Nodup) :
    (defs.map (·.1)).Nodup := by
  have hspelling : defs.map (u.spelling ∘ (·.1)) = ds.map (·.name) :=
    map_eq_of_forall₂ (h.holds.imp fun _ _ hd => hd.1.2)
  rw [← hspelling, ← List.map_map] at hnames
  exact hnames.of_map

/-- Where no name is declared twice, each stands for its own declaration. -/
theorem Contents.found (h : Contents ∅ ds defs u) (hnames : (ds.map (·.name)).Nodup) :
    List.Forall₂ (fun d p => u.lookup p.1 = some p.2 ∧ u.Names p.1 d.name ∧
      u.Holds u.Spells d p.2) ds defs := by
  have hlookup : ∀ p ∈ defs, u.lookup p.1 = some p.2 := by
    intro p hp
    have hdefinitions : u.definitions = defs.reverse := h.definitions.trans (List.append_nil _)
    unfold TypeTable.lookup
    rw [hdefinitions]
    refine lookup_of_mem ?_ (List.mem_reverse.mpr hp)
    rw [List.map_reverse, List.nodup_reverse]
    exact h.nodup hnames
  exact ((List.forall₂_and_left defs ds).mpr ⟨hlookup, h.holds.flip⟩).flip

theorem Contents.lookup_eq_none_iff (h : Contents ∅ ds defs u) {n : Name} {s : String}
    (hn : u.Names n s) : u.lookup n = none ↔ s ∉ ds.map (·.name) := by
  have hdefinitions : u.definitions = defs.reverse := h.definitions.trans (List.append_nil _)
  unfold TypeTable.lookup
  rw [hdefinitions, List.lookup_eq_none_iff]
  constructor
  · intro hnone hmem
    obtain ⟨d, hd, rfl⟩ := List.mem_map.mp hmem
    obtain ⟨p, hp, hname, -⟩ := exists_mem_of_forall₂ h.holds d hd
    obtain rfl := hn.unique h.built.sound hname
    simpa using hnone p (List.mem_reverse.mpr hp)
  · intro hnot p hp
    obtain ⟨d, hd, hname, -⟩ := exists_mem_of_forall₂ h.holds.flip p (List.mem_reverse.mp hp)
    rw [bne_iff_ne]
    rintro rfl
    exact hnot (List.mem_map.mpr ⟨d, hd, hname.2.symm.trans hn.2⟩)

end

end TypeTable

namespace Description

/-! ## Parsing -/

theorem forall₂_of_parseFields {fields : List (FieldDecl String)}
    {fields' : List (FieldDecl TypeRef)} (h : parseFields fields = .ok fields') :
    List.Forall₂ (fun f f' => f'.name = f.name ∧ f'.span = f.span ∧
      TypeRef.parse f.type = .ok f'.type) fields
      fields' := by
  refine (forall₂_of_mapM h).imp fun f f' hf => ?_
  obtain ⟨ref, href, hf⟩ := except_bind_eq_ok.mp hf
  cases hf
  exact ⟨rfl, rfl, parse_of_parseRef href⟩

end Description

namespace TypeTable

variable {t : TypeTable} {ty : TypeId}

theorem HasFields.of_parse {fields : List (FieldDecl String)} {fields' : List (FieldDecl TypeRef)}
    {fs : List Field} (hparse : Description.parseFields fields = .ok fields')
    (h : t.HasFields t.Spells fields' fs) : t.HasFields t.SpellsText fields fs := by
  refine (forall₂_trans (Description.forall₂_of_parseFields hparse) h).imp fun f g hfg => ?_
  obtain ⟨f', ⟨hname, hspan, href⟩, hn, hgspan, hspells⟩ := hfg
  rw [hname] at hn
  rw [hspan] at hgspan hspells
  exact ⟨hn, hgspan, f'.type, href, hspells⟩

/-- What holds of a parsed declaration holds of its text. -/
theorem Holds.of_parse {d : Declaration String} {d' : Declaration TypeRef}
    (hname : d'.name = d.name) (hspan : d'.span = d.span)
    (hbody : Description.parseBody d.body = .ok d'.body) (h : t.Holds t.Spells d' ty) :
    t.Holds t.SpellsText d ty := by
  obtain ⟨name, span, body⟩ := d
  obtain ⟨name', span', body'⟩ := d'
  cases hname
  cases hspan
  cases body with
  | typedef target =>
    obtain ⟨ref, href, hbody⟩ := except_map_eq_ok.mp hbody
    cases hbody
    exact ⟨ref, Description.parse_of_parseRef href, h⟩
  | header fields | struct fields | headerUnion fields =>
    obtain ⟨fields', hfields, hbody⟩ := except_map_eq_ok.mp hbody
    cases hbody
    obtain ⟨n, fs, hnode, hn, hfs⟩ := h
    exact ⟨n, fs, hnode, hn, hfs.of_parse hfields⟩
  | enum members =>
    cases hbody
    exact h

end TypeTable

namespace Description

/-! ## Descriptions -/

/-- What is loaded of a description, whose declarations have the nodes `ids`. -/
structure Loads (d : Description String) (l : Loaded) (ids : List TypeId) : Prop where
  /-- Each declaration has its node, with all that it declares, and this is found under its name. -/
  declared : List.Forall₂ (fun x ty => l.table.Holds l.table.SpellsText x ty ∧
    (l.table.lookupSpelling x.name).1 = some ty) d.types ids
  undeclared : ∀ name, (l.table.lookupSpelling name).1 = none ↔ name ∉ d.types.map (·.name)
  /-- A reference that mentions a name has a node for it, which stands for the declaration of the
  name, wherever that is, and for nothing exactly if there is none. -/
  mentioned : ∀ span text name ty, l.table.SpellsText span text ty → TypeRef.Mentions name text →
    ∃ b n, l.table.ElementOf b ty ∧ l.table.Has b (.named n) span ∧ l.table.Names n name ∧
      (∀ p ∈ d.types.zip ids, p.1.name = name → l.table.step? b = some p.2) ∧
      (l.table.step? b = none ↔ name ∉ d.types.map (·.name))
  types : l.unit.types = ((d.types.zip ids).filter (·.1.isDefinition)).map (·.2)
  vars : List.Forall₂ (fun v x => x.name = v.name ∧
    l.table.SpellsText .dummy v.type x.type) d.vars l.unit.vars
  /-- Nodes come behind those that they hold. -/
  ids_lt : ∀ ty, ∀ c ∈ (l.table.kind ty).ids, c < ty

theorem zip_filter_isDefinition {ds : List (Declaration String)} {ds' : List (Declaration TypeRef)}
    (h : List.Forall₂ (fun d d' => parseBody d.body = .ok d'.body) ds ds') :
    ∀ defs : List (Name × TypeId), ((ds'.zip defs).filter (·.1.isDefinition)).map (·.2.2) =
      ((ds.zip (defs.map (·.2))).filter (·.1.isDefinition)).map (·.2) := by
  induction h with
  | nil => exact fun _ => rfl
  | @cons d d' _ _ hbody _ ih =>
    intro defs
    cases defs with
    | nil => rfl
    | cons p defs =>
      have hdefinition : d'.isDefinition = d.isDefinition := by
        rw [Declaration.isDefinition_eq, Declaration.isDefinition_eq, Declaration.tag?,
          Declaration.tag?, keyword?_of_parseBody hbody, Option.isSome_map, Option.isSome_map]
      rw [List.map_cons, List.zip_cons_cons, List.zip_cons_cons, List.filter_cons,
        List.filter_cons, hdefinition]
      split
      · rw [List.map_cons, List.map_cons, ih]
      · exact ih defs

theorem contents_build (d : Description TypeRef) :
    ∃ defs, TypeTable.Contents ∅ d.types defs d.build.table ∧
    d.build.unit.types = ((d.types.zip defs).filter (·.1.isDefinition)).map (·.2.2) ∧
    List.Forall₂ (fun v x => x.name = v.name ∧
      d.build.table.Spells .dummy v.type x.type) d.vars d.build.unit.vars := by
  obtain ⟨defs, hcontents, hunit⟩ := TypeTable.contents_addDeclarations d.types .empty
  obtain ⟨hrefs, -⟩ := TypeTable.addsRefs_addVariables d.vars hcontents.built
  exact ⟨defs, hcontents.addsRefs hrefs, hunit,
    TypeTable.spells_addVariables d.vars hcontents.built⟩

theorem exists_loads {d : Description String} {l : Loaded} (h : d.load = .ok l) :
    ∃ ids, d.Loads l ids := by
  obtain ⟨d', hparse, rfl⟩ := except_map_eq_ok.mp h
  obtain ⟨types, htypes, hparse⟩ := except_bind_eq_ok.mp hparse
  obtain ⟨vars, hvars, hparse⟩ := except_bind_eq_ok.mp hparse
  cases hparse
  obtain ⟨hnames, -, hnodup⟩ := names_of_parseTypes htypes
  rw [← hnames] at hnodup
  have hparsed := forall₂_of_parseTypes d.types htypes
  obtain ⟨defs, hcontents, hunit, hspells⟩ := contents_build ⟨types, vars⟩
  generalize build ⟨types, vars⟩ = l at hcontents hunit hspells ⊢
  have hsound := hcontents.built.sound
  -- each declaration with its name, which stands for the node
  have hfound : List.Forall₂ (fun x ty => l.table.Holds l.table.SpellsText x ty ∧
      ∃ n, l.table.Names n x.name ∧ l.table.lookup n = some ty) d.types (defs.map (·.2)) := by
    rw [List.forall₂_map_right_iff]
    refine (forall₂_trans hparsed (hcontents.found hnodup)).imp fun x p hx => ?_
    obtain ⟨x', ⟨hname, hspan, hbody⟩, hlookup, hn, hholds⟩ := hx
    exact ⟨hholds.of_parse hname hspan hbody, p.1, hname ▸ hn, hlookup⟩
  refine ⟨defs.map (·.2), ?_, ?_, ?_, ?_, ?_, hsound.ids_lt⟩
  · refine hfound.imp fun x ty hx => ?_
    obtain ⟨hholds, n, hn, hlookup⟩ := hx
    exact ⟨hholds, (hn.lookupSpelling hsound).trans hlookup⟩
  · intro name
    -- the name may have to be made first
    have hnamed := hcontents.addsRefs (TypeTable.addsRefs_intern hcontents.built name)
    rw [← hnames]
    exact hnamed.lookup_eq_none_iff (TypeTable.names_intern l.table name)
  · rintro span text name ty ⟨ref, href, hty⟩ hmentions
    obtain ⟨b, hb, hbase⟩ := hty.base
    rw [TypeRef.base_of_mentions hmentions href] at hbase
    cases hbase with
    | @named _ n _ hnode hn =>
      refine ⟨b, n, hb, hnode, hn, ?_, ?_⟩
      · rintro ⟨x, target⟩ hx rfl
        obtain ⟨-, m, hm, hlookup⟩ := List.forall₂_zip hfound hx
        rw [hnode.step?, hn.unique hsound hm, hlookup]
      · rw [hnode.step?, hcontents.lookup_eq_none_iff hn, hnames]
  · rw [hunit]
    exact zip_filter_isDefinition (hparsed.imp fun _ _ hx => hx.2.2) defs
  · refine (forall₂_trans (forall₂_of_parseVars hvars) hspells).imp fun v x hx => ?_
    obtain ⟨v', ⟨hname, href⟩, hxname, hx⟩ := hx
    exact ⟨hxname.trans hname, v'.type, href, hx⟩

/-- **Loading fails with the first fault, or loads exactly what is declared.**  The faults are those
of each type in turn, first of its references, then of its name, then those of the variables; there
are none exactly if all references can be read and no name is declared twice. -/
theorem load_outcome (d : Description String) :
    (∀ e, d.load = .error e ↔ d.faults.head? = some e) ∧
    ((∃ e, d.load = .error e) ↔
      (∃ text ∈ d.refs, ∀ ref, TypeRef.parse text ≠ .ok ref) ∨ ¬ (d.types.map (·.name)).Nodup) ∧
    ∀ l, d.load = .ok l → ∃ ids, d.Loads l ids := by
  refine ⟨stops_load d, ?_, fun l => exists_loads⟩
  have hfails : (∃ e, d.load = .error e) ↔ ¬ ∃ l, d.load = .ok l := by
    cases d.load <;> simp
  rw [hfails, (stops_load d).exists_ok_iff, faults_eq_nil_iff]
  simp only [not_and_or, not_forall, not_exists, exists_prop]

/-- Two declarations of one name, the second with a field whose type cannot be read. -/
def repeated : Description String :=
  ⟨[⟨"a", .dummy, .enum []⟩, ⟨"a", .dummy, .header [⟨"x", "bit<", .dummy⟩]⟩], []⟩

/-- The reference is read before the name is looked at; and a description
without faults is loaded. -/
theorem load_outcome_repeated : repeated.load = .error (.malformedType "bit<") ∧
    ∃ ids, forward.Loads forwardLoaded ids := by
  obtain ⟨hfirst, -, -⟩ := load_outcome repeated
  obtain ⟨-, -, hloads⟩ := load_outcome forward
  exact ⟨(hfirst _).mpr (by decide +kernel), hloads forwardLoaded load_forward⟩

end Description

end WireTypes
