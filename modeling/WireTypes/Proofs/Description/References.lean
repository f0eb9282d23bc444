import WireTypes.Proofs.CUnit.Program
import WireTypes.Proofs.Description.Loading

/-!
# Named types and their uses

A C text names structs, unions and enums by their tags; it is right only if each tag is defined,
once, as what its users took it for.  The types of a description are lowered anew wherever they are
used, so this is to be proved.

* `Represents`: the C types of a description, and what holds of their parts;
* `lower_references`: a description that is lowered without errors has such C types, and its code is
  their text.
-/

namespace WireTypes

section

variable {α β γ : Type}

theorem exists_mem_of_forall₂ {R : α → β → Prop} {as : List α} {bs : List β}
    (h : List.Forall₂ R as bs) : ∀ a ∈ as, ∃ b ∈ bs, R a b := by
  induction h with
  | nil => exact List.forall_mem_nil _
  | @cons a b as bs hab _ ih =>
    intro x hx
    rcases List.mem_cons.mp hx with rfl | hx
    · exact ⟨b, List.mem_cons_self, hab⟩
    · obtain ⟨y, hy, hxy⟩ := ih x hx
      exact ⟨y, List.mem_cons_of_mem b hy, hxy⟩

theorem forall₂_trans {R : α → β → Prop} {S : β → γ → Prop} {as : List α} {bs : List β}
    (h : List.Forall₂ R as bs) :
    ∀ {cs : List γ}, List.Forall₂ S bs cs → List.Forall₂ (fun a c => ∃ b, R a b ∧ S b c) as cs := by
  induction h with
  | nil =>
    intro cs h
    cases h
    exact .nil
  | cons hab _ ih =>
    intro cs h
    cases h with
    | cons hbc h => exact .cons ⟨_, hab, hbc⟩ (ih h)

end

theorem CProgram.tags_ofTypes {style : Style} {tags : List Tag} {types : List CType}
    {vars : List (String × CType)} (h : List.Forall₂ (fun tag c => c.tag? = some tag) tags types) :
    (ofTypes style types vars).definitions.map (·.tag?) = tags.map some := by
  unfold ofTypes
  induction h with
  | nil => rfl
  | @cons tag c _ _ htag _ ih =>
    obtain ⟨d, hd, hdtag⟩ := Option.bind_eq_some_iff.mp ((c.tag?_definition? style).trans htag)
    rw [List.filterMap_cons, hd]
    exact congrArg₂ List.cons hdtag ih

/-- The name is declared, and what is declared becomes `c` without a report. -/
def TypeTable.DeclaredAs (t : TypeTable) (name : String) (c : CType) : Prop :=
  ∃ ty, (t.lookupSpelling name).1 = some ty ∧ ∀ q, t.create ty q = (.ok c, q)

theorem TypeTable.create_of_lower {t : TypeTable} {ty : TypeId} {c : CType}
    (h : t.lower [] ty = .ok c) (q : Queue) : t.create ty q = (.ok c, q) := by
  unfold create
  rw [h]
  rfl

namespace Description

/-- The C types of a description: one for each header, struct, union and enum, and
one for each variable. -/
structure Represents (d : Description String) (l : Loaded) (types : List CType)
    (vars : List (String × CType)) :
    Prop where
  /-- No name is declared twice. -/
  nodup : (d.types.map (·.name)).Nodup
  /-- In order, each tag that is declared has the type that is declared under its name. -/
  defined : List.Forall₂ (fun tag c => c.tag? = some tag ∧ l.table.DeclaredAs tag.name c)
    (d.types.filterMap (·.tag?)) types
  /-- These are the types of the unit. -/
  created : List.Forall₂ (fun ty c => ∀ q, l.table.create ty q = (.ok c, q)) l.unit.types types
  names : vars.map (·.1) = d.vars.map (·.name)
  declared : List.Forall₂ (fun v x => x.1 = v.name ∧
    ∀ q, l.table.create v.type q = (.ok x.2, q)) l.unit.vars vars
  /-- Every part with a tag, at any depth, is the type that is declared under its name. -/
  parts : ∀ c ∈ types ++ vars.map (·.2), ∀ e tag, e.OccursIn c → e.tag? = some tag →
    e ∈ types ∧ tag ∈ d.types.filterMap (·.tag?) ∧ l.table.DeclaredAs tag.name e

/-- Each tag that is declared is defined, in order. -/
theorem Represents.tags_definitions {d : Description String} {l : Loaded} {types : List CType}
    {vars : List (String × CType)} (h : d.Represents l types vars) (style : Style) :
    (CProgram.ofTypes style types vars).definitions.map (·.tag?) =
      (d.types.filterMap (·.tag?)).map some :=
  CProgram.tags_ofTypes (h.defined.imp fun _ _ h => h.1)

theorem represents_of_lower {d : Description String} {l : Loaded} (hd : d.Declares l)
    {types : List CType} {vars : List (String × CType)}
    (htypes : List.Forall₂ (fun ty c => l.table.lower [] ty = .ok c) l.unit.types types)
    (hvars : List.Forall₂ (fun v x => x.1 = v.name ∧ l.table.lower [] v.type = .ok x.2)
      l.unit.vars vars) :
    d.Represents l types vars := by
  have hsound := hd.built.sound
  have hdeclared : ∀ {tag : Tag} {ty : TypeId} {c : CType}, l.table.Tagged tag ty →
      l.table.lower [] ty = .ok c →
      c.tag? = some tag ∧ l.table.DeclaredAs tag.name c := by
    intro tag ty c htag hc
    have hresult : (l.table.lower [] ty).result = .ok c := by
      rw [hc]
      rfl
    refine ⟨((hsound.lowers [] ty).tag? hresult).trans htag.1, ty, htag.lookupSpelling hsound, ?_⟩
    exact TypeTable.create_of_lower hc
  have hflip : List.Forall₂
      (fun ty tag => l.table.Tagged tag ty) l.unit.types (d.types.filterMap (·.tag?)) :=
    hd.tagged.flip
  refine ⟨hd.nodup, ?_, htypes.imp fun _ _ => TypeTable.create_of_lower, ?_, ?_, ?_⟩
  · refine (forall₂_trans hd.tagged htypes).imp fun tag c h => ?_
    obtain ⟨ty, htag, hc⟩ := h
    exact hdeclared htag hc
  · rw [map_eq_of_forall₂ (hvars.imp fun _ _ h => h.1), hd.vars]
  · exact hvars.imp fun v x h => ⟨h.1, TypeTable.create_of_lower h.2⟩
  · intro c hc e tag he htag
    have hlower : ∃ ty, l.table.lower [] ty = .ok c := by
      rcases List.mem_append.mp hc with hc | hc
      · obtain ⟨ty, -, h⟩ := exists_mem_of_forall₂ htypes.flip c hc
        exact ⟨ty, h⟩
      · obtain ⟨x, hx, rfl⟩ := List.mem_map.mp hc
        obtain ⟨v, -, -, h⟩ := exists_mem_of_forall₂ hvars.flip x hx
        exact ⟨v.type, h⟩
    obtain ⟨ty, hty⟩ := hlower
    -- the part is what a node with its tag becomes, and all such nodes are declared
    obtain ⟨a, ha, hatag⟩ := hsound.lower_of_occursIn hty he htag
    have hmem := hd.mem_types a tag hatag
    obtain ⟨e', he', hlower⟩ := exists_mem_of_forall₂ htypes a hmem
    obtain ⟨tag', htag', htagged⟩ := exists_mem_of_forall₂ hflip a hmem
    obtain rfl : tag' = tag := Option.some.inj (htagged.1.symm.trans hatag)
    have hee : e' = e := by
      rw [ha] at hlower
      exact (Except.ok.inj (congrArg Lowered.result hlower)).symm
    exact ⟨hee ▸ he', htag', (hdeclared htagged ha).2⟩

theorem exists_represents {d : Description String} {l : Loaded} (h : d.load = .ok l) {style : Style}
    {config : QueueConfig} (hs : (l.unit.lower l.table style config).success = true) :
    ∃ (types : List CType) (vars : List (String × CType)), d.Represents l types vars ∧
      (l.unit.lower l.table style config).code =
        (CProgram.ofTypes style types vars).text style := by
  have hd := declares_of_load h
  obtain ⟨types, vars, htypes, hvars, hcode⟩ := CUnit.lower_program hd.built hs
  exact ⟨types, vars, represents_of_lower hd htypes hvars, hcode⟩

/-- **Every tag that is used is defined, and as its users take it.**  A description that is
lowered without errors gives one definition for each header, struct, header union and enum that
it declares, in order and with different names.  Every such type that is a part of another one
or of a variable, through aliases, members and stacks, is the type that is declared under its
name and defined in the code. -/
theorem lower_references {d : Description String} {l : Loaded} (h : d.load = .ok l) {style : Style}
    {config : QueueConfig} (hs : (l.unit.lower l.table style config).success = true) :
    ∃ (types : List CType) (vars : List (String × CType)), d.Represents l types vars ∧
      (CProgram.ofTypes style types vars).definitions.map (·.tag?) =
        (d.types.filterMap (·.tag?)).map some ∧
      (l.unit.lower l.table style config).code =
        (CProgram.ofTypes style types vars).text style := by
  obtain ⟨types, vars, hrepresents, hcode⟩ := exists_represents h hs
  exact ⟨types, vars, hrepresents, hrepresents.tags_definitions style, hcode⟩

/-! ## A description -/

/-- A struct that holds a header which is declared behind it. -/
def forward : Description String :=
  ⟨[⟨"s_t", .dummy, .struct [⟨"h", "h_t", .dummy⟩]⟩,
    ⟨"h_t", .dummy, .header [⟨"x", "bit<8>", .dummy⟩]⟩],
    [⟨"v", "s_t"⟩]⟩

def forwardLoaded : Loaded where
  table := {
    interner := ⟨#["", "bool", "bit", "int", "varbit", "data", "valid", "s_t", "h", "h_t", "x"]⟩
    nodes := #[⟨.named ⟨9⟩, .dummy⟩, ⟨.aggregate .struct ⟨7⟩ [⟨⟨8⟩, 0, .dummy⟩], .dummy⟩,
      ⟨.bits 8 false, .dummy⟩, ⟨.header ⟨9⟩ [⟨⟨10⟩, 2, .dummy⟩], .dummy⟩, ⟨.named ⟨7⟩, .dummy⟩]
    definitions := [(⟨9⟩, 3), (⟨7⟩, 1)] }
  unit := ⟨[1, 3], [⟨"v", 4⟩]⟩

/-- The header and the struct in C. -/
def forwardHeader : CType := .header "h_t" 8 .dummy

def forwardStruct : CType :=
  .aggregate .struct "s_t" .dummy [(⟨"h", "h_t", none⟩, .named "h_t" .dummy forwardHeader)] false

theorem load_forward : forward.load = .ok forwardLoaded := by
  let d : Description TypeRef := ⟨[⟨"s_t", .dummy, .struct [⟨"h", .named "h_t", .dummy⟩]⟩,
    ⟨"h_t", .dummy, .header [⟨"x", .bits 8 false, .dummy⟩]⟩], [⟨"v", .named "s_t"⟩]⟩
  have hparse : forward.parse = .ok d := by decide +kernel
  have hnames : (build d).table.interner.spellings = forwardLoaded.table.interner.spellings := by
    decide +kernel
  have hnodes : (build d).table.nodes = forwardLoaded.table.nodes := by decide +kernel
  have hdefinitions : (build d).table.definitions = forwardLoaded.table.definitions := by
    decide +kernel
  have hunit : (build d).unit = forwardLoaded.unit := by decide +kernel
  unfold load
  rw [hparse]
  show Except.ok (build d) = .ok forwardLoaded
  generalize build d = l at hnames hnodes hdefinitions hunit
  obtain ⟨⟨⟨names⟩, nodes, definitions⟩, u⟩ := l
  cases hnames
  cases hnodes
  cases hdefinitions
  cases hunit
  rfl

theorem sound_forward : forwardLoaded.table.Sound := (declares_of_load load_forward).built.sound

theorem lower_forwardHeader (path : List Name) :
    forwardLoaded.table.lower path 3 = .ok forwardHeader := by
  rw [TypeTable.lower]
  rfl

theorem lower_forwardStruct {path : List Name} (hpath : ⟨9⟩ ∉ path) :
    forwardLoaded.table.lower path 1 = .ok forwardStruct := by
  have hk : forwardLoaded.table.kind 1 = .aggregate .struct ⟨7⟩ [⟨⟨8⟩, 0, .dummy⟩] := rfl
  have hmember : forwardLoaded.table.member ⟨⟨8⟩, 0, .dummy⟩ = ⟨"h", "h_t", none⟩ := by
    decide +kernel
  have hfield : forwardLoaded.table.lower path 0 = .rename "h_t" .dummy (.ok forwardHeader) := by
    rw [TypeTable.lower_declared rfl hpath rfl, lower_forwardHeader]
    rfl
  rw [sound_forward.lower_aggregate hk, List.map_cons, List.map_nil, hfield]
  unfold TypeTable.assemble TypeTable.lowerFields
  rw [hmember]
  rfl

theorem lower_forwardVar :
    forwardLoaded.table.lower [] 4 = .ok (.named "s_t" .dummy forwardStruct) := by
  rw [TypeTable.lower_declared rfl List.not_mem_nil rfl, lower_forwardStruct (by decide)]
  rfl

theorem success_forward (config : QueueConfig) :
    (forwardLoaded.unit.lower forwardLoaded.table .minimal config).success = true := by
  rw [CUnit.success_iff (declares_of_load load_forward).built]
  intro item hitem
  have hitems : item ∈ [CUnit.Item.definition 1, .definition 3, .declaration ⟨"v", 4⟩] := hitem
  simp only [List.mem_cons, List.not_mem_nil, or_false] at hitems
  rcases hitems with rfl | rfl | rfl
  · exact CUnit.Item.reports_eq_nil (lower_forwardStruct List.not_mem_nil) rfl
  · exact CUnit.Item.reports_eq_nil (lower_forwardHeader []) rfl
  · exact CUnit.Item.reports_eq_nil lower_forwardVar rfl

/-- The header is what the struct takes it for, although it is declared later. -/
theorem lower_references_forward : forward.load = .ok forwardLoaded ∧
    (forwardLoaded.unit.lower forwardLoaded.table .minimal .standard).success = true ∧
    ∃ types vars, forward.Represents forwardLoaded types vars ∧ forwardHeader ∈ types := by
  refine ⟨load_forward, success_forward .standard, ?_⟩
  obtain ⟨types, vars, hrepresents, -, -⟩ :=
    lower_references load_forward (success_forward .standard)
  have hstruct : forwardStruct ∈ types := by
    obtain ⟨c, hc, hcreate⟩ := exists_mem_of_forall₂ hrepresents.created 1 (by decide +kernel)
    have hlower := TypeTable.create_of_lower (lower_forwardStruct List.not_mem_nil) default
    rw [hcreate default] at hlower
    exact Except.ok.inj (Prod.mk.inj hlower).1 ▸ hc
  have hpart : forwardHeader.OccursIn forwardStruct := .member List.mem_cons_self (.canonical .here)
  obtain ⟨hheader, -, -⟩ :=
    hrepresents.parts _ (List.mem_append_left _ hstruct) _ ⟨"struct", "h_t"⟩ hpart rfl
  exact ⟨types, vars, hrepresents, hheader⟩

end Description

end WireTypes
