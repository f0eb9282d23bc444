import WireTypes.Description.Load
import WireTypes.Proofs.TypeTable.Extension

/-!
# What a description declares

Loading adds one declaration after the other to a table.  Each of them makes at most one node with a
tag, and that node is found under the name of the declaration (`Adds`); everything else that comes
in are references.

* `adds_addDeclaration`: what one declaration does to a table;
* `addDeclarations_declares`: what all of them do, if no name is declared twice;
* `declares_of_load`: so the tags of a loaded table are those that are declared, each with one node.
-/

namespace WireTypes

variable {ρ : Type}

/-- The keyword of the tag that a declaration makes, if it makes one. -/
def DeclBody.keyword? : DeclBody ρ → Option String
  | .typedef _ => none
  | .header _ | .struct _ => some "struct"
  | .headerUnion _ => some "union"
  | .enum _ => some "enum"

def Declaration.tag? (d : Declaration ρ) : Option Tag := d.body.keyword?.map (⟨·, d.name⟩)

theorem Declaration.name_of_tag? {d : Declaration ρ} {tag : Tag} (h : d.tag? = some tag) :
    tag.name = d.name := by
  obtain ⟨keyword, -, rfl⟩ := Option.map_eq_some_iff.mp h
  rfl

theorem Declaration.isDefinition_eq (d : Declaration ρ) : d.isDefinition = d.tag?.isSome := by
  unfold isDefinition tag?
  cases d.body <;> rfl

namespace TypeTable

/-! ## Fields and variables -/

theorem addsRefs_addFields (fields : List (FieldDecl TypeRef)) : ∀ {t : TypeTable}, t.Built →
    t.AddsRefs (t.addFields fields).2 ∧
      ∀ f ∈ (t.addFields fields).1, f.type < (t.addFields fields).2.size ∧
        (t.addFields fields).2.Knows f.name := by
  induction fields with
  | nil => intro t ht; exact ⟨.refl ht, List.forall_mem_nil _⟩
  | cons f rest ih =>
    intro t ht
    have hname := addsRefs_intern ht f.name
    obtain ⟨htype, -, hlt⟩ := addsRefs_allocRef f.span f.type hname.built
    obtain ⟨hrest, hfields⟩ := ih htype.built
    refine ⟨(hname.trans htype).trans hrest, ?_⟩
    intro g hg
    rcases List.mem_cons.mp hg with rfl | hg
    · refine ⟨Nat.lt_of_lt_of_le hlt hrest.grows.size_le, ?_⟩
      exact (htype.trans hrest).grows.knows (knows_intern t f.name)
    · exact hfields g hg

theorem addsRefs_addVariables (vars : List (VariableDecl TypeRef)) : ∀ {t : TypeTable}, t.Built →
    t.AddsRefs (t.addVariables vars).2 ∧
      (t.addVariables vars).1.map (·.name) = vars.map (·.name) := by
  induction vars with
  | nil => intro t ht; exact ⟨.refl ht, rfl⟩
  | cons v rest ih =>
    intro t ht
    obtain ⟨htype, -⟩ := addsRefs_allocRef .dummy v.type ht
    obtain ⟨hrest, hnames⟩ := ih htype.built
    exact ⟨htype.trans hrest, congrArg (v.name :: ·) hnames⟩

/-! ## One declaration -/

/-- From `t` to `u` the declaration `d` came in, as the node `ty`. -/
structure Adds (t : TypeTable) (d : Declaration TypeRef) (ty : TypeId) (u : TypeTable) : Prop where
  built : u.Built
  grows : t.Extends u
  size_le : t.size ≤ ty
  lt_size : ty < u.size
  declared : ∃ n, u.Knows n ∧ u.spelling n = d.name ∧ u.definitions = (n, ty) :: t.definitions
  tags : ∀ a, t.size ≤ a → u.tag? a = if a = ty then d.tag? else none

/-- A node for a declaration, behind what it refers to. -/
theorem AddsRefs.declare {t u : TypeTable} (h : t.AddsRefs u) {d : Declaration TypeRef}
    {n : Name} {kind : Kind} (hn : u.Knows n) (hname : u.spelling n = d.name)
    (hids : ∀ c ∈ kind.ids, c < u.size) (hnames : ∀ m ∈ kind.names, u.Knows m)
    (htag : kind.name? = some n) (hkeyword : kind.keyword? = d.body.keyword?) :
    t.Adds d (u.declare n kind d.span).1 (u.declare n kind d.span).2 := by
  have hlt : u.size < (u.alloc kind d.span).2.size := by
    rw [size_alloc]
    exact Nat.lt_succ_self u.size
  have hgrows := extends_declare u n kind d.span
  have hspelling : (u.declare n kind d.span).2.spelling n = d.name :=
    (hgrows.spelling hn).trans hname
  refine ⟨?_, h.grows.trans hgrows, h.grows.size_le, hlt, ⟨n, hgrows.knows hn, hspelling, ?_⟩, ?_⟩
  · exact .grow (.grow h.built (.alloc kind d.span) ⟨hids, hnames⟩) (.define n u.size) ⟨hn, hlt⟩
  · show (n, u.size) :: u.definitions = _
    rw [h.definitions]
    rfl
  · intro a ha
    have hkind : (u.declare n kind d.span).2.kind a = if a = u.size then kind else u.kind a :=
      kind_alloc u kind d.span a
    show (u.declare n kind d.span).2.tag? a = if a = u.size then d.tag? else none
    split
    · next heq =>
      rw [if_pos heq] at hkind
      unfold TypeTable.tag? Declaration.tag?
      rw [hkind, htag, hkeyword]
      simp only [Option.map_some, hspelling]
      rw [Option.map_eq_bind]
      rfl
    · next hne =>
      rw [if_neg hne] at hkind
      rw [tag?_eq_none_iff, hkind]
      exact h.untagged a ha

theorem adds_addRecord {t : TypeTable} (ht : t.Built) {d : Declaration TypeRef}
    (fields : List (FieldDecl TypeRef)) {kind : Name → List Field → Kind}
    (hids : ∀ n fs, (kind n fs).ids = fs.map (·.type))
    (hnames : ∀ n fs, (kind n fs).names = n :: fs.map (·.name))
    (htag : ∀ n fs, (kind n fs).name? = some n)
    (hkeyword : ∀ n fs, (kind n fs).keyword? = d.body.keyword?) :
    t.Adds d (t.addRecord d.name d.span fields kind).1
      (t.addRecord d.name d.span fields kind).2 := by
  have hname := addsRefs_intern ht d.name
  obtain ⟨hfields, hknown⟩ := addsRefs_addFields fields hname.built
  have hn := hfields.grows.knows (knows_intern t d.name)
  have hspelling :=
    (hfields.grows.spelling (knows_intern t d.name)).trans (spelling_intern t d.name)
  refine (hname.trans hfields).declare hn hspelling ?_ ?_ (htag _ _) (hkeyword _ _)
  · intro c hc
    rw [hids, List.mem_map] at hc
    obtain ⟨f, hf, rfl⟩ := hc
    exact (hknown f hf).1
  · intro m hm
    rw [hnames] at hm
    rcases List.mem_cons.mp hm with rfl | hm
    · exact hn
    · obtain ⟨f, hf, rfl⟩ := List.mem_map.mp hm
      exact (hknown f hf).2

/-- What a declaration does to a table. -/
theorem adds_addDeclaration {t : TypeTable} (ht : t.Built) (d : Declaration TypeRef) :
    t.Adds d (t.addDeclaration d).1 (t.addDeclaration d).2 := by
  obtain ⟨name, span, body⟩ := d
  cases body with
  | typedef target =>
    obtain ⟨htarget, hle, hlt⟩ := addsRefs_allocRef span target ht
    have hname := addsRefs_intern htarget.built name
    have hn := knows_intern (t.allocRef span target).2 name
    have hdefinitions : (t.addDeclaration ⟨name, span, .typedef target⟩).2.definitions =
        (((t.allocRef span target).2.intern name).1, (t.allocRef span target).1) :: t.definitions :=
      congrArg _ htarget.definitions
    refine ⟨?_, (htarget.trans hname).grows.trans (extends_define _ _ _), hle, hlt, ?_, ?_⟩
    · exact .grow htarget.built (.declareTypedef name _) hlt
    · exact ⟨_, hn, spelling_intern _ name, hdefinitions⟩
    · intro a ha
      -- a reference has no tag, whether or not it is the one declared
      have hnone := tag?_eq_none_iff.mpr ((htarget.trans hname).untagged a ha)
      show TypeTable.tag? ((t.allocRef span target).2.intern name).2 a = _
      rw [hnone]
      split <;> rfl
  | header fields =>
    exact adds_addRecord ht fields (fun _ _ => rfl) (fun _ _ => rfl) (fun _ _ => rfl) fun _ _ => rfl
  | struct fields =>
    exact adds_addRecord ht fields (fun _ _ => rfl) (fun _ _ => rfl) (fun _ _ => rfl) fun _ _ => rfl
  | headerUnion fields =>
    exact adds_addRecord ht fields (fun _ _ => rfl) (fun _ _ => rfl) (fun _ _ => rfl) fun _ _ => rfl
  | enum members =>
    have hname := addsRefs_intern ht name
    have hmembers := addsRefs_internAll members hname.built
    have hn := hmembers.grows.knows (knows_intern t name)
    have hspelling := (hmembers.grows.spelling (knows_intern t name)).trans (spelling_intern t name)
    refine (hname.trans hmembers).declare hn hspelling (List.forall_mem_nil _) ?_ rfl rfl
    intro m hm
    rcases List.mem_cons.mp hm with rfl | hm
    · exact hn
    · exact Interner.index_internAll_lt members _ m hm

theorem Adds.lookup {t u : TypeTable} {d : Declaration TypeRef} {ty : TypeId}
    (h : t.Adds d ty u) {n : Name} (hn : u.Knows n) : u.lookup n =
      if u.spelling n = d.name then some ty else t.lookup n := by
  obtain ⟨m, hm, hspelling, hdefinitions⟩ := h.declared
  have hiff : u.spelling n = d.name ↔ n = m := by
    rw [← hspelling]
    exact ⟨Interner.spelling_inj h.built.sound.distinct hn hm, congrArg u.spelling⟩
  simp only [hiff]
  unfold TypeTable.lookup
  rw [hdefinitions]
  exact lookup_define t m n ty

/-! ## All declarations -/

/-- The tag belongs to a node, which is declared under its name. -/
def Tagged (t : TypeTable) (tag : Tag) (ty : TypeId) : Prop :=
  t.tag? ty = some tag ∧ ∃ n, t.Knows n ∧ t.spelling n = tag.name ∧ t.lookup n = some ty

theorem Tagged.lookupSpelling {t : TypeTable} {tag : Tag} {ty : TypeId} (h : t.Tagged tag ty)
    (ht : t.Sound) : (t.lookupSpelling tag.name).1 = some ty := by
  obtain ⟨-, n, hn, hspelling, hlookup⟩ := h
  rw [← hspelling, lookupSpelling_spelling ht hn, hlookup]

/-- From `t` to `u` the declarations `ds` came in; `types` are their nodes with tags. -/
structure Declares (t : TypeTable) (ds : List (Declaration TypeRef)) (types : List TypeId)
    (u : TypeTable) :
    Prop where
  built : u.Built
  grows : t.Extends u
  tagged : List.Forall₂ u.Tagged (ds.filterMap (·.tag?)) types
  mem_types : ∀ a tag, t.size ≤ a → u.tag? a = some tag → a ∈ types
  lookup : ∀ n, t.Knows n → t.spelling n ∉ ds.map (·.name) → u.lookup n = t.lookup n

theorem Declares.cons {t v u : TypeTable} {d : Declaration TypeRef} {ty : TypeId}
    {ds : List (Declaration TypeRef)} {types : List TypeId} (hd : t.Adds d ty v)
    (h : v.Declares ds types u) (hfresh : d.name ∉ ds.map (·.name)) :
    t.Declares (d :: ds) (if d.isDefinition then ty :: types else types) u := by
  have htag : ∀ a, t.size ≤ a → a < v.size → u.tag? a = if a = ty then d.tag? else none := by
    intro a ha hlt
    rw [h.grows.tag? hd.built.sound hlt, hd.tags a ha]
  refine ⟨h.built, hd.grows.trans h.grows, ?_, ?_, ?_⟩
  · rw [d.isDefinition_eq, List.filterMap_cons]
    cases hdtag : d.tag? with
    | none => exact h.tagged
    | some tag =>
      refine .cons ⟨?_, ?_⟩ h.tagged
      · rw [htag ty hd.size_le hd.lt_size, if_pos rfl, hdtag]
      · -- no later declaration takes the name
        obtain ⟨n, hn, hspelling, -⟩ := hd.declared
        refine ⟨n, h.grows.knows hn, ?_, ?_⟩
        · rw [h.grows.spelling hn, hspelling, Declaration.name_of_tag? hdtag]
        · rw [h.lookup n hn (by rw [hspelling]; exact hfresh), hd.lookup hn, if_pos hspelling]
  · intro a tag ha hatag
    rcases Nat.lt_or_ge a v.size with hlt | hge
    · rw [htag a ha hlt] at hatag
      split at hatag
      · next heq =>
        rw [d.isDefinition_eq, hatag, heq]
        exact List.mem_cons_self
      · cases hatag
    · have hmem := h.mem_types a tag hge hatag
      split
      · exact List.mem_cons_of_mem ty hmem
      · exact hmem
  · intro n hn hnot
    rw [List.map_cons, List.mem_cons, not_or] at hnot
    have hspelling := hd.grows.spelling hn
    have hrest := h.lookup n (hd.grows.knows hn) (by rw [hspelling]; exact hnot.2)
    rw [hrest, hd.lookup (hd.grows.knows hn), hspelling, if_neg hnot.1]

theorem addDeclarations_declares (ds : List (Declaration TypeRef)) : ∀ {t : TypeTable}, t.Built →
    (ds.map (·.name)).Nodup → t.Declares ds (t.addDeclarations ds).1 (t.addDeclarations ds).2 := by
  induction ds with
  | nil =>
    intro t ht _
    refine ⟨ht, .refl t, .nil, ?_, fun _ _ _ => rfl⟩
    intro a tag ha htag
    exact absurd (lt_size_of_tag? htag) (Nat.not_lt_of_le ha)
  | cons d ds ih =>
    intro t ht hnodup
    obtain ⟨hfresh, hrest⟩ := List.nodup_cons.mp hnodup
    have hd := adds_addDeclaration ht d
    exact .cons hd (ih hd.built hrest) hfresh

/-- References leave declarations alone. -/
theorem Declares.addsRefs {t u v : TypeTable} {ds : List (Declaration TypeRef)}
    {types : List TypeId} (h : t.Declares ds types u) (hv : u.AddsRefs v) :
    t.Declares ds types v := by
  have htag : ∀ a < u.size, v.tag? a = u.tag? a := fun a ha => hv.grows.tag? h.built.sound ha
  refine ⟨hv.built, h.grows.trans hv.grows, ?_, ?_, ?_⟩
  · refine h.tagged.imp fun tag ty hty => ?_
    obtain ⟨hdtag, n, hn, hspelling, hlookup⟩ := hty
    refine ⟨(htag ty (lt_size_of_tag? hdtag)).trans hdtag, n, hv.grows.knows hn, ?_, ?_⟩
    · rw [hv.grows.spelling hn, hspelling]
    · rw [hv.lookup, hlookup]
  · intro a tag ha hatag
    rcases Nat.lt_or_ge a u.size with hlt | hge
    · exact h.mem_types a tag ha ((htag a hlt).symm.trans hatag)
    · rw [tag?_eq_none_iff.mpr (hv.untagged a hge)] at hatag
      cases hatag
  · intro n hn hnot
    rw [hv.lookup, h.lookup n hn hnot]

end TypeTable

/-! ## Descriptions -/

section

variable {ε α β : Type}

theorem except_bind_eq_ok {x : Except ε α} {f : α → Except ε β} {b : β} :
    x >>= f = .ok b ↔ ∃ a, x = .ok a ∧ f a = .ok b := by
  cases x <;> simp [bind, Except.bind]

theorem except_map_eq_ok {f : α → β} {x : Except ε α} {b : β} :
    f <$> x = .ok b ↔ ∃ a, x = .ok a ∧ b = f a := by
  cases x <;> simp [Functor.map, Except.map, eq_comm]

theorem map_eq_of_forall₂ {γ : Type} {f : α → γ} {g : β → γ} {as : List α} {bs : List β}
    (h : List.Forall₂ (fun a b => g b = f a) as bs) : bs.map g = as.map f := by
  induction h with
  | nil => rfl
  | cons hab _ ih => exact congrArg₂ List.cons hab ih

theorem forall₂_of_mapM {f : α → Except ε β} {as : List α} : ∀ {bs : List β}, as.mapM f = .ok bs →
    List.Forall₂ (fun a b => f a = .ok b) as bs := by
  induction as with
  | nil =>
    intro bs h
    cases h
    exact .nil
  | cons a as ih =>
    intro bs h
    rw [List.mapM_cons] at h
    obtain ⟨b, hb, h⟩ := except_bind_eq_ok.mp h
    obtain ⟨bs, hbs, h⟩ := except_bind_eq_ok.mp h
    cases h
    exact .cons hb (ih hbs)

end

namespace Description

theorem keyword?_of_parseBody {body : DeclBody String} {body' : DeclBody TypeRef}
    (h : parseBody body = .ok body') : body'.keyword? = body.keyword? := by
  cases body with
  | enum members =>
    cases h
    rfl
  | typedef target | header fields | struct fields | headerUnion fields =>
    obtain ⟨refs, -, rfl⟩ := except_map_eq_ok.mp h
    rfl

theorem parseTypes_cons {seen : List String} {d : Declaration String}
    {rest : List (Declaration String)} {ds' : List (Declaration TypeRef)}
    (h : parseTypes seen (d :: rest) = .ok ds') :
    ∃ body rest', parseBody d.body = .ok body ∧ d.name ∉ seen ∧
      parseTypes (d.name :: seen) rest = .ok rest' ∧
      ds' = ⟨d.name, d.span, body⟩ :: rest' := by
  obtain ⟨body, hbody, h⟩ := except_bind_eq_ok.mp h
  split at h
  · cases h
  · next hseen =>
    obtain ⟨rest', hrest, h⟩ := except_bind_eq_ok.mp h
    cases h
    exact ⟨body, rest', hbody, hseen, hrest, rfl⟩

theorem forall₂_of_parseTypes (ds : List (Declaration String)) : ∀ {seen : List String}
    {ds' : List (Declaration TypeRef)}, parseTypes seen ds = .ok ds' →
    List.Forall₂ (fun d d' => d'.name = d.name ∧ d'.span = d.span ∧
      parseBody d.body = .ok d'.body) ds ds' := by
  induction ds with
  | nil =>
    intro seen ds' h
    cases h
    exact .nil
  | cons d rest ih =>
    intro seen ds' h
    obtain ⟨body, rest', hbody, -, hrest, rfl⟩ := parseTypes_cons h
    exact .cons ⟨rfl, rfl, hbody⟩ (ih hrest)

theorem nodup_of_parseTypes (ds : List (Declaration String)) : ∀ {seen : List String}
    {ds' : List (Declaration TypeRef)}, parseTypes seen ds = .ok ds' →
    (ds.map (·.name)).Nodup ∧ ∀ name ∈ ds.map (·.name), name ∉ seen := by
  induction ds with
  | nil =>
    intro seen ds' h
    exact ⟨.nil, List.forall_mem_nil _⟩
  | cons d rest ih =>
    intro seen ds' h
    obtain ⟨body, rest', -, hseen, hrest, -⟩ := parseTypes_cons h
    obtain ⟨hnodup, hnew⟩ := ih hrest
    refine ⟨List.nodup_cons.mpr ⟨fun hmem => hnew _ hmem List.mem_cons_self, hnodup⟩, ?_⟩
    intro name hmem
    rcases List.mem_cons.mp hmem with rfl | hmem
    · exact hseen
    · exact fun hname => hnew _ hmem (List.mem_cons_of_mem _ hname)

/-- Parsing keeps names and tags, and no name is declared twice. -/
theorem names_of_parseTypes {ds : List (Declaration String)} {ds' : List (Declaration TypeRef)}
    (h : parseTypes [] ds = .ok ds') :
    ds'.map (·.name) = ds.map (·.name) ∧ ds'.map (·.tag?) = ds.map (·.tag?) ∧
      (ds.map (·.name)).Nodup := by
  have hparsed := forall₂_of_parseTypes ds h
  refine ⟨map_eq_of_forall₂ (hparsed.imp fun _ _ hd => hd.1),
    map_eq_of_forall₂ (hparsed.imp fun d d' hd => ?_),
    (nodup_of_parseTypes ds h).1⟩
  unfold Declaration.tag?
  rw [keyword?_of_parseBody hd.2.2, hd.1]

/-- What is found in the table of a description, and what is to be lowered of it. -/
structure Declares (d : Description String) (l : Loaded) : Prop where
  built : l.table.Built
  nodup : (d.types.map (·.name)).Nodup
  tagged : List.Forall₂ l.table.Tagged (d.types.filterMap (·.tag?)) l.unit.types
  mem_types : ∀ a tag, l.table.tag? a = some tag → a ∈ l.unit.types
  vars : l.unit.vars.map (·.name) = d.vars.map (·.name)

theorem parse_of_parseRef {text : String} {ref : TypeRef} (h : parseRef text = .ok ref) :
    TypeRef.parse text = .ok ref := by
  unfold parseRef at h
  cases hparse : TypeRef.parse text with
  | error part =>
    rw [hparse] at h
    cases h
  | ok ref' =>
    rw [hparse] at h
    cases h
    rfl

theorem forall₂_of_parseVars {vars : List (VariableDecl String)}
    {vars' : List (VariableDecl TypeRef)}
    (h : (vars.mapM fun v => do return (⟨v.name, ← parseRef v.type⟩ : VariableDecl TypeRef)) =
      .ok vars') :
    List.Forall₂ (fun v v' => v'.name = v.name ∧
      TypeRef.parse v.type = .ok v'.type) vars vars' := by
  refine (forall₂_of_mapM h).imp fun v v' hv => ?_
  obtain ⟨ref, href, hv⟩ := except_bind_eq_ok.mp hv
  cases hv
  exact ⟨rfl, parse_of_parseRef href⟩

theorem names_of_parseVars {vars : List (VariableDecl String)} {vars' : List (VariableDecl TypeRef)}
    (h : (vars.mapM fun v => do return (⟨v.name, ← parseRef v.type⟩ : VariableDecl TypeRef)) =
      .ok vars') :
    vars'.map (·.name) = vars.map (·.name) :=
  map_eq_of_forall₂ ((forall₂_of_parseVars h).imp fun _ _ hv => hv.1)

theorem declares_of_load {d : Description String} {l : Loaded} (h : d.load = .ok l) :
    d.Declares l := by
  obtain ⟨d', hparse, rfl⟩ := except_map_eq_ok.mp h
  obtain ⟨types, htypes, hparse⟩ := except_bind_eq_ok.mp hparse
  obtain ⟨vars, hvars, hparse⟩ := except_bind_eq_ok.mp hparse
  cases hparse
  obtain ⟨hnames, htags, hnodup⟩ := names_of_parseTypes htypes
  have hdeclares := TypeTable.addDeclarations_declares types .empty (hnames ▸ hnodup)
  obtain ⟨hrefs, hvarnames⟩ := TypeTable.addsRefs_addVariables vars hdeclares.built
  have hall := hdeclares.addsRefs hrefs
  refine ⟨hall.built, hnodup, ?_, ?_, hvarnames.trans (names_of_parseVars hvars)⟩
  · have htagged : d.types.filterMap (·.tag?) = types.filterMap (·.tag?) := by
      have hmap : ∀ {ρ : Type} (ds : List (Declaration ρ)),
          ds.filterMap (·.tag?) = (ds.map (·.tag?)).filterMap id := by
        intro ρ ds
        rw [List.filterMap_map]
        rfl
      rw [hmap, hmap, htags]
    rw [htagged]
    exact hall.tagged
  · intro a tag ha
    exact hall.mem_types a tag (Nat.zero_le a) ha

end Description

end WireTypes
