import Mathlib.Data.List.NodupEquivFin
import WireTypes.Proofs.Description.References

/-!
# The order of definitions

C wants a struct, union or enum to be defined before it is used by value.  A unit keeps the order of
the description, in which a name may be used before it is declared.

* `CProgram.DefinedFirst`: the order that C wants;
* `not_definedFirst`: not every program that is emitted has it;
* `lower_order`: tags come before the variables that use them, and before another definition that
  uses them exactly if they are declared before it.
-/

namespace WireTypes

/-- Every tag that is used by value is defined further up. -/
def CProgram.DefinedFirst (p : CProgram) : Prop :=
  ∀ before x after, p.definitions ++ p.objects = before ++ x :: after →
    ∀ tag ∈ x.uses, ∃ y ∈ before, y.tag? = some tag

/-! ## Uses -/

/-- What a definition uses is a part of its type, and not all of it. -/
theorem CType.occursIn_of_mem_uses {style : Style} {c : CType} {x : CDeclaration}
    (hx : c.definition? style = some x) {tag : Tag} (htag : tag ∈ x.uses) :
    ∃ e : CType, e.OccursIn c ∧ e ≠ c ∧ e.tag? = some tag := by
  cases c with
  | bool | scalar | stack | named => cases hx
  | header name width span | enum name members span =>
    cases hx
    cases htag
  | aggregate form name span members lossy =>
    cases hx
    obtain ⟨member, hmember, hobject⟩ := List.mem_filterMap.mp htag
    obtain ⟨⟨m, c⟩, hm, rfl⟩ := List.mem_map.mp hmember
    obtain ⟨e, he, hetag⟩ := occursIn_of_tag?_object hobject
    refine ⟨e, .member hm he, ?_, hetag⟩
    rintro rfl
    exact not_occursIn_member hm he

theorem CType.occursIn_of_mem_uses_zeroed {style : Style} {c : CType} {id : String} {tag : Tag}
    (htag : tag ∈ (c.zeroed style id).uses) : ∃ e : CType, e.OccursIn c ∧ e.tag? = some tag :=
  occursIn_of_tag?_object (Option.mem_toList.mp htag)

theorem TypeTable.DeclaredAs.unique {t : TypeTable} {name : String} {c c' : CType}
    (h : t.DeclaredAs name c) (h' : t.DeclaredAs name c') : c = c' := by
  obtain ⟨ty, hlookup, hcreate⟩ := h
  obtain ⟨ty', hlookup', hcreate'⟩ := h'
  obtain rfl : ty = ty' := Option.some.inj (hlookup.symm.trans hlookup')
  have hsame := (hcreate default).symm.trans (hcreate' default)
  exact Except.ok.inj (Prod.mk.inj hsame).1

/-! ## Positions -/

namespace Description

variable {ρ : Type}

def DeclaredBefore (d : Description ρ) (a b : String) : Prop :=
  (d.types.map (·.name)).idxOf a < (d.types.map (·.name)).idxOf b

theorem names_sublist (ds : List (Declaration ρ)) :
    ((ds.filterMap (·.tag?)).map (·.name)).Sublist (ds.map (·.name)) := by
  induction ds with
  | nil => exact .slnil
  | cons d rest ih =>
    rw [List.filterMap_cons]
    cases htag : d.tag? with
    | none => exact ih.cons _
    | some tag =>
      rw [List.map_cons, List.map_cons, Declaration.name_of_tag? htag]
      exact ih.cons_cons _

theorem lt_iff_declaredBefore {d : Description ρ} (hd : (d.types.map (·.name)).Nodup)
    {i j : Nat} {a b : Tag} (ha : (d.types.filterMap (·.tag?))[i]? = some a)
    (hb : (d.types.filterMap (·.tag?))[j]? = some b) : i < j ↔ d.DeclaredBefore a.name b.name := by
  obtain ⟨f, hf⟩ := List.sublist_iff_exists_orderEmbedding_getElem?_eq.mp (names_sublist d.types)
  have hposition : ∀ {k : Nat} {tag : Tag}, (d.types.filterMap (·.tag?))[k]? = some tag →
      (d.types.map (·.name)).idxOf tag.name = f k := by
    intro k tag htag
    have hname : (d.types.map (·.name))[f k]? = some tag.name := by
      rw [← hf k, List.getElem?_map, htag]
      rfl
    obtain ⟨hlt, hget⟩ := List.getElem?_eq_some_iff.mp hname
    rw [← hget]
    exact hd.idxOf_getElem (f k) hlt
  unfold DeclaredBefore
  rw [hposition ha, hposition hb]
  exact f.lt_iff_lt.symm

/-- **The order of definitions.**  Definitions stand in the order of their declarations and
before all variables, so a variable only uses tags that are defined before it.  A tag that a
definition uses is defined in another place, and this is further up exactly if the tag is
declared before its user. -/
theorem lower_order {d : Description String} {l : Loaded} (h : d.load = .ok l) {style : Style}
    {config : QueueConfig} (hs : (l.unit.lower l.table style config).success = true) :
    ∃ (types : List CType) (vars : List (String × CType)) (p : CProgram),
      d.Represents l types vars ∧
      p = CProgram.ofTypes style types vars ∧
        (l.unit.lower l.table style config).code = p.text style ∧
      p.definitions.map (·.tag?) = (d.types.filterMap (·.tag?)).map some ∧
      (∀ x ∈ p.objects, ∀ tag ∈ x.uses, ∃ y ∈ p.definitions, y.tag? = some tag) ∧
      ∀ (j : Nat) (x : CDeclaration) (user : Tag), p.definitions[j]? = some x → x.tag? = some user →
        ∀ tag ∈ x.uses, ∃ (i : Nat) (y : CDeclaration), p.definitions[i]? = some y ∧
          y.tag? = some tag ∧ i ≠ j ∧
          (i < j ↔ d.DeclaredBefore tag.name user.name) := by
  obtain ⟨types, vars, hrepresents, hcode⟩ := exists_represents h hs
  have htags := hrepresents.tags_definitions style
  have hplace : ∀ (k : Nat) (tag : Tag), (d.types.filterMap (·.tag?))[k]? = some tag ↔
      ∃ x, (CProgram.ofTypes style types vars).definitions[k]? = some x ∧ x.tag? = some tag := by
    intro k tag
    have hk := congrArg (·[k]?) htags
    simp only [List.getElem?_map] at hk
    rw [← Option.map_eq_some_iff, hk]
    simp
  refine ⟨types, vars, _, hrepresents, rfl, hcode, htags, ?_, ?_⟩
  · intro x hx tag htag
    obtain ⟨v, hv, rfl⟩ := List.mem_map.mp hx
    obtain ⟨e, he, hetag⟩ := CType.occursIn_of_mem_uses_zeroed htag
    have hmem : v.2 ∈ types ++ vars.map (·.2) :=
      List.mem_append_right types (List.mem_map_of_mem hv)
    obtain ⟨-, hdeclared, -⟩ := hrepresents.parts v.2 hmem e tag he hetag
    rw [← List.mem_map, htags]
    exact List.mem_map_of_mem hdeclared
  · intro j x user hx huser tag htag
    obtain ⟨c, hc, hcx⟩ := List.mem_filterMap.mp (List.mem_of_getElem? hx)
    obtain ⟨e, he, hne, hetag⟩ := CType.occursIn_of_mem_uses hcx htag
    obtain ⟨-, hdeclared, hedeclared⟩ :=
      hrepresents.parts c (List.mem_append_left _ hc) e tag he hetag
    -- the two are different types, so their names differ and their places do
    have hother : tag ≠ user := by
      rintro rfl
      have hctag : c.tag? = some tag := by
        rw [← c.tag?_definition? style, hcx, Option.bind_some, huser]
      obtain ⟨-, -, hcdeclared⟩ := hrepresents.parts c (List.mem_append_left _ hc) c tag .here hctag
      exact hne (hedeclared.unique hcdeclared)
    obtain ⟨i, hi⟩ := List.mem_iff_getElem?.mp hdeclared
    obtain ⟨y, hy, hytag⟩ := (hplace i tag).mp hi
    have hj := (hplace j user).mpr ⟨x, hx, huser⟩
    refine ⟨i, y, hy, hytag, ?_, lt_iff_declaredBefore hrepresents.nodup hi hj⟩
    rintro rfl
    exact hother (Option.some.inj (hi.symm.trans hj))

/-- In the description `forward` a struct is declared before the header that it holds, so its
definition comes first. -/
theorem lower_order_forward : forward.load = .ok forwardLoaded ∧
    (forwardLoaded.unit.lower forwardLoaded.table .minimal .standard).success = true ∧
    ∃ p : CProgram, (forwardLoaded.unit.lower forwardLoaded.table .minimal .standard).code =
      p.text .minimal ∧
      p.definitions.map (·.tag?) = [some ⟨"struct", "s_t"⟩, some ⟨"struct", "h_t"⟩] := by
  refine ⟨load_forward, success_forward .standard, ?_⟩
  obtain ⟨types, vars, p, -, -, hcode, htags, -⟩ :=
    lower_order load_forward (success_forward .standard)
  exact ⟨p, hcode, htags⟩

/-- So not every program that is emitted has the order that C wants. -/
theorem not_definedFirst :
    ¬ ∀ (d : Description String) (l : Loaded) (style : Style) (config : QueueConfig)
    (types : List CType) (vars : List (String × CType)), d.load = .ok l →
    (l.unit.lower l.table style config).success = true → d.Represents l types vars →
    (l.unit.lower l.table style config).code = (CProgram.ofTypes style types vars).text style →
    (CProgram.ofTypes style types vars).DefinedFirst := by
  intro h
  obtain ⟨types, vars, hrepresents, hcode⟩ :=
    exists_represents load_forward (success_forward .standard)
  have hfirst := h _ _ _ _ types vars load_forward (success_forward .standard) hrepresents hcode
  have hstruct : forwardLoaded.table.DeclaredAs "s_t" forwardStruct :=
    ⟨1, by decide +kernel, TypeTable.create_of_lower (lower_forwardStruct List.not_mem_nil)⟩
  -- the struct is defined first, and uses the tag of the header
  have hdefined : List.Forall₂ (fun tag c => c.tag? = some tag ∧
      forwardLoaded.table.DeclaredAs tag.name c)
      [⟨"struct", "s_t"⟩, ⟨"struct", "h_t"⟩] types := hrepresents.defined
  obtain ⟨c, rest, ⟨-, hc⟩, -, rfl⟩ := List.forall₂_cons_left_iff.mp hdefined
  obtain rfl := hstruct.unique hc
  obtain ⟨y, hy, -⟩ := hfirst [] _ _ rfl ⟨"struct", "h_t"⟩ List.mem_cons_self
  cases hy

end Description

end WireTypes
