import WireTypes.Lower.Basic
import WireTypes.Proofs.TypeTable.History

/-!
# Lowering as rules

`Lowers t path ty x` reads lowering as rules, one for each shape of a node: inside the expansion of
the names in `path`, the node `ty` becomes `x`.  Unlike the function, the rules follow every id
wherever it points; a derivation is a run of the recursion that comes to an end.

* `Sound.lowers`, `Lowers.eq_lower`: in a sound table every node has a derivation, and each ends
  with what `lower` answers;
* `Lowers.reported`: whatever stops lowering has been reported, so a struct or union is always
  there;
* `result_assemble`, `reports_assemble`: its members, the fields that are left out, and what is
  reported.

What holds of all lowered nodes is proved by induction on `Lowers`.
-/

namespace WireTypes

/-- The nodes whose types a node is made of.  A header only asks for the widths of its fields. -/
def Kind.parts : Kind → List TypeId
  | .aggregate _ _ fields => fields.map (·.type)
  | .stack element _ => [element]
  | _ => []

theorem Kind.mem_ids_of_mem_parts {k : Kind} {c : TypeId} (h : c ∈ k.parts) : c ∈ k.ids := by
  cases k with
  | aggregate form n fields => exact h
  | stack element size => exact h
  | _ => simp [parts] at h

/-! ## Renaming and arrays -/

namespace Lowered

/-- Whatever is missing has been reported. -/
def Reported (x : Lowered) : Prop := ∀ e, x.result = .error e → e = .reported

theorem result_rename {name : String} {span : Span} {x : Lowered} {c : CType} :
    (x.rename name span).result = .ok c ↔ ∃ c', x.result = .ok c' ∧ c = .named name span c' := by
  unfold rename
  cases hr : x.result with
  | error e => simp [Except.map]
  | ok c' => simp [Except.map, eq_comm]

theorem error_of_rename {name : String} {span : Span} {x : Lowered} {e : LoweringError}
    (h : (x.rename name span).result = .error e) : x.result = .error e := by
  unfold rename at h
  cases hr : x.result with
  | error e' =>
    rw [hr] at h
    cases h
    rfl
  | ok c => simp [hr, Except.map] at h

theorem result_stack {size : UInt32} {x : Lowered} {c : CType} :
    (x.stack size).result = .ok c ↔
      ∃ element extent, x.result = .ok element ∧ element.extent? = some extent ∧
        c = .stack element extent size := by
  unfold stack
  cases hr : x.result with
  | error e => simp [Except.bind]
  | ok element =>
    cases he : element.extent? with
    | none => simp [Except.bind, he]
    | some extent => simp [Except.bind, he, eq_comm]

/-- An array fails with its element, or for want of a fixed width. -/
theorem error_of_stack {size : UInt32} {x : Lowered} {e : LoweringError}
    (h : (x.stack size).result = .error e) : x.result = .error e ∨ e = .reported := by
  unfold stack at h
  cases hr : x.result with
  | error e' =>
    rw [hr] at h
    cases h
    exact .inl rfl
  | ok element =>
    right
    cases he : element.extent? with
    | none => simpa [hr, he, Except.bind, eq_comm] using h
    | some extent => simp [hr, he, Except.bind] at h

end Lowered

/-! ## Rules -/

namespace TypeTable

/-- Inside the expansion of `path`, the node `ty` becomes `x`. -/
inductive Lowers (t : TypeTable) : List Name → TypeId → Lowered → Prop
  | bool {path : List Name} {ty : TypeId} (hk : t.kind ty = .bool) : Lowers t path ty (.ok .bool)
  | bits {path : List Name} {ty : TypeId} {width : UInt32} {signed : Bool}
      (hk : t.kind ty = .bits width signed) :
      Lowers t path ty (.ok (.scalar width signed))
  | varbits {path : List Name} {ty : TypeId} {width : UInt32} (hk : t.kind ty = .varbits width) :
      Lowers t path ty (.fail (t.unsupportedType ty))
  | enum {path : List Name} {ty : TypeId} {n : Name} {members : List Name}
      (hk : t.kind ty = .enum n members) :
      Lowers t path ty (.ok (.enum (t.spelling n) (members.map t.spelling) (t.node ty).span))
  | header {path : List Name} {ty : TypeId} {n : Name} {fields : List Field}
      (hk : t.kind ty = .header n fields) :
      Lowers t path ty (t.lowerHeader n fields (t.node ty).span)
  | aggregate {path : List Name} {ty : TypeId} {form : AggregateForm} {n : Name}
      {fields : List Field} {x : Field → Lowered} (hk : t.kind ty = .aggregate form n fields)
      (hx : ∀ f ∈ fields, Lowers t path f.type (x f)) :
      Lowers t path ty (t.assemble form n (t.node ty).span (fields.map fun f => (f, x f)))
  | stack {path : List Name} {ty element : TypeId} {size : UInt32} {x : Lowered}
      (hk : t.kind ty = .stack element size) (hx : Lowers t path element x) :
      Lowers t path ty (.stack size x)
  /-- The name is being expanded already. -/
  | cycle {path : List Name} {ty : TypeId} {n : Name} (hk : t.kind ty = .named n) (hn : n ∈ path) :
      Lowers t path ty (.fail (t.typeCycle path n (t.node ty).span))
  /-- The name is not declared. -/
  | unknown {path : List Name} {ty : TypeId} {n : Name} (hk : t.kind ty = .named n) (hn : n ∉ path)
      (hl : t.lookup n = none) : Lowers t path ty (.fail (t.unknownType n (t.node ty).span))
  | declared {path : List Name} {ty target : TypeId} {n : Name} {x : Lowered}
      (hk : t.kind ty = .named n) (hn : n ∉ path) (hl : t.lookup n = some target)
      (hx : Lowers t (path ++ [n]) target x) :
      Lowers t path ty (.rename (t.spelling n) (t.node ty).span x)

/-! ## The function and the rules -/

theorem mem_parts_of_field {t : TypeTable} {ty : TypeId} {form : AggregateForm} {n : Name}
    {fields : List Field} (hk : t.kind ty = .aggregate form n fields) {f : Field}
    (hf : f ∈ fields) : f.type ∈ (t.kind ty).parts := by
  rw [hk]
  exact List.mem_map_of_mem hf

theorem mem_parts_of_element {t : TypeTable} {ty element : TypeId} {size : UInt32}
    (hk : t.kind ty = .stack element size) : element ∈ (t.kind ty).parts := by
  rw [hk]
  exact List.mem_singleton_self element

theorem Sound.part_lt {t : TypeTable} (ht : t.Sound) {ty c : TypeId} (hc : c ∈ (t.kind ty).parts) :
    c < ty :=
  ht.ids_lt ty c (Kind.mem_ids_of_mem_parts hc)

/-- The ids of a sound table point backwards, so no field is turned away. -/
theorem Sound.lower_aggregate {t : TypeTable} (ht : t.Sound) {ty : TypeId}
    {form : AggregateForm} {n : Name} {fields : List Field}
    (hk : t.kind ty = .aggregate form n fields) (path : List Name) :
    t.lower path ty =
      t.assemble form n (t.node ty).span (fields.map fun f => (f, t.lower path f.type)) := by
  have hmap : (fields.map fun f =>
      (f, if f.type < ty then t.lower path f.type else .fail (t.unknownType .empty .dummy))) =
      fields.map fun f => (f, t.lower path f.type) := by
    refine List.map_congr_left fun f hf => ?_
    rw [if_pos (ht.part_lt (mem_parts_of_field hk hf))]
  rw [lower, hk]
  show t.assemble form n (t.node ty).span _ = _
  rw [hmap]

theorem Sound.lower_stack {t : TypeTable} (ht : t.Sound) {ty element : TypeId} {size : UInt32}
    (hk : t.kind ty = .stack element size) (path : List Name) :
    t.lower path ty = .stack size (t.lower path element) := by
  have hlt : element < ty := ht.part_lt (mem_parts_of_element hk)
  rw [lower, hk]
  show Lowered.stack size (if element < ty then _ else _) = _
  rw [if_pos hlt]

theorem lower_cycle {t : TypeTable} {path : List Name} {ty : TypeId} {n : Name}
    (hk : t.kind ty = .named n) (hn : n ∈ path) :
    t.lower path ty = .fail (t.typeCycle path n (t.node ty).span) := by
  rw [lower, hk]
  show (if n ∈ path then _ else _) = _
  rw [if_pos hn]

theorem lower_unknown {t : TypeTable} {path : List Name} {ty : TypeId} {n : Name}
    (hk : t.kind ty = .named n) (hn : n ∉ path) (hl : t.lookup n = none) :
    t.lower path ty = .fail (t.unknownType n (t.node ty).span) := by
  rw [lower, hk]
  show (if n ∈ path then _ else _) = _
  rw [if_neg hn]
  split
  · rfl
  · next h => rw [hl] at h; cases h

theorem lower_declared {t : TypeTable} {path : List Name} {ty target : TypeId} {n : Name}
    (hk : t.kind ty = .named n) (hn : n ∉ path) (hl : t.lookup n = some target) :
    t.lower path ty = .rename (t.spelling n) (t.node ty).span (t.lower (path ++ [n]) target) := by
  rw [lower, hk]
  show (if n ∈ path then _ else _) = _
  rw [if_neg hn]
  split
  · next h => rw [hl] at h; cases h
  · next target' h =>
    obtain rfl : target = target' := Option.some.inj (hl.symm.trans h)
    rfl

/-- Every node of a sound table is lowered by the rules, with the answer of `lower`. -/
theorem Sound.lowers {t : TypeTable} (ht : t.Sound) (path : List Name) (ty : TypeId) :
    t.Lowers path ty (t.lower path ty) := by
  induction path, ty using lower.induct t with
  | case1 path ty hk =>
    rw [lower, hk]
    exact .bool hk
  | case2 path ty width signed hk =>
    rw [lower, hk]
    exact .bits hk
  | case3 path ty width hk =>
    rw [lower, hk]
    exact .varbits hk
  | case4 path ty n members hk =>
    rw [lower, hk]
    exact .enum hk
  | case5 path ty n fields hk =>
    rw [lower, hk]
    exact .header hk
  | case6 path ty form n fields hk ih =>
    rw [ht.lower_aggregate hk]
    exact .aggregate hk fun f hf => ih f (ht.part_lt (mem_parts_of_field hk hf))
  | case7 path ty element size hk ih =>
    rw [ht.lower_stack hk]
    exact .stack hk (ih (ht.part_lt (mem_parts_of_element hk)))
  | case8 path ty n hk hn =>
    rw [lower_cycle hk hn]
    exact .cycle hk hn
  | case9 path ty n hk hn hl =>
    rw [lower_unknown hk hn hl]
    exact .unknown hk hn hl
  | case10 path ty n hk hn target hl ih =>
    rw [lower_declared hk hn hl]
    exact .declared hk hn hl ih

/-- Nothing else follows from the rules. -/
theorem Lowers.eq_lower {t : TypeTable} (ht : t.Sound) {path : List Name}
    {ty : TypeId} {x : Lowered} (h : t.Lowers path ty x) : x = t.lower path ty := by
  induction h with
  | bool hk | bits hk | varbits hk | enum hk | header hk => rw [lower, hk]
  | @aggregate path ty form n fields x hk hx ih =>
    rw [ht.lower_aggregate hk]
    congr 1
    refine List.map_congr_left fun f hf => ?_
    rw [ih f hf]
  | stack hk hx ih => rw [ht.lower_stack hk, ih]
  | cycle hk hn => rw [lower_cycle hk hn]
  | unknown hk hn hl => rw [lower_unknown hk hn hl]
  | declared hk hn hl hx ih => rw [lower_declared hk hn hl, ih]

/-! ## Structs and unions -/

def keptMembers (t : TypeTable) (fields : List (Field × Lowered)) : List (Member × CType) :=
  fields.filterMap fun (f, x) => x.result.toOption.map fun ty => (t.member f, ty)

section

variable {t : TypeTable} {fields : List Field} {x : Field → Lowered} {form : AggregateForm}
  {n : Name} {span : Span}

theorem mem_keptMembers {m : Member} {c : CType} :
    (m, c) ∈ t.keptMembers (fields.map fun f => (f, x f)) ↔
      ∃ f ∈ fields, (x f).result = .ok c ∧ m = t.member f := by
  unfold keptMembers
  rw [List.filterMap_map, List.mem_filterMap]
  constructor
  · rintro ⟨f, hf, h⟩
    cases hr : (x f).result with
    | error e => simp [hr, Except.toOption] at h
    | ok c' =>
      simp only [Function.comp_apply, hr, Except.toOption, Option.map_some, Option.some.injEq,
        Prod.mk.injEq] at h
      obtain ⟨rfl, rfl⟩ := h
      exact ⟨f, hf, hr, rfl⟩
  · rintro ⟨f, hf, hr, rfl⟩
    exact ⟨f, hf, by simp [hr, Except.toOption]⟩

/-- Where everything missing has been reported, no field ends the struct or union. -/
theorem lowerFields_eq (hx : ∀ f ∈ fields, (x f).Reported) :
    t.lowerFields form n span (fields.map fun f => (f, x f)) =
      (.ok (t.keptMembers (fields.map fun f => (f, x f))), fields.flatMap fun f =>
        (x f).reports ++ if (x f).result.isOk then [] else [t.unsizedMember form n span f]) := by
  induction fields with
  | nil => rfl
  | cons f fields ih =>
    rw [List.forall_mem_cons] at hx
    unfold keptMembers at ih ⊢
    rw [List.map_cons, lowerFields, ih hx.2, List.filterMap_cons, List.flatMap_cons]
    cases hr : (x f).result with
    | ok c => simp [hr, Except.map, Except.toOption, Except.isOk, Except.toBool]
    | error e =>
      obtain rfl := hx.1 e hr
      simp [hr, Except.toOption, Except.isOk, Except.toBool]

theorem result_assemble (hx : ∀ f ∈ fields, (x f).Reported) :
    (t.assemble form n span (fields.map fun f => (f, x f))).result =
      .ok (.aggregate form (t.spelling n) span (t.keptMembers (fields.map fun f => (f, x f)))
        ((t.keptMembers (fields.map fun f => (f, x f))).length < fields.length)) := by
  unfold assemble
  rw [lowerFields_eq hx, List.length_map]
  rfl

/-- Each field reports what it reports by itself; behind that, the field is
reported if it is left out. -/
theorem reports_assemble (hx : ∀ f ∈ fields, (x f).Reported) :
    (t.assemble form n span (fields.map fun f => (f, x f))).reports = fields.flatMap fun f =>
      (x f).reports ++ if (x f).result.isOk then [] else [t.unsizedMember form n span f] := by
  unfold assemble
  rw [lowerFields_eq hx]

/-- A struct or union reports what its fields report, and each field that is left out. -/
theorem mem_reports_assemble (hx : ∀ f ∈ fields, (x f).Reported) {d : Diagnostic} :
    d ∈ (t.assemble form n span (fields.map fun f => (f, x f))).reports ↔ ∃ f ∈ fields,
      d ∈ (x f).reports ∨ (∀ c, (x f).result ≠ .ok c) ∧ d = t.unsizedMember form n span f := by
  rw [reports_assemble hx]
  simp only [List.mem_flatMap, List.mem_append]
  refine exists_congr fun f => and_congr_right fun _ => or_congr_right ?_
  cases hr : (x f).result with
  | error e => simp [Except.isOk, Except.toBool]
  | ok c => simp [Except.isOk, Except.toBool]

end

/-- Whatever stops lowering has been reported, so no field ends a struct or union. -/
theorem Lowers.reported {t : TypeTable} {path : List Name} {ty : TypeId} {x : Lowered}
    (h : t.Lowers path ty x) : x.Reported := by
  induction h with
  | bool hk | bits hk | enum hk | header hk =>
    intro e he
    cases he
  | aggregate hk hx ih =>
    intro e he
    rw [result_assemble ih] at he
    cases he
  | varbits hk | cycle hk hn | unknown hk hn hl =>
    intro e he
    cases he
    rfl
  | stack hk hx ih =>
    intro e he
    rcases Lowered.error_of_stack he with he | he
    · exact ih e he
    · exact he
  | declared hk hn hl hx ih =>
    intro e he
    exact ih e (Lowered.error_of_rename he)

end TypeTable

end WireTypes
