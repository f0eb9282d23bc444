import WireTypes.Proofs.CType.Object
import WireTypes.Proofs.TypeTable.Extension

/-!
# Tags in C types

A C type refers to structs, unions and enums by their tags alone, yet carries all of them as parts.

* `OccursIn`: what is a part of a type, at any depth;
* `CObject.tag?`: the tag that a declaration of a type names; `occursIn_of_tag?_object`: it belongs
  to a part.
-/

namespace WireTypes

namespace CType

def tag? : CType → Option Tag
  | .header name _ _ => some ⟨"struct", name⟩
  | .aggregate form name _ _ _ => some ⟨form.keyword, name⟩
  | .enum name _ _ => some ⟨"enum", name⟩
  | _ => none

/-- `e` is a part of the type, at any depth. -/
inductive OccursIn (e : CType) : CType → Prop
  | here : OccursIn e e
  | canonical {name : String} {span : Span} {c : CType} (h : OccursIn e c) :
      OccursIn e (.named name span c)
  | element {c : CType} {extent : Extent} {size : UInt32} (h : OccursIn e c) :
      OccursIn e (.stack c extent size)
  | member {form : AggregateForm} {name : String} {span : Span} {members : List (Member × CType)}
      {lossy : Bool} {m : Member} {c : CType} (hm : (m, c) ∈ members) (h : OccursIn e c) :
      OccursIn e (.aggregate form name span members lossy)

theorem OccursIn.sizeOf_le {e c : CType} (h : OccursIn e c) : sizeOf e ≤ sizeOf c := by
  induction h with
  | here => exact Nat.le_refl _
  | canonical _ ih | element _ ih =>
    simp only [CType.named.sizeOf_spec, CType.stack.sizeOf_spec]
    omega
  | @member form name span members lossy m c hm _ ih =>
    have hmember := List.sizeOf_lt_of_mem hm
    simp only [Prod.mk.sizeOf_spec] at hmember
    simp only [CType.aggregate.sizeOf_spec]
    omega

/-- No struct or union is a part of one of its members. -/
theorem not_occursIn_member {form : AggregateForm} {name : String} {span : Span}
    {members : List (Member × CType)} {lossy : Bool} {m : Member} {c : CType}
    (hm : (m, c) ∈ members) : ¬ OccursIn (.aggregate form name span members lossy) c := by
  intro h
  have hle := h.sizeOf_le
  have hmember := List.sizeOf_lt_of_mem hm
  simp only [Prod.mk.sizeOf_spec] at hmember
  simp only [CType.aggregate.sizeOf_spec] at hle
  omega

end CType

namespace CObject

def tag? : CObject → Option Tag
  | .integer _ _ => none
  | .enum tag => some ⟨"enum", tag⟩
  | .record form tag => some ⟨form.keyword, tag⟩
  | .array element _ => element.tag?

theorem tag?_withInner (size : UInt32) : ∀ o : CObject, (o.withInner size).tag? = o.tag?
  | .array element _ => tag?_withInner size element
  | .integer _ _ | .enum _ | .record _ _ => rfl

end CObject

/-- What a declaration names is a part of the type. -/
theorem CType.occursIn_of_tag?_object {tag : Tag} :
    ∀ {c : CType}, c.object.tag? = some tag → ∃ e, OccursIn e c ∧ e.tag? = some tag
  | .bool, h => by cases h
  | .scalar width signed, h => by
    rcases object_scalar width signed with ⟨-, hobject⟩ | ⟨-, bits, -, hobject⟩
    · rw [hobject] at h
      cases h
    · rw [hobject] at h
      cases h
  | .header _ _ _, h | .aggregate _ _ _ _ _, h | .enum _ _ _, h => ⟨_, .here, h⟩
  | .stack element _ size, h => by
    obtain ⟨e, he, htag⟩ := occursIn_of_tag?_object ((CObject.tag?_withInner size _).symm.trans h)
    exact ⟨e, .element he, htag⟩
  | .named _ _ canonical, h => by
    obtain ⟨e, he, htag⟩ := occursIn_of_tag?_object (c := canonical) h
    exact ⟨e, .canonical he, htag⟩

end WireTypes
