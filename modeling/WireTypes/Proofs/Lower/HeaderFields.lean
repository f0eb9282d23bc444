import WireTypes.Layout
import WireTypes.Proofs.CType.Lines
import WireTypes.Proofs.Lower.Chase
import WireTypes.Proofs.Lower.Measure

/-!
# Fields of headers

A header field is of exactly one class, by the node that the names of its type lead to
(`Classifies`).  The class tells what the field does: it adds bits to the header, or it is reported
and adds nothing.

* `Sound.classifies_iff`: lowering finds the class;
* `toNat_headerBytes`, `toNat_padding`: the bytes of a header, and what is missing to them;
* `Built.header_outcome`: what a header becomes, what is reported, and how many bytes it takes.
-/

namespace WireTypes

/-- What a header field is. -/
inductive FieldClass where
  | bits (width : UInt32)
  | bool
  | varbits (width : UInt32)
  /-- a type that no header holds -/
  | other (kind : Kind)
  /-- no type at all -/
  | unresolved
  deriving DecidableEq

namespace FieldClass

/-- The class of a field with a type of this kind. -/
def ofKind : Kind → FieldClass
  | .bits width _ => .bits width
  | .bool => .bool
  | .varbits width => .varbits width
  | kind => .other kind

/-- Bits that the field adds. -/
def width? : FieldClass → Option Nat
  | .bits width => some width.toNat
  | .bool => some 1
  | _ => none

/-- The code under which the field is reported. -/
def code? : FieldClass → Option Code
  | .bits _ | .bool => none
  | .varbits _ => some .varbitHeaderField
  | .other _ => some .headerFieldKind
  | .unresolved => some .unknownType

def report? (t : TypeTable) (header : Name) (span : Span) (f : Field) :
    FieldClass → Option Diagnostic
  | .bits _ | .bool => none
  | .varbits width => some (t.varbitField header span f width)
  | .other kind => some (t.fieldKind header f kind)
  | .unresolved => some (t.unknownFieldType f)

/-- A field adds bits and is not reported, or it is reported and adds none. -/
theorem adds_or_reports (c : FieldClass) (t : TypeTable) (header : Name) (span : Span) (f : Field) :
    (∃ w, c.width? = some w ∧ c.report? t header span f = none) ∨
    (c.width? = none ∧ ∃ d, c.report? t header span f = some d ∧ c.code? = some d.code) := by
  cases c with
  | bits width => exact .inl ⟨_, rfl, rfl⟩
  | bool => exact .inl ⟨_, rfl, rfl⟩
  | varbits width => exact .inr ⟨rfl, _, rfl, rfl⟩
  | other kind => exact .inr ⟨rfl, _, rfl, rfl⟩
  | unresolved => exact .inr ⟨rfl, _, rfl, rfl⟩

theorem code?_ne_misaligned (c : FieldClass) : c.code? ≠ some .misalignedHeader := by
  cases c <;> simp [code?]

end FieldClass

namespace TypeTable

/-- The names of the field's type lead to a node of this class, or to none. -/
inductive Classifies (t : TypeTable) (f : Field) : FieldClass → Prop
  | resolved {a : TypeId} (ha : t.Resolves f.type a) : Classifies t f (.ofKind (t.kind a))
  | unresolved (h : ∀ a, ¬ t.Resolves f.type a) : Classifies t f .unresolved

/-- The class of a field, as lowering finds it. -/
def fieldClass (t : TypeTable) (f : Field) : FieldClass :=
  (t.resolve? f.type).elim .unresolved fun a => .ofKind (t.kind a)

/-- Every field is of one class, and lowering finds it. -/
theorem Sound.classifies_iff {t : TypeTable} (ht : t.Sound) {f : Field} {c : FieldClass} :
    t.Classifies f c ↔ c = t.fieldClass f := by
  unfold fieldClass
  cases hr : t.resolve? f.type with
  | none =>
    have hnone := ht.resolve?_eq_none_iff.mp hr
    constructor
    · intro h
      cases h with
      | resolved ha => exact absurd ha (hnone _)
      | unresolved => rfl
    · rintro rfl
      exact .unresolved hnone
  | some a =>
    have ha := ht.resolve?_eq_some_iff.mp hr
    constructor
    · intro h
      cases h with
      | resolved ha' =>
        obtain rfl := ha.unique ha'
        rfl
      | unresolved hnone => exact absurd ha (hnone a)
    · rintro rfl
      exact .resolved ha

/-! ## What the fields do -/

theorem width?_fieldClass (t : TypeTable) (f : Field) :
    (t.fieldClass f).width? = t.fieldWidth? f := by
  unfold fieldClass fieldWidth?
  cases t.resolve? f.type with
  | none => rfl
  | some a =>
    dsimp only [Option.elim_some]
    cases t.kind a <;> rfl

theorem report?_fieldClass (t : TypeTable) (header : Name) (span : Span) (f : Field) :
    (match t.headerField header span f with
      | .ok _ => none
      | .error d => some d) = (t.fieldClass f).report? t header span f := by
  unfold fieldClass headerField
  cases t.resolve? f.type with
  | none => rfl
  | some a =>
    dsimp only [Option.elim_some]
    cases t.kind a <;> rfl

theorem fieldReports_eq (t : TypeTable) (header : Name) (span : Span) (fields : List Field) :
    fieldReports (fields.map (t.headerField header span)) =
      fields.filterMap fun f => (t.fieldClass f).report? t header span f := by
  unfold fieldReports
  rw [List.filterMap_map]
  exact List.filterMap_congr fun f _ => report?_fieldClass t header span f

/-! ## Whole bytes -/

theorem mod_eight_eq_zero_iff (width : UInt32) : width % 8 = 0 ↔ 8 ∣ width.toNat := by
  rw [mod_eight_eq_zero, Nat.dvd_iff_mod_eq_zero]

/-- The bytes of the definition are those of the layout. -/
theorem toNat_headerBytes {width : UInt32} (h : 8 ∣ width.toNat) :
    8 * (width / 8).toNat = width.toNat ∧ byteCount width = width / 8 := by
  have hdiv : (width / 8).toNat = width.toNat / 8 := UInt32.toNat_div width 8
  refine ⟨by omega, UInt32.toNat_inj.mp ?_⟩
  rw [toNat_byteCount, hdiv]
  omega

/-- The padding that is suggested fills the last byte. -/
theorem toNat_padding {width : UInt32} (h : ¬ 8 ∣ width.toNat) :
    1 ≤ (padding width).toNat ∧ (padding width).toNat ≤ 7 ∧
      8 ∣ width.toNat + (padding width).toNat := by
  have hmod : (width % 8).toNat = width.toNat % 8 := UInt32.toNat_mod width 8
  have hpadding : (padding width).toNat = 8 - width.toNat % 8 := by
    have hle : width % 8 ≤ 8 := by
      rw [UInt32.le_iff_toNat_le, hmod]
      show _ ≤ 8
      omega
    unfold padding
    rw [UInt32.toNat_sub_of_le _ _ hle, hmod]
    rfl
  omega

/-- A sum that stopped at `maxWidth` is no whole number of bytes, so whole bytes are exact. -/
theorem eq_of_dvd_min {n : Nat} (h : 8 ∣ min n maxWidth) : min n maxWidth = n := by
  simp only [maxWidth] at h ⊢
  omega

/-! ## Headers -/

theorem lower_header {t : TypeTable} {ty : TypeId} {n : Name} {fields : List Field}
    (hk : t.kind ty = .header n fields) (path : List Name) :
    t.lower path ty = t.lowerHeader n fields (t.node ty).span := by
  rw [lower, hk]

theorem result_create_header {t : TypeTable} {ty : TypeId} {n : Name} {fields : List Field}
    {width : UInt32} (hk : t.kind ty = .header n fields)
    (hwidth : (soundBits (fields.map (t.headerField n (t.node ty).span))).foldl satAdd 0 = width)
    (q : Queue) : (t.create ty q).1 = .ok (.header (t.spelling n) width (t.node ty).span) := by
  show (t.lower [] ty).result = _
  rw [lower_header hk, ← hwidth]
  rfl

theorem layout_of_result {t : TypeTable} {ty : TypeId} {q : Queue} {c : CType}
    (h : (t.create ty q).1 = .ok c) : (t.layout ty q).1 = .ok c.layout := by
  unfold layout
  rw [show t.create ty q = (.ok c, (t.create ty q).2) from Prod.ext h rfl]

/-- Only the last report of a header can be that it ends within a byte. -/
theorem code_ne_misaligned {t : TypeTable} {header : Name} {span : Span} {fields : List Field}
    {d : Diagnostic} (h : d ∈ fields.filterMap fun f => (t.fieldClass f).report? t header span f) :
    d.code ≠ .misalignedHeader := by
  obtain ⟨f, -, hd⟩ := List.mem_filterMap.mp h
  rcases (t.fieldClass f).adds_or_reports t header span f with ⟨w, -, hnone⟩ | ⟨-, d', hd', hcode⟩
  · rw [hnone] at hd
    cases hd
  · obtain rfl := Option.some.inj (hd'.symm.trans hd)
    intro h
    rw [h] at hcode
    exact (t.fieldClass f).code?_ne_misaligned hcode

/-- What the queue keeps of a header: the reports of its fields in order, and whether
it ends within a byte. -/
theorem kept_header {t : TypeTable} {ty : TypeId} {n : Name} {fields : List Field} {width : UInt32}
    (hk : t.kind ty = .header n fields)
    (hwidth : (soundBits (fields.map (t.headerField n (t.node ty).span))).foldl satAdd 0 = width) :
    (t.create ty (.ofConfig .unlimited)).2.kept =
      (fields.filterMap fun f => (t.fieldClass f).report? t n (t.node ty).span f) ++
        if 8 ∣ width.toNat then [] else [t.misalignedHeader n (t.node ty).span width] := by
  rw [kept_create_unlimited, lower_header hk]
  show fieldReports _ ++ (if _ % 8 = 0 then [] else _) = _
  rw [hwidth, fieldReports_eq]
  simp only [mod_eight_eq_zero_iff]

/-- **Headers.**  Every field is of one class; in order, each adds its bits or is reported once and
adds none.  Behind the reports of the fields there is one that the header ends within a byte,
exactly if it does, and nothing else.  Without it the width is the exact sum, and definition and
layout agree on its bytes; with it, the padding that is suggested makes them whole. -/
theorem Built.header_outcome {t : TypeTable} (h : t.Built) {ty : TypeId} {n : Name}
    {fields : List Field} (hk : t.kind ty = .header n fields) :
    ∃ (cls : Field → FieldClass) (width : UInt32) (q : Queue),
      t.create ty (.ofConfig .unlimited) =
        (.ok (.header (t.spelling n) width (t.node ty).span), q) ∧
      (∀ f, (∀ c, t.Classifies f c ↔ c = cls f) ∧
        ((∃ w, (cls f).width? = some w ∧ (cls f).report? t n (t.node ty).span f = none) ∨
          ((cls f).width? = none ∧ ∃ d, (cls f).report? t n (t.node ty).span f = some d ∧
            (cls f).code? = some d.code))) ∧
      width.toNat = min (fields.filterMap fun f => (cls f).width?).sum maxWidth ∧
      q.kept = (fields.filterMap fun f => (cls f).report? t n (t.node ty).span f) ++
        (if 8 ∣ width.toNat then [] else [t.misalignedHeader n (t.node ty).span width]) ∧
      q.kept.countP (·.code = .misalignedHeader) = (if 8 ∣ width.toNat then 0 else 1) ∧
      ((∀ d ∈ q.kept, d.code ≠ .misalignedHeader) →
        width.toNat = (fields.filterMap fun f => (cls f).width?).sum ∧
          ∃ size : UInt32, 8 * size.toNat = width.toNat ∧
          (∀ w, (CType.header (t.spelling n) width (t.node ty).span).emit w =
            .done (w.append (w.definition "struct" (t.spelling n) [s!"char data[{size}];",
              "u8 valid;"]))) ∧
          ∀ q, ∃ entry, (t.layout ty q).1 = .ok entry ∧ entry.bytes = size) ∧
      ∀ d ∈ q.kept, d.code = .misalignedHeader →
        ∃ p : UInt32, d.suggestions = [s!"add a `bit<{p}>` padding field"] ∧
        1 ≤ p.toNat ∧ p.toNat ≤ 7 ∧ 8 ∣ width.toNat + p.toNat := by
  obtain ⟨width, hwidth⟩ : ∃ w,
      (soundBits (fields.map (t.headerField n (t.node ty).span))).foldl satAdd 0 = w :=
    ⟨_, rfl⟩
  have hcreate := result_create_header hk hwidth
  have hsum : width.toNat =
      min (fields.filterMap fun f => (t.fieldClass f).width?).sum maxWidth := by
    rw [← hwidth, toNat_headerWidth]
    simp only [headerBits, width?_fieldClass]
  have hkept := kept_header hk hwidth
  refine ⟨t.fieldClass, width, (t.create ty (.ofConfig .unlimited)).2, Prod.ext (hcreate _) rfl, ?_,
    hsum, hkept, ?_, ?_, ?_⟩
  · intro f
    exact ⟨fun c => h.sound.classifies_iff, (t.fieldClass f).adds_or_reports t n (t.node ty).span f⟩
  · have hfields : (fields.filterMap fun f =>
      (t.fieldClass f).report? t n (t.node ty).span f).countP
        (·.code = .misalignedHeader) = 0 :=
      List.countP_eq_zero.mpr fun d hd => by simpa using code_ne_misaligned hd
    rw [hkept, List.countP_append, hfields]
    split <;> rfl
  · intro hnone
    have hbytes : 8 ∣ width.toNat := by
      by_contra hwithin
      refine hnone (t.misalignedHeader n (t.node ty).span width) ?_ rfl
      rw [hkept, if_neg hwithin]
      exact List.mem_append_right _ (List.mem_singleton_self _)
    obtain ⟨hsize, hlayout⟩ := toNat_headerBytes hbytes
    refine ⟨?_, width / 8, hsize, ?_, ?_⟩
    · rw [hsum] at hbytes ⊢
      exact eq_of_dvd_min hbytes
    · intro w
      exact congrArg Written.done (CType.emitHeader_eq w (t.spelling n) width)
    · intro q
      exact ⟨_, layout_of_result (hcreate q), hlayout⟩
  · intro d hd hcode
    rw [hkept] at hd
    rcases List.mem_append.mp hd with hd | hd
    · exact absurd hcode (code_ne_misaligned hd)
    · split at hd
      · cases hd
      · next hwithin =>
        obtain rfl := List.mem_singleton.mp hd
        exact ⟨padding width, rfl, toNat_padding hwithin⟩

/-- A header of which two fields count, nine bits together, and two do not. -/
def ragged : TypeTable :=
  let t := (Growth.alloc (.bits 8 false) .dummy).grow ∅
  let t := (Growth.alloc (.varbits 32) .dummy).grow t
  let t := (Growth.alloc .bool .dummy).grow t
  let t := (Growth.allocNamed "nowhere" .dummy).grow t
  (Growth.declareHeader "h" [("a", 0), ("b", 1), ("c", 2), ("d", 3)]).grow t

theorem built_ragged : ragged.Built := by
  refine .grow
    (.grow (.alloc_leaf (.alloc_leaf (built_single .dummy rfl rfl) (.varbits 32) .dummy rfl rfl)
    .bool .dummy rfl rfl) (.allocNamed "nowhere" .dummy) trivial)
    (.declareHeader "h" [("a", 0), ("b", 1), ("c", 2), ("d", 3)]) ?_
  intro f hf
  simp only [List.mem_cons, List.not_mem_nil, or_false] at hf
  rcases hf with rfl | rfl | rfl | rfl <;> decide

/-- It is reported three times, and seven bits are suggested. -/
theorem header_outcome_ragged : ragged.Built ∧ ∃ (width : UInt32) (q : Queue),
    ragged.create 4 (.ofConfig .unlimited) = (.ok (.header "h" width .dummy), q) ∧ width = 9 ∧
    q.kept.map (·.code) = [.varbitHeaderField, .unknownType, .misalignedHeader] ∧
    q.kept.flatMap (·.suggestions) = ["add a `bit<7>` padding field"] := by
  have hk : ragged.kind 4 =
      .header ⟨8⟩ [⟨⟨9⟩, 0, .dummy⟩, ⟨⟨10⟩, 1, .dummy⟩, ⟨⟨11⟩, 2, .dummy⟩, ⟨⟨12⟩, 3, .dummy⟩] := by
        decide +kernel
  have hname : ragged.spelling ⟨8⟩ = "h" := by decide +kernel
  have hspan : (ragged.node 4).span = .dummy := by decide +kernel
  obtain ⟨cls, width, q, hcreate, hcls, hwidth, hkept, -⟩ := Built.header_outcome built_ragged hk
  have hclass : ∀ f, cls f = ragged.fieldClass f := fun f =>
    (((hcls f).1 _).mp (built_ragged.sound.classifies_iff.mpr rfl)).symm
  have ha : ragged.fieldClass ⟨⟨9⟩, 0, .dummy⟩ = .bits 8 := by decide +kernel
  have hb : ragged.fieldClass ⟨⟨10⟩, 1, .dummy⟩ = .varbits 32 := by decide +kernel
  have hc : ragged.fieldClass ⟨⟨11⟩, 2, .dummy⟩ = .bool := by decide +kernel
  have hd : ragged.fieldClass ⟨⟨12⟩, 3, .dummy⟩ = .unresolved := by decide +kernel
  obtain rfl : width = 9 := by
    rw [← UInt32.toNat_inj, hwidth]
    simp only [hclass, ha, hb, hc, hd, List.filterMap_cons, List.filterMap_nil]
    rfl
  have hreports : q.kept = [ragged.varbitField ⟨8⟩ (ragged.node 4).span ⟨⟨10⟩, 1, .dummy⟩ 32,
      ragged.unknownFieldType ⟨⟨12⟩, 3, .dummy⟩,
      ragged.misalignedHeader ⟨8⟩ (ragged.node 4).span 9] := by
    rw [hkept]
    simp [hclass, ha, hb, hc, hd, FieldClass.report?]
  rw [hname, hspan] at hcreate
  refine ⟨built_ragged, 9, q, hcreate, rfl, ?_, ?_⟩
  · rw [hreports]
    rfl
  · rw [hreports]
    rfl

end TypeTable

end WireTypes
