import WireTypes.Proofs.CType.Nesting

/-!
# Declared objects

`CObject` is what a C declaration declares, read by the rules of C: behind the identifier come the
sizes of arrays, the outermost first.  `CType.object` is the object that a lowered type declares.

* `CObject.declaration_injective`: the declaration of an identifier tells the object;
* `CType.declare_eq_ok_iff`: a type is declared as its object, if it can be declared at all.
-/

namespace WireTypes

/-- An object of C. -/
inductive CObject where
  | integer (signed : Bool) (bits : UInt32)
  | enum (tag : String)
  | record (form : AggregateForm) (tag : String)
  | array (element : CObject) (size : UInt32)
  deriving DecidableEq, Repr

namespace CObject

/-- What stands before the identifier. -/
def specifier : CObject → String
  | .integer signed bits => (if signed then "s" else "u") ++ toString bits
  | .enum tag => "enum" ++ " " ++ tag
  | .record form tag => form.keyword ++ " " ++ tag
  | .array element _ => element.specifier

/-- The sizes of arrays, the outermost first. -/
def sizes : CObject → List UInt32
  | .array element size => size :: element.sizes
  | _ => []

def declaration (o : CObject) (id : String) : String :=
  o.specifier ++ " " ++ id ++ CType.brackets o.sizes

/-- Arrays, structs and unions. -/
def isCompound : CObject → Bool
  | .record _ _ => true
  | .array _ _ => true
  | _ => false

def isNumber : CObject → Bool
  | .integer _ _ => true
  | .enum _ => true
  | _ => false

/-- The object with its innermost elements replaced by arrays of them. -/
def withInner (size : UInt32) : CObject → CObject
  | .array element n => .array (element.withInner size) n
  | o => .array o size

theorem isNumber_eq_not_isCompound (o : CObject) : o.isNumber = !o.isCompound := by
  cases o <;> rfl

theorem specifier_withInner (size : UInt32) (o : CObject) :
    (o.withInner size).specifier = o.specifier := by
  induction o with
  | array element n ih => exact ih
  | integer | enum | record => rfl

theorem sizes_withInner (size : UInt32) (o : CObject) :
    (o.withInner size).sizes = o.sizes ++ [size] := by
  induction o with
  | array element n ih => exact congrArg (n :: ·) ih
  | integer | enum | record => rfl

theorem isCompound_withInner (size : UInt32) (o : CObject) :
    (o.withInner size).isCompound = true := by
  cases o <;> rfl

/-! ## Reading a declaration -/

theorem space_not_mem_brackets (sizes : List UInt32) : ' ' ∉ (CType.brackets sizes).toList := by
  induction sizes with
  | nil => simp [CType.brackets_nil]
  | cons size sizes ih =>
    have hdigits := not_mem_toDigits (c := ' ') (by decide) size.toNat
    rw [CType.toList_brackets_cons]
    simp [hdigits, ih]

/-- Texts before an identifier and behind it, which may hold blanks itself. -/
theorem append_space_inj {as bs xs ys id : List Char} (hx : ' ' ∉ xs) (hy : ' ' ∉ ys)
    (h : as ++ ' ' :: (id ++ xs) = bs ++ ' ' :: (id ++ ys)) : as = bs ∧ xs = ys := by
  -- the blank before the identifier is the one with as many behind it as the identifier has
  have hfront : ∀ {cs xs ys : List Char}, ' ' ∉ xs → ' ' ∉ ys →
      ' ' :: (id ++ xs) = cs ++ ' ' :: (id ++ ys) → cs = [] := by
    intro cs xs ys hx hy h
    cases cs with
    | nil => rfl
    | cons c cs =>
      have htail : id ++ xs = cs ++ ' ' :: (id ++ ys) := (List.cons.inj h).2
      have hcount := congrArg (List.count ' ') htail
      rw [List.count_append, List.count_append, List.count_cons_self, List.count_append,
        List.count_eq_zero.mpr hx, List.count_eq_zero.mpr hy] at hcount
      omega
  rcases List.append_eq_append_iff.mp h with ⟨cs, rfl, hrest⟩ | ⟨cs, rfl, hrest⟩
  · obtain rfl := hfront hx hy hrest
    exact ⟨(List.append_nil as).symm, List.append_cancel_left (List.cons.inj hrest).2⟩
  · obtain rfl := hfront hy hx hrest
    exact ⟨List.append_nil bs, (List.append_cancel_left (List.cons.inj hrest).2).symm⟩

theorem specifier_integer_ne {signed : Bool} {bits : UInt32} {keyword tag : String} :
    specifier (.integer signed bits) ≠ keyword ++ " " ++ tag := by
  intro h
  have hdigits := not_mem_toDigits (c := ' ') (by decide) bits.toNat
  have hblank : ' ' ∉ (specifier (.integer signed bits)).toList := by
    cases signed <;> simp [specifier, toString, Nat.toList_repr, hdigits]
  rw [h] at hblank
  simp at hblank

theorem specifier_enum_ne {form : AggregateForm} {tag tag' : String} :
    specifier (.enum tag) ≠ specifier (.record form tag') := by
  intro h
  have hfirst := congrArg (fun s => s.toList.head?) h
  cases form <;> simp [specifier, AggregateForm.keyword] at hfirst

theorem eq_of_specifier_of_sizes {o o' : CObject} (hspecifier : o.specifier = o'.specifier)
    (hsizes : o.sizes = o'.sizes) : o = o' := by
  -- on the nesting of arrays; what is no array is told by its specifier alone
  induction o generalizing o' with
  | array element size ih =>
    cases o' with
    | array element' size' =>
      obtain ⟨rfl, hrest⟩ := List.cons.inj hsizes
      have helement : element = element' := ih hspecifier hrest
      rw [helement]
    | integer | enum | record => cases hsizes
  | integer signed bits =>
    cases o' with
    | array => cases hsizes
    | enum | record => exact absurd hspecifier specifier_integer_ne
    | integer signed' bits' =>
      have htext := congrArg String.toList hspecifier
      cases signed <;> cases signed' <;> simp [specifier, toString, Nat.toList_repr] at htext
      all_goals rw [UInt32.toNat_inj.mp (toDigits_inj htext)]
  | enum tag =>
    cases o' with
    | array => cases hsizes
    | integer => exact absurd hspecifier.symm specifier_integer_ne
    | enum tag' => simpa [specifier] using hspecifier
    | record => exact absurd hspecifier specifier_enum_ne
  | record form tag =>
    cases o' with
    | array => cases hsizes
    | integer => exact absurd hspecifier.symm specifier_integer_ne
    | enum => exact absurd hspecifier.symm specifier_enum_ne
    | record form' tag' =>
      have hfirst := congrArg (fun s => s.toList.head?) hspecifier
      cases form <;> cases form' <;> simp [specifier, AggregateForm.keyword] at hfirst hspecifier
      all_goals rw [hspecifier]

theorem declaration_injective {o o' : CObject} {id : String}
    (h : o.declaration id = o'.declaration id) : o = o' := by
  have htext : o.specifier.toList ++ ' ' :: (id.toList ++ (CType.brackets o.sizes).toList) =
      o'.specifier.toList ++ ' ' :: (id.toList ++ (CType.brackets o'.sizes).toList) := by
    simpa [declaration] using congrArg String.toList h
  obtain ⟨hspecifier, hsizes⟩ :=
    append_space_inj (space_not_mem_brackets o.sizes) (space_not_mem_brackets o'.sizes) htext
  exact eq_of_specifier_of_sizes (String.toList_inj.mp hspecifier)
    (CType.brackets_injective (String.toList_inj.mp hsizes))

end CObject

namespace CType

/-- The object that a declaration declares. -/
def object : CType → CObject
  | .bool => .integer false 8
  | .scalar width signed =>
    match (Storage.ofBits width).integerBits? with
    | some bits => .integer signed bits
    | none => .array (.integer false 8) (byteCount width)
  | .header name _ _ => .record .struct name
  | .aggregate form name _ _ _ => .record form name
  | .enum name _ _ => .enum name
  | .stack element _ size => element.object.withInner size
  | .named _ _ canonical => canonical.object

/-- A scalar that no integer holds, under whatever name. -/
def wide : CType → Bool
  | .scalar width _ => 64 < width
  | .named _ _ canonical => canonical.wide
  | _ => false

theorem object_scalar (width : UInt32) (signed : Bool) :
    (64 < width ∧ (scalar width signed).object = .array (.integer false 8) (byteCount width)) ∨
    (¬ 64 < width ∧ ∃ bits, (Storage.ofBits width).integerBits? = some bits ∧
      (scalar width signed).object = .integer signed bits) := by
  unfold object
  cases hs : Storage.ofBits width with
  | bytes count =>
    left
    exact ⟨(ofBits_eq_bytes.mp hs).1, rfl⟩
  | u8 | u16 | u32 | u64 =>
    right
    refine ⟨fun hwide => ?_, _, rfl, rfl⟩
    rw [ofBits_eq_bytes.mpr ⟨hwide, rfl⟩] at hs
    cases hs

theorem specifier_object : ∀ c : CType, c.object.specifier = c.specifier
  | .bool => rfl
  | .scalar width signed => by
    unfold specifier
    rcases object_scalar width signed with ⟨hwide, h⟩ | ⟨hnarrow, bits, hbits, h⟩
    · rw [h, if_pos hwide]
      rfl
    · rw [h, if_neg hnarrow, scalarToken, hbits]
      rfl
  | .header _ _ _ | .aggregate _ _ _ _ _ | .enum _ _ _ => rfl
  | .stack element _ size => (CObject.specifier_withInner size _).trans element.specifier_object
  | .named _ _ canonical => canonical.specifier_object

theorem sizes_object : ∀ c : CType, c.object.sizes = c.dimensions.reverse
  | .bool | .header _ _ _ | .aggregate _ _ _ _ _ | .enum _ _ _ => rfl
  | .scalar width signed => by
    unfold dimensions stackSizes byteSizes
    rcases object_scalar width signed with ⟨hwide, h⟩ | ⟨hnarrow, bits, hbits, h⟩
    · rw [h, if_pos hwide]
      rfl
    · rw [h, if_neg hnarrow]
      rfl
  | .stack element extent size => by
    have hreverse : (stack element extent size).dimensions.reverse =
        element.dimensions.reverse ++ [size] :=
      List.reverse_cons
    rw [hreverse, ← element.sizes_object]
    exact CObject.sizes_withInner size _
  | .named _ _ canonical => canonical.sizes_object

/-! ## Declared or not -/

mutual

def declarable : CType → Bool
  | .stack element _ _ => element.stackable
  | .named _ _ canonical => canonical.declarable
  | _ => true

def stackable : CType → Bool
  | .header _ _ _ => true
  | .aggregate _ _ _ _ _ => true
  | .named _ _ canonical => canonical.declarable
  | _ => false

end

theorem declarable_of_stackable {c : CType} (h : c.stackable = true) : c.declarable = true := by
  cases c with
  | header | aggregate => rfl
  | named => exact h
  | bool | scalar | enum | stack => cases h

mutual

theorem isOk_declare (c : CType) (id : String) : (c.declare id).isOk = c.declarable := by
  cases c with
  | bool | scalar | header | aggregate | enum => rfl
  | stack element extent size => exact isOk_declareArray element id size
  | named name span canonical => exact isOk_declare canonical id

theorem isOk_declareArray (c : CType) (id : String) (size : UInt32) :
    (c.declareArray id size).isOk = c.stackable := by
  cases c with
  | bool | scalar | header | aggregate | enum | stack => rfl
  | named name span canonical =>
    have hmap : (declareArray (.named name span canonical) id size).isOk =
        (canonical.declare id).isOk := by
      show ((canonical.declare id).map (· ++ bracket size)).isOk = _
      cases canonical.declare id <;> rfl
    rw [hmap]
    exact isOk_declare canonical id

end

/-- What can be declared is declared as its object. -/
theorem declare_eq_ok_iff {c : CType} {id text : String} :
    c.declare id = .ok text ↔ c.declarable = true ∧ text = c.object.declaration id := by
  have hobject : c.object.declaration id =
      c.specifier ++ " " ++ id ++ brackets c.dimensions.reverse := by
    rw [CObject.declaration, c.specifier_object, c.sizes_object]
  rw [hobject, ← isOk_declare c id]
  constructor
  · intro h
    exact ⟨by rw [h]; rfl, declare_eq h⟩
  · rintro ⟨hok, rfl⟩
    cases h : c.declare id with
    | error e =>
      rw [h] at hok
      cases hok
    | ok text => rw [declare_eq h]

end CType

end WireTypes
