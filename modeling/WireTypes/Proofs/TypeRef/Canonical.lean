import WireTypes.Proofs.TypeRef.Grammar

/-!
# Canonical spellings

`display` and `parse` are inverse.  A reference whose names are identifiers is read back from its
spelling (`parse_display`); and the spelling of what a text says is that text without blanks, plus
signs and leading zeros (`drops_display`).
-/

namespace WireTypes.TypeRef

open Text

/-- All names can be read: they are identifiers, and none is `bool`. -/
def Legible : TypeRef → Prop
  | .named name => IsIdentifier name.toList ∧ name ≠ "bool"
  | .stack element _ => element.Legible
  | _ => True

/-! ## From references to texts -/

theorem isNumber_toDigits (n : UInt32) : IsNumber (Nat.toDigits 10 n.toNat) n := by
  have hdigits : ∀ c ∈ Nat.toDigits 10 n.toNat, c.isDigit = true :=
    fun c hc => Nat.isDigit_of_mem_toDigits (by decide) (by decide) hc
  have h : IsNumber ([] ++ ([] ++ Nat.toDigits 10 n.toNat) ++ []) n :=
    .intro blanks_nil (.inl rfl) Nat.toDigits_ne_nil hdigits
      Nat.ofDigitChars_ten_toDigits blanks_nil
  simpa using h

theorem toList_displayBits (width : UInt32) (signed : Bool) : (displayBits width signed).toList =
    (bitsKeyword signed).toList ++ '<' :: Nat.toDigits 10 width.toNat ++ ['>'] := by
  simp [displayBits, toString, Nat.toList_repr]

theorem toList_display_varbits (width : UInt32) : (display (.varbits width)).toList =
    "varbit".toList ++ '<' :: Nat.toDigits 10 width.toNat ++ ['>'] := by
  simp [display, toString, Nat.toList_repr]

theorem toList_display_stack (element : TypeRef) (n : UInt32) :
    (display (.stack element n)).toList =
    element.display.toList ++ ('[' :: Nat.toDigits 10 n.toNat ++ [']']) := by
  simp [display, toString, Nat.toList_repr]

theorem isSized_toDigits (keyword : String) (n : UInt32) :
    IsSized keyword (keyword.toList ++ '<' :: Nat.toDigits 10 n.toNat ++ ['>']) n := by
  have h := @IsSized.intro keyword _ _ _ blanks_nil (isNumber_toDigits n)
  rwa [List.append_nil] at h

theorem core_display {ref : TypeRef} (h : ref.Legible) :
    Core ref.base ref.display.toList ref.sizes := by
  induction ref with
  | bool => exact .base .bool
  | bits width signed =>
    refine .base ?_
    rw [display, toList_displayBits]
    cases signed with
    | false => exact .bit (isSized_toDigits "bit" width)
    | true => exact .int (isSized_toDigits "int" width)
  | varbits width =>
    refine .base ?_
    rw [toList_display_varbits]
    exact .varbit (isSized_toDigits "varbit" width)
  | named name =>
    have hbase := IsBase.name h.1 fun heq => h.2 (String.toList_inj.mp heq)
    rw [String.ofList_toList] at hbase
    exact .base hbase
  | stack element n ih =>
    rw [toList_display_stack]
    exact .suffix (ih h) (.intro blanks_nil (isNumber_toDigits n))

theorem stacked_base_sizes (ref : TypeRef) : ref.base.stacked ref.sizes = ref := by
  induction ref with
  | stack element n ih =>
    have hsizes : (stack element n).sizes = element.sizes ++ [n] := rfl
    rw [hsizes, stacked_concat]
    exact congrArg (stack · n) ih
  | bool | bits | varbits | named => rfl

/-- A reference is read back from its canonical spelling. -/
theorem parse_display {ref : TypeRef} (h : ref.Legible) : parse ref.display = .ok ref := by
  have hwritten := Written.intro blanks_nil (core_display h) blanks_nil
  rw [List.nil_append, List.append_nil] at hwritten
  exact parse_eq_ok_iff.mpr ⟨ref.base, ref.sizes, hwritten, ref.stacked_base_sizes.symm⟩

/-- The character is no blank and no sign. -/
def Visible (c : Char) : Prop := isBlank c = false ∧ c ≠ '+'

theorem visible_of_isNamePart {c : Char} (h : isNamePart c = true) : Visible c := by
  refine ⟨isBlank_of_isNamePart h, ?_⟩
  rintro rfl
  exact absurd h (by decide)

theorem visible_toDigits (n : UInt32) : ∀ c ∈ Nat.toDigits 10 n.toNat, Visible c := by
  intro c hc
  have hdigit : c.isDigit = true := Nat.isDigit_of_mem_toDigits (by decide) (by decide) hc
  exact visible_of_isNamePart (by simp [isNamePart, Char.isAlphanum, hdigit])

theorem visible_enclosed {start stop : Char} (hstart : Visible start) (hstop : Visible stop)
    (n : UInt32) : ∀ c ∈ start :: Nat.toDigits 10 n.toNat ++ [stop], Visible c :=
  List.forall_mem_append.mpr ⟨List.forall_mem_cons.mpr ⟨hstart, visible_toDigits n⟩,
    List.forall_mem_singleton.mpr hstop⟩

/-- Nothing in a canonical spelling is blank, and no number has a sign. -/
theorem visible_display {ref : TypeRef} (h : ref.Legible) :
    ∀ c ∈ ref.display.toList, Visible c := by
  have hsized : ∀ {b : String × (UInt32 → TypeRef)}, b ∈ sizedBases → ∀ n : UInt32,
      ∀ c ∈ b.1.toList ++ '<' :: Nat.toDigits 10 n.toNat ++ ['>'], Visible c := by
    intro b hb n
    rw [List.append_assoc]
    exact List.forall_mem_append.mpr ⟨fun c hc =>
      visible_of_isNamePart (isNamePart_of_mem_keyword hb c hc),
      visible_enclosed ⟨by decide, by decide⟩ ⟨by decide, by decide⟩ n⟩
  induction ref with
  | bool => exact fun c hc => visible_of_isNamePart (isNamePart_of_mem (by decide) c hc)
  | bits width signed =>
    rw [display, toList_displayBits]
    cases signed with
    | false => exact hsized (b := ("bit", fun w => .bits w false)) (by simp [sizedBases]) width
    | true => exact hsized (b := ("int", fun w => .bits w true)) (by simp [sizedBases]) width
  | varbits width =>
    rw [toList_display_varbits]
    exact hsized (b := ("varbit", .varbits)) (by simp [sizedBases]) width
  | named name =>
    exact fun c hc => visible_of_isNamePart (isNamePart_of_mem (isIdentifier_iff.mpr h.1) c hc)
  | stack element n ih =>
    rw [toList_display_stack]
    exact List.forall_mem_append.mpr ⟨ih h,
      visible_enclosed ⟨by decide, by decide⟩ ⟨by decide, by decide⟩ n⟩

/-! ## From texts to references -/

/-- The second text is the first one without some of its blanks, plus signs and zeros. -/
inductive Drops : List Char → List Char → Prop
  | nil : Drops [] []
  | keep (c : Char) {s s' : List Char} (h : Drops s s') : Drops (c :: s) (c :: s')
  | drop {c : Char} {s s' : List Char} (hc : isBlank c = true ∨ c = '+' ∨ c = '0')
      (h : Drops s s') : Drops (c :: s) s'

theorem Drops.refl (s : List Char) : Drops s s := by
  induction s with
  | nil => exact .nil
  | cons c s ih => exact .keep c ih

theorem Drops.append {s s' r r' : List Char} (h : Drops s s') (h' : Drops r r') :
    Drops (s ++ r) (s' ++ r') := by
  induction h with
  | nil => exact h'
  | keep c _ ih => exact .keep c ih
  | drop hc _ ih => exact .drop hc ih

theorem drops_nil {s : List Char} (h : ∀ c ∈ s, isBlank c = true ∨ c = '+' ∨ c = '0') :
    Drops s [] := by
  induction s with
  | nil => exact .nil
  | cons c s ih =>
    exact .drop (h c List.mem_cons_self) (ih fun d hd => h d (List.mem_cons_of_mem c hd))

theorem drops_blanks {s : List Char} (h : Blanks s) : Drops s [] :=
  drops_nil fun c hc => .inl (h c hc)

theorem IsNumber.drops {s : List Char} {n : UInt32} (h : IsNumber s n) :
    Drops s (Nat.toDigits 10 n.toNat) := by
  obtain ⟨hbefore, hplus, hne, hdigits, hvalue, hbehind⟩ := h
  rename_i before plus digits behind
  obtain ⟨k, hzeros⟩ := exists_zeros_append_toDigits hne hdigits
  rw [hvalue] at hzeros
  have hsign : Drops plus [] := by
    rcases hplus with rfl | rfl
    · exact .nil
    · exact drops_nil (by simp)
  have hdropped : Drops digits (Nat.toDigits 10 n.toNat) := by
    have hzero : Drops (List.replicate k '0') [] :=
      drops_nil fun c hc => .inr (.inr (List.eq_of_mem_replicate hc))
    have h := hzero.append (.refl (Nat.toDigits 10 n.toNat))
    rwa [← hzeros, List.nil_append] at h
  have h := ((drops_blanks hbefore).append (hsign.append hdropped)).append (drops_blanks hbehind)
  simpa using h

theorem IsSized.drops {keyword : String} {s : List Char} {n : UInt32} (h : IsSized keyword s n) :
    Drops s (keyword.toList ++ '<' :: Nat.toDigits 10 n.toNat ++ ['>']) := by
  obtain ⟨hblanks, hnumber⟩ := h
  have hkeyword := (Drops.refl keyword.toList).append (drops_blanks hblanks)
  have h := (hkeyword.append (.keep '<' hnumber.drops)).append (.refl ['>'])
  rwa [List.append_nil] at h

theorem IsSuffix.drops {s : List Char} {n : UInt32} (h : IsSuffix s n) :
    Drops s ('[' :: Nat.toDigits 10 n.toNat ++ [']']) := by
  obtain ⟨hblanks, hnumber⟩ := h
  exact ((drops_blanks hblanks).append (.keep '[' hnumber.drops)).append (.refl [']'])

theorem IsBase.drops {s : List Char} {ref : TypeRef} (h : IsBase s ref) :
    Drops s ref.display.toList := by
  cases h with
  | bool => exact .refl _
  | @bit _ width h =>
    rw [display, toList_displayBits]
    exact h.drops
  | @int _ width h =>
    rw [display, toList_displayBits]
    exact h.drops
  | @varbit _ width h =>
    rw [toList_display_varbits]
    exact h.drops
  | name h hne =>
    rw [display, String.toList_ofList]
    exact .refl s

theorem Core.drops {base : TypeRef} {s : List Char} {ns : List UInt32} (h : Core base s ns) :
    Drops s (base.stacked ns).display.toList := by
  induction h with
  | base h => exact h.drops
  | suffix h hx ih =>
    rw [stacked_concat, toList_display_stack]
    exact ih.append hx.drops

theorem drops_display {text : String} {ref : TypeRef} (h : parse text = .ok ref) :
    Drops text.toList ref.display.toList := by
  obtain ⟨base, ns, hwritten, rfl⟩ := parse_eq_ok_iff.mp h
  generalize text.toList = s at hwritten
  obtain ⟨hbefore, hcore, hbehind⟩ := hwritten
  have h := ((drops_blanks hbefore).append hcore.drops).append (drops_blanks hbehind)
  rwa [List.nil_append, List.append_nil] at h

theorem Core.legible {base : TypeRef} {s : List Char} {ns : List UInt32} (h : Core base s ns) :
    (base.stacked ns).Legible := by
  induction h with
  | base h =>
    cases h with
    | bool | bit h | int h | varbit h => trivial
    | name h hne =>
      refine ⟨by rwa [String.toList_ofList], fun heq => hne ?_⟩
      rw [← heq, String.toList_ofList]
  | suffix h hx ih =>
    rw [stacked_concat]
    exact ih

theorem legible_of_parse {text : String} {ref : TypeRef} (h : parse text = .ok ref) :
    ref.Legible := by
  obtain ⟨base, ns, hwritten, rfl⟩ := parse_eq_ok_iff.mp h
  generalize text.toList = s at hwritten
  obtain ⟨-, hcore, -⟩ := hwritten
  exact hcore.legible

end WireTypes.TypeRef
