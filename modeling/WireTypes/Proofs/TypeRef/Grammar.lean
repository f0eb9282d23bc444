import Mathlib.Data.List.Basic
import Mathlib.Data.List.Induction
import WireTypes.Proofs.Text.Blanks
import WireTypes.Proofs.Text.Digits
import WireTypes.Proofs.TypeRef.Reading

/-!
# The grammar of references

`Written text base sizes` says by rules what the text of a reference is: a base, behind it a suffix
for each of the `sizes`, and blanks around the whole.  The reader takes suffixes off from the right
and tests for keywords by their first characters; it accepts the texts that the rules allow, and no
others (`parse_eq_ok_iff`).

* `number?_eq_some_iff`, `base?_eq_some_iff`: numbers and bases;
* `parseChars_of_core`: what the rules allow is read, by adding suffixes at the end;
* `written_of_parseChars`: what is read is allowed, by following the reader.
-/

namespace WireTypes.TypeRef

open Text

/-! ## Rules -/

/-- An optional `+` and a row of digits, with blanks around them. -/
inductive IsNumber : List Char → UInt32 → Prop
  | intro {before plus digits behind : List Char} {n : UInt32} (hbefore : Blanks before)
      (hplus : plus = [] ∨ plus = ['+']) (hne : digits ≠ [])
      (hdigits : ∀ c ∈ digits, c.isDigit = true)
      (hvalue : Nat.ofDigitChars 10 digits 0 = n.toNat) (hbehind : Blanks behind) :
      IsNumber (before ++ (plus ++ digits) ++ behind) n

/-- A number between angle brackets, behind a keyword and blanks. -/
inductive IsSized (keyword : String) : List Char → UInt32 → Prop
  | intro {blanks number : List Char} {n : UInt32} (hblanks : Blanks blanks)
      (hnumber : IsNumber number n) :
      IsSized keyword (keyword.toList ++ blanks ++ '<' :: number ++ ['>']) n

/-- A letter or an underscore, then letters, digits and underscores. -/
inductive IsIdentifier : List Char → Prop
  | intro {c : Char} {s : List Char} (hstart : c.isAlpha = true ∨ c = '_')
      (hpart : ∀ d ∈ s, d.isAlphanum = true ∨ d = '_') : IsIdentifier (c :: s)

/-- What stands before the suffixes.  `bool` is no name. -/
inductive IsBase : List Char → TypeRef → Prop
  | bool : IsBase "bool".toList .bool
  | bit {s : List Char} {width : UInt32} (h : IsSized "bit" s width) : IsBase s (.bits width false)
  | int {s : List Char} {width : UInt32} (h : IsSized "int" s width) : IsBase s (.bits width true)
  | varbit {s : List Char} {width : UInt32} (h : IsSized "varbit" s width) :
      IsBase s (.varbits width)
  | name {s : List Char} (h : IsIdentifier s) (hne : s ≠ "bool".toList) :
      IsBase s (.named (String.ofList s))

/-- A number between square brackets, behind blanks. -/
inductive IsSuffix : List Char → UInt32 → Prop
  | intro {blanks number : List Char} {n : UInt32} (hblanks : Blanks blanks)
      (hnumber : IsNumber number n) :
      IsSuffix (blanks ++ '[' :: number ++ [']']) n

/-- A base and a suffix for each size. -/
inductive Core (base : TypeRef) : List Char → List UInt32 → Prop
  | base {s : List Char} (h : IsBase s base) : Core base s []
  | suffix {s x : List Char} {sizes : List UInt32} {n : UInt32} (h : Core base s sizes)
      (hx : IsSuffix x n) :
      Core base (s ++ x) (sizes ++ [n])

/-- A base and its suffixes, with blanks around them. -/
inductive Written : List Char → TypeRef → List UInt32 → Prop
  | intro {before core behind : List Char} {base : TypeRef} {sizes : List UInt32}
      (hbefore : Blanks before) (hcore : Core base core sizes) (hbehind : Blanks behind) :
      Written (before ++ core ++ behind) base sizes

/-- One stack for each size, the first one innermost. -/
def stacked (base : TypeRef) (sizes : List UInt32) : TypeRef := sizes.foldl .stack base

theorem stacked_concat (base : TypeRef) (sizes : List UInt32) (n : UInt32) :
    base.stacked (sizes ++ [n]) = .stack (base.stacked sizes) n := List.foldl_concat ..

/-! ## Characters -/

theorem isBlank_of_isDigit {c : Char} (h : c.isDigit = true) : isBlank c = false := by
  obtain ⟨hmin, hmax⟩ := toNat_of_isDigit h
  exact isBlank_of_printing (by omega) (by omega)

theorem isBlank_of_isUpper {c : Char} (h : c.isUpper = true) : isBlank c = false := by
  have hbounds : 65 ≤ c.toNat ∧ c.toNat ≤ 90 := of_decide_eq_true h
  exact isBlank_of_printing (by omega) (by omega)

theorem isBlank_of_isLower {c : Char} (h : c.isLower = true) : isBlank c = false := by
  obtain ⟨hmin, hmax⟩ := Bool.and_eq_true_iff.mp h
  have hmin : 97 ≤ c.toNat := of_decide_eq_true hmin
  have hmax : c.toNat ≤ 122 := of_decide_eq_true hmax
  exact isBlank_of_printing (by omega) (by omega)

theorem isBlank_of_isNamePart {c : Char} (h : isNamePart c = true) : isBlank c = false := by
  rcases Bool.or_eq_true_iff.mp h with h | h
  · rcases Bool.or_eq_true_iff.mp h with h | h
    · rcases Bool.or_eq_true_iff.mp h with h | h
      · exact isBlank_of_isUpper h
      · exact isBlank_of_isLower h
    · exact isBlank_of_isDigit h
  · obtain rfl := eq_of_beq h
    decide

theorem isIdentifier_iff {s : List Char} : isIdentifier s = true ↔ IsIdentifier s := by
  constructor
  · intro h
    cases s with
    | nil => cases h
    | cons c s =>
      simp only [isIdentifier, isNameStart, isNamePart, Bool.and_eq_true, Bool.or_eq_true,
        beq_iff_eq, List.all_eq_true] at h
      exact .intro h.1 h.2
  · rintro ⟨hstart, hpart⟩
    simp only [isIdentifier, isNameStart, isNamePart, Bool.and_eq_true, Bool.or_eq_true, beq_iff_eq,
      List.all_eq_true]
    exact ⟨hstart, hpart⟩

/-! ## Numbers -/

theorem solid_number {plus digits : List Char} (hplus : plus = [] ∨ plus = ['+'])
    (hne : digits ≠ []) (hdigits : ∀ c ∈ digits, c.isDigit = true) : Solid (plus ++ digits) where
  ne_nil := List.append_ne_nil_of_right_ne_nil plus hne
  head c hc := by
    rcases hplus with rfl | rfl
    · exact isBlank_of_isDigit (hdigits c (List.mem_of_head? hc))
    · cases hc
      decide
  last c hc := by
    rw [List.getLast?_append_of_ne_nil plus hne] at hc
    exact isBlank_of_isDigit (hdigits c (List.mem_of_getLast? hc))

theorem number?_eq_some_iff {s : List Char} {n : UInt32} : number? s = some n ↔ IsNumber s n := by
  unfold number?
  rw [Option.map_eq_some_iff]
  constructor
  · rintro ⟨v, hv, rfl⟩
    obtain ⟨hnumeral, hlt⟩ := numeral?_eq_some_iff.mp hv
    obtain ⟨before, behind, hbefore, hbehind, hs⟩ := exists_blanks_trim s
    generalize trim s = core at hnumeral hs
    obtain ⟨hplus, hne, hdigits⟩ := hnumeral
    rw [hs]
    refine .intro hbefore hplus hne hdigits ?_ hbehind
    rw [UInt32.toNat_ofNat_of_lt' hlt]
  · rintro ⟨hbefore, hplus, hne, hdigits, hvalue, hbehind⟩
    refine ⟨n.toNat, ?_, UInt32.ofNat_toNat⟩
    rw [trim_eq_of_solid hbefore (solid_number hplus hne hdigits) hbehind,
      numeral?_eq_some_iff, ← hvalue]
    exact ⟨.intro hplus hne hdigits, hvalue ▸ n.toNat_lt⟩

theorem IsNumber.not_mem {s : List Char} {n : UInt32} (h : IsNumber s n) : '[' ∉ s := by
  intro hmem
  obtain ⟨hbefore, hplus, -, hdigits, -, hbehind⟩ := h
  rcases List.mem_append.mp hmem with hmem | hmem
  · rcases List.mem_append.mp hmem with hmem | hmem
    · exact absurd (hbefore _ hmem) (by decide)
    · rcases List.mem_append.mp hmem with hmem | hmem
      · rcases hplus with rfl | rfl
        · cases hmem
        · exact absurd hmem (by decide)
      · exact absurd (hdigits _ hmem) (by decide)
  · exact absurd (hbehind _ hmem) (by decide)

/-! ## Bases -/

theorem argument?_eq_some_iff {keyword : String} {s body : List Char} :
    argument? keyword s = some body ↔
    ∃ blanks, Blanks blanks ∧ s = keyword.toList ++ blanks ++ '<' :: body ++ ['>'] := by
  constructor
  · intro h
    unfold argument? at h
    split at h
    · next inner hinner =>
      obtain ⟨rest, hrest, htrim⟩ := Option.map_eq_some_iff.mp hinner
      obtain ⟨blanks, hblanks, hstart⟩ := exists_blanks_trimStart rest
      obtain ⟨hlast, hbody⟩ := Option.ite_none_right_eq_some.mp h
      obtain rfl := Option.some.inj hbody
      have hinner : inner = inner.dropLast ++ ['>'] := (List.dropLast_append_getLast? _ hlast).symm
      refine ⟨blanks, hblanks, ?_⟩
      rw [after?_eq_some_iff.mp hrest, hstart, htrim, List.append_assoc, List.append_assoc,
        List.cons_append, ← hinner]
    · cases h
  · rintro ⟨blanks, hblanks, rfl⟩
    have hafter : after? keyword.toList (keyword.toList ++ blanks ++ '<' :: body ++ ['>']) =
        some (blanks ++ '<' :: (body ++ ['>'])) := after?_eq_some_iff.mpr (by simp)
    have htrim : trimStart (blanks ++ '<' :: (body ++ ['>'])) = '<' :: (body ++ ['>']) := by
      rw [trimStart_append hblanks]
      refine trimStart_eq_self fun c hc => ?_
      cases hc
      decide
    unfold argument?
    rw [hafter, Option.map_some, htrim]
    show (if (body ++ ['>']).getLast? = some '>' then _ else _) = _
    rw [if_pos List.getLast?_concat, List.dropLast_concat]

theorem isSized_iff {keyword : String} {s : List Char} {n : UInt32} :
    IsSized keyword s n ↔ ∃ body, argument? keyword s = some body ∧ number? body = some n := by
  constructor
  · rintro ⟨hblanks, hnumber⟩
    exact ⟨_, argument?_eq_some_iff.mpr ⟨_, hblanks, rfl⟩, number?_eq_some_iff.mpr hnumber⟩
  · rintro ⟨body, hbody, hn⟩
    obtain ⟨blanks, hblanks, rfl⟩ := argument?_eq_some_iff.mp hbody
    exact .intro hblanks (number?_eq_some_iff.mp hn)

theorem isNamePart_of_mem_keyword {b : String × (UInt32 → TypeRef)} (hb : b ∈ sizedBases) :
    ∀ c ∈ b.1.toList, isNamePart c = true := by
  simp only [sizedBases, List.mem_cons, List.not_mem_nil, or_false] at hb
  rcases hb with rfl | rfl | rfl <;> exact List.all_eq_true.mp (by decide)

/-- The keyword is all of the name that the text begins with. -/
theorem takeWhile_of_argument? {b : String × (UInt32 → TypeRef)} (hb : b ∈ sizedBases)
    {s body : List Char} (h : argument? b.1 s = some body) :
    s.takeWhile isNamePart = b.1.toList := by
  obtain ⟨blanks, hblanks, rfl⟩ := argument?_eq_some_iff.mp h
  have hrest : (blanks ++ '<' :: body ++ ['>']).takeWhile isNamePart = [] := by
    cases blanks with
    | nil => exact List.takeWhile_cons_of_neg (by decide)
    | cons c blanks =>
      have hblank : isBlank c = true := hblanks c List.mem_cons_self
      refine List.takeWhile_cons_of_neg fun hpart => ?_
      rw [isBlank_of_isNamePart hpart] at hblank
      cases hblank
  rw [List.append_assoc, List.append_assoc,
    List.takeWhile_append_of_pos (isNamePart_of_mem_keyword hb), ← List.append_assoc, hrest,
    List.append_nil]

theorem base?_of_argument? {b : String × (UInt32 → TypeRef)} (hb : b ∈ sizedBases)
    {s body : List Char} (h : argument? b.1 s = some body) : base? s = (number? body).map b.2 := by
  have hword := takeWhile_of_argument? hb h
  have hother : ∀ b' ∈ sizedBases, b'.1 ≠ b.1 → argument? b'.1 s = none := by
    intro b' hb' hne
    refine Option.eq_none_iff_forall_ne_some.mpr fun body' h' => hne ?_
    exact String.toList_inj.mp ((takeWhile_of_argument? hb' h').symm.trans hword)
  have hbool : s ≠ "bool".toList := by
    rintro rfl
    obtain ⟨blanks, -, hform⟩ := argument?_eq_some_iff.mp h
    have hbracket : '<' ∈ "bool".toList := by
      rw [hform]
      simp
    exact absurd hbracket (by decide)
  have hfound : sizedBases.findSome?
      (fun b => (argument? b.1 s).map fun body => (number? body).map b.2) =
      some ((number? body).map b.2) := by
    -- the keywords before this one are tried first
    have hbit := hother ("bit", fun w => .bits w false) (by simp [sizedBases])
    have hint := hother ("int", fun w => .bits w true) (by simp [sizedBases])
    simp only [sizedBases, List.mem_cons, List.not_mem_nil, or_false] at hb
    rcases hb with rfl | rfl | rfl
    · simp [sizedBases, h]
    · simp [sizedBases, h, hbit]
    · simp [sizedBases, h, hbit, hint]
  unfold base?
  rw [if_neg hbool, hfound]

theorem base?_of_isSized {b : String × (UInt32 → TypeRef)} (hb : b ∈ sizedBases)
    {s : List Char} {n : UInt32} (h : IsSized b.1 s n) : base? s = some (b.2 n) := by
  obtain ⟨body, hbody, hn⟩ := isSized_iff.mp h
  rw [base?_of_argument? hb hbody, hn]
  rfl

theorem base?_eq_some_iff {s : List Char} {ref : TypeRef} : base? s = some ref ↔ IsBase s ref := by
  constructor
  · intro h
    unfold base? at h
    split at h
    · next hbool =>
      cases h
      rw [hbool]
      exact .bool
    · next hbool =>
      split at h
      · next sized hsized =>
        obtain ⟨b, hb, hfound⟩ := List.exists_of_findSome?_eq_some hsized
        obtain ⟨body, hbody, rfl⟩ := Option.map_eq_some_iff.mp hfound
        obtain ⟨n, hn, rfl⟩ := Option.map_eq_some_iff.mp h
        have hform := isSized_iff.mpr ⟨body, hbody, hn⟩
        simp only [sizedBases, List.mem_cons, List.not_mem_nil, or_false] at hb
        rcases hb with rfl | rfl | rfl
        · exact .bit hform
        · exact .int hform
        · exact .varbit hform
      · obtain ⟨hname, href⟩ := Option.ite_none_right_eq_some.mp h
        obtain rfl := Option.some.inj href
        exact .name (isIdentifier_iff.mp hname) hbool
  · intro h
    cases h with
    | bool => rfl
    | bit h =>
      exact base?_of_isSized (b := ("bit", fun w => .bits w false)) (by simp [sizedBases]) h
    | int h => exact base?_of_isSized (b := ("int", fun w => .bits w true)) (by simp [sizedBases]) h
    | varbit h => exact base?_of_isSized (b := ("varbit", .varbits)) (by simp [sizedBases]) h
    | name h hne => exact base?_of_isIdentifier (isIdentifier_iff.mpr h) hne

/-! ## Suffixes -/

theorem solid_of_isIdentifier {s : List Char} (h : IsIdentifier s) : Solid s := by
  have hblank : ∀ c ∈ s, isBlank c = false :=
    fun c hc => isBlank_of_isNamePart (isNamePart_of_mem (isIdentifier_iff.mpr h) c hc)
  refine ⟨?_, fun c hc => hblank c (List.mem_of_head? hc),
    fun c hc => hblank c (List.mem_of_getLast? hc)⟩
  rintro rfl
  cases h

theorem solid_of_isSized {b : String × (UInt32 → TypeRef)} (hb : b ∈ sizedBases)
    {s : List Char} {n : UInt32} (h : IsSized b.1 s n) : Solid s := by
  obtain ⟨hblanks, -⟩ := h
  refine ⟨by simp, fun c hc => ?_, fun c hc => ?_⟩
  · have hkeyword := isNamePart_of_mem_keyword hb
    simp only [sizedBases, List.mem_cons, List.not_mem_nil, or_false] at hb
    refine isBlank_of_isNamePart (hkeyword c ?_)
    rcases hb with rfl | rfl | rfl <;> cases hc <;> decide
  · rw [List.getLast?_concat] at hc
    cases hc
    decide

theorem IsBase.solid {s : List Char} {ref : TypeRef} (h : IsBase s ref) : Solid s := by
  cases h with
  | bool => exact solid_of_isIdentifier (isIdentifier_iff.mp (by decide))
  | bit h => exact solid_of_isSized (b := ("bit", fun w => .bits w false)) (by simp [sizedBases]) h
  | int h => exact solid_of_isSized (b := ("int", fun w => .bits w true)) (by simp [sizedBases]) h
  | varbit h => exact solid_of_isSized (b := ("varbit", .varbits)) (by simp [sizedBases]) h
  | name h _ => exact solid_of_isIdentifier h

/-- A base does not end like a suffix. -/
theorem IsBase.suffix? {s : List Char} {ref : TypeRef} (h : IsBase s ref) :
    TypeRef.suffix? s = none := by
  have hsized : ∀ {keyword : String} {n : UInt32}, IsSized keyword s n →
      TypeRef.suffix? s = none := by
    rintro keyword n ⟨-, -⟩
    refine if_neg fun hlast => ?_
    rw [List.getLast?_concat] at hlast
    exact absurd (Option.some.inj hlast) (by decide)
  cases h with
  | bool => rfl
  | bit h | int h | varbit h => exact hsized h
  | name h _ => exact suffix?_of_isIdentifier (isIdentifier_iff.mpr h)

theorem Core.solid {base : TypeRef} {s : List Char} {sizes : List UInt32} (h : Core base s sizes) :
    Solid s := by
  induction h with
  | base h => exact h.solid
  | @suffix s x sizes n h hx ih =>
    obtain ⟨hblanks, -⟩ := hx
    refine ⟨List.append_ne_nil_of_left_ne_nil ih.ne_nil _, fun c hc => ih.head c ?_, fun c hc => ?_⟩
    · rwa [List.head?_append, Option.or_of_isSome (by simpa using ih.ne_nil)] at hc
    · rw [← List.append_assoc, List.getLast?_concat] at hc
      cases hc
      decide

/-! ## References -/

theorem parseChars_of_base {s : List Char} (h : suffix? (trim s) = none) :
    parseChars s = (base? (trim s)).elim (.error s) .ok := by
  rw [parseChars]
  split
  · rfl
  · next hother => cases h.symm.trans hother
  · next hother => cases h.symm.trans hother

theorem parseChars_of_open {s : List Char} (h : suffix? (trim s) = some none) :
    parseChars s = .error s := by
  rw [parseChars]
  split
  · next hother => cases h.symm.trans hother
  · rfl
  · next hother => cases h.symm.trans hother

theorem parseChars_of_suffix {s element size : List Char}
    (h : suffix? (trim s) = some (some (element, size))) :
    parseChars s = (number? size).elim (.error s) fun n =>
      (parseChars element).map (.stack · n) := by
  rw [parseChars]
  split
  · next hother => cases h.symm.trans hother
  · next hother => cases h.symm.trans hother
  · next hother =>
    cases h.symm.trans hother
    cases number? size <;> rfl

/-- What the rules allow is read. -/
theorem parseChars_of_core {base : TypeRef} {core : List Char} {sizes : List UInt32}
    (h : Core base core sizes) :
    ∀ {before behind : List Char}, Blanks before → Blanks behind →
      parseChars (before ++ core ++ behind) = .ok (base.stacked sizes) := by
  induction h with
  | base h =>
    intro before behind hbefore hbehind
    have htrim := trim_eq_of_solid hbefore h.solid hbehind
    rw [parseChars_of_base (by rw [htrim, h.suffix?]), htrim, base?_eq_some_iff.mpr h]
    rfl
  | @suffix s x sizes n h hx ih =>
    intro before behind hbefore hbehind
    have htrim := trim_eq_of_solid hbefore (Core.suffix h hx).solid hbehind
    obtain ⟨hblanks, hnumber⟩ := hx
    rename_i blanks number
    have hsuffix : suffix? (trim (before ++ (s ++ (blanks ++ '[' :: number ++ [']'])) ++ behind)) =
        some (some (s ++ blanks, number)) := by
      rw [htrim, ← suffix?_append hnumber.not_mem]
      simp
    have helement : parseChars (s ++ blanks) = .ok (base.stacked sizes) := ih blanks_nil hblanks
    rw [parseChars_of_suffix hsuffix, number?_eq_some_iff.mpr hnumber, helement, stacked_concat]
    rfl

theorem eq_of_suffix? {s element size : List Char} (h : suffix? s = some (some (element, size))) :
    s = element ++ '[' :: size ++ [']'] := by
  unfold suffix? at h
  obtain ⟨hlast, hsplit⟩ := Option.ite_none_right_eq_some.mp h
  rw [← List.dropLast_append_getLast? _ hlast, eq_append_of_splitAtLast (Option.some.inj hsplit)]

/-- What is read is allowed.  Blanks that are left before a suffix belong to it. -/
theorem written_of_parseChars (s : List Char) : ∀ {ref : TypeRef}, parseChars s = .ok ref →
    ∃ base sizes, Written s base sizes ∧ ref = base.stacked sizes := by
  induction s using parseChars.induct with
  | case1 s h =>
    intro ref href
    rw [parseChars_of_base h] at href
    cases hbase : base? (trim s) with
    | none =>
      rw [hbase] at href
      cases href
    | some base =>
      rw [hbase] at href
      cases href
      obtain ⟨before, behind, hbefore, hbehind, hs⟩ := exists_blanks_trim s
      rw [hs]
      exact ⟨ref, [], .intro hbefore (.base (base?_eq_some_iff.mp hbase)) hbehind, rfl⟩
  | case2 s h =>
    intro ref href
    rw [parseChars_of_open h] at href
    cases href
  | case3 s element size h hsize =>
    intro ref href
    rw [parseChars_of_suffix h, hsize] at href
    cases href
  | case4 s element size h n hsize ih =>
    intro ref href
    rw [parseChars_of_suffix h, hsize] at href
    cases helement : parseChars element with
    | error part =>
      rw [helement] at href
      cases href
    | ok e =>
      rw [helement] at href
      cases href
      obtain ⟨base, sizes, ⟨hinner, hcore, hblanks⟩, rfl⟩ := ih helement
      rename_i inner core blanks
      obtain ⟨before, behind, hbefore, hbehind, hs⟩ := exists_blanks_trim s
      have htext : s = (before ++ inner) ++
          (core ++ (blanks ++ '[' :: size ++ [']'])) ++ behind := by
        rw [hs, eq_of_suffix? h]
        simp
      have hsuffix : IsSuffix (blanks ++ '[' :: size ++ [']']) n :=
        .intro hblanks (number?_eq_some_iff.mp hsize)
      rw [htext]
      exact ⟨base, sizes ++ [n], .intro (hbefore.append hinner) (.suffix hcore hsuffix) hbehind,
        (stacked_concat base sizes n).symm⟩

theorem parseChars_of_written {s : List Char} {base : TypeRef} {sizes : List UInt32}
    (h : Written s base sizes) : parseChars s = .ok (base.stacked sizes) := by
  obtain ⟨hbefore, hcore, hbehind⟩ := h
  exact parseChars_of_core hcore hbefore hbehind

theorem parse_eq_ok_iff {text : String} {ref : TypeRef} : parse text = .ok ref ↔
    ∃ base sizes, Written text.toList base sizes ∧ ref = base.stacked sizes := by
  constructor
  · intro h
    exact written_of_parseChars _ (parseChars_of_parse h)
  · rintro ⟨base, sizes, h, rfl⟩
    unfold parse
    rw [parseChars_of_written h]
    rfl

/-! ## One reading -/

/-- The sizes of the stacks, from the innermost outwards. -/
def sizes : TypeRef → List UInt32
  | .stack element n => element.sizes ++ [n]
  | _ => []

theorem base_stacked (ref : TypeRef) (ns : List UInt32) : (ref.stacked ns).base = ref.base := by
  induction ns using List.reverseRecOn with
  | nil => rfl
  | append_singleton ns n ih =>
    rw [stacked_concat]
    exact ih

theorem sizes_stacked (ref : TypeRef) (ns : List UInt32) :
    (ref.stacked ns).sizes = ref.sizes ++ ns := by
  induction ns using List.reverseRecOn with
  | nil => exact (List.append_nil _).symm
  | append_singleton ns n ih =>
    rw [stacked_concat, ← List.append_assoc, ← ih]
    rfl

theorem Core.base_eq {base : TypeRef} {s : List Char} {ns : List UInt32} (h : Core base s ns) :
    base.base = base ∧ base.sizes = [] := by
  induction h with
  | base h => cases h <;> exact ⟨rfl, rfl⟩
  | suffix _ _ ih => exact ih

theorem Written.base_eq {s : List Char} {base : TypeRef} {ns : List UInt32}
    (h : Written s base ns) : base.base = base ∧ base.sizes = [] := by
  obtain ⟨-, hcore, -⟩ := h
  exact hcore.base_eq

theorem Written.unique {s : List Char} {base base' : TypeRef} {ns ns' : List UInt32}
    (h : Written s base ns) (h' : Written s base' ns') : base = base' ∧ ns = ns' := by
  have hsame : base.stacked ns = base'.stacked ns' :=
    Except.ok.inj ((parseChars_of_written h).symm.trans (parseChars_of_written h'))
  obtain ⟨hbase, hsizes⟩ := h.base_eq
  obtain ⟨hbase', hsizes'⟩ := h'.base_eq
  constructor
  · rw [← hbase, ← base_stacked base ns, hsame, base_stacked, hbase']
  · have h := congrArg sizes hsame
    rwa [sizes_stacked, sizes_stacked, hsizes, hsizes', List.nil_append, List.nil_append] at h

end WireTypes.TypeRef
