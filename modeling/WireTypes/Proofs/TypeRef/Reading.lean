import WireTypes.TypeRef.Parse

/-!
# References to names

A name is referred to by an identifier other than `bool`, with blanks around it and any number of
stack suffixes behind it (`Mentions`).  Such a text is read as a stack of stacks of that name, and
as nothing else (`base_of_mentions`).
-/

namespace WireTypes

theorem Text.splitAtLast_eq_none {c : Char} {s : List Char} (h : c ∉ s) :
    splitAtLast c s = none := by
  induction s with
  | nil => rfl
  | cons d s ih =>
    rw [List.mem_cons, not_or] at h
    unfold splitAtLast
    rw [ih h.2]
    exact if_neg (Ne.symm h.1)

theorem Text.splitAtLast_append {c : Char} {tail : List Char} (h : c ∉ tail) (before : List Char) :
    splitAtLast c (before ++ c :: tail) = some (before, tail) := by
  induction before with
  | nil =>
    rw [List.nil_append, splitAtLast, splitAtLast_eq_none h]
    exact if_pos rfl
  | cons d before ih => rw [List.cons_append, splitAtLast, ih]

namespace TypeRef

open Text

/-- The text is an identifier other than `bool`, with blanks around it. -/
def IsName (text name : String) : Prop :=
  trim text.toList = name.toList ∧ isIdentifier name.toList = true ∧ name ≠ "bool"

/-- The text is such an identifier, or has it before its suffixes. -/
inductive Mentions (name : String) : String → Prop
  | name {text : String} (h : IsName text name) : Mentions name text
  | suffix {text element : String} {size : List Char}
      (h : trim text.toList = element.toList ++ '[' :: size ++ [']']) (hsize : '[' ∉ size)
      (he : Mentions name element) : Mentions name text

/-- What is left without the stacks. -/
def base : TypeRef → TypeRef
  | .stack element _ => element.base
  | ref => ref

/-! ## Identifiers -/

theorem isNamePart_of_mem {s : List Char} (h : isIdentifier s = true) :
    ∀ c ∈ s, isNamePart c = true := by
  cases s with
  | nil => exact List.forall_mem_nil _
  | cons d s =>
    unfold isIdentifier at h
    rw [Bool.and_eq_true, List.all_eq_true] at h
    intro c hc
    rcases List.mem_cons.mp hc with rfl | hc
    · have hstart := h.1
      simp only [isNameStart, isNamePart, Char.isAlphanum, Bool.or_eq_true] at hstart ⊢
      exact hstart.imp_left .inl
    · exact h.2 c hc

theorem suffix?_of_isIdentifier {s : List Char} (h : isIdentifier s = true) : suffix? s = none := by
  unfold suffix?
  refine if_neg fun hlast => ?_
  have hpart := isNamePart_of_mem h ']' (List.mem_of_getLast? hlast)
  exact absurd hpart (by decide)

theorem argument?_of_isIdentifier {s : List Char} (h : isIdentifier s = true) (keyword : String) :
    argument? keyword s = none := by
  unfold argument?
  split
  · next body hbody =>
    -- no part of an identifier opens a bracket
    have hmem : '<' ∈ s := by
      obtain ⟨rest, hrest, htrim⟩ := Option.map_eq_some_iff.mp hbody
      unfold after? at hrest
      split at hrest
      · cases hrest
        have hdrop : '<' ∈ trimStart (s.drop keyword.toList.length) := by
          rw [htrim]
          exact List.mem_cons_self
        exact List.mem_of_mem_drop ((List.dropWhile_sublist _).subset hdrop)
      · cases hrest
    exact absurd (isNamePart_of_mem h '<' hmem) (by decide)
  · rfl

theorem base?_of_isIdentifier {s : List Char} (h : isIdentifier s = true) (hs : s ≠ "bool".toList) :
    base? s = some (.named (String.ofList s)) := by
  have hsized : sizedBases.findSome?
      (fun b => (argument? b.1 s).map fun body => (number? body).map b.2) = none := by
    rw [List.findSome?_eq_none_iff]
    intro b _
    rw [argument?_of_isIdentifier h]
    rfl
  unfold base?
  rw [if_neg hs, hsized]
  exact if_pos h

theorem parse_of_isName {text name : String} (h : IsName text name) :
    parse text = .ok (.named name) := by
  obtain ⟨htrim, hidentifier, hne⟩ := h
  have hsuffix : suffix? (trim text.toList) = none := by
    rw [htrim]
    exact suffix?_of_isIdentifier hidentifier
  have hbase : base? (trim text.toList) = some (.named name) := by
    rw [htrim, base?_of_isIdentifier hidentifier fun heq => hne (String.toList_inj.mp heq),
      String.ofList_toList]
  unfold parse
  rw [parseChars]
  split
  · rw [hbase]
    rfl
  · next hother =>
    rw [hsuffix] at hother
    cases hother
  · next hother =>
    rw [hsuffix] at hother
    cases hother

/-! ## Suffixes -/

theorem suffix?_append {size : List Char} (h : '[' ∉ size) (element : List Char) :
    suffix? (element ++ '[' :: size ++ [']']) = some (some (element, size)) := by
  unfold suffix?
  rw [if_pos List.getLast?_concat, List.dropLast_concat, splitAtLast_append h]

theorem parseChars_suffix {s element size : List Char}
    (h : suffix? (trim s) = some (some (element, size))) {ref : TypeRef}
    (hs : parseChars s = .ok ref) : ∃ e n, parseChars element = .ok e ∧ ref = .stack e n := by
  rw [parseChars] at hs
  split at hs
  · next hother => cases hother.symm.trans h
  · next hother => cases hother.symm.trans h
  · next hother =>
    cases hother.symm.trans h
    split at hs
    · cases hs
    · next n _ =>
      cases helement : parseChars element with
      | error part =>
        rw [helement] at hs
        cases hs
      | ok e =>
        rw [helement] at hs
        cases hs
        exact ⟨e, n, rfl, rfl⟩

theorem parseChars_of_parse {text : String} {ref : TypeRef} (h : parse text = .ok ref) :
    parseChars text.toList = .ok ref := by
  unfold parse at h
  cases hchars : parseChars text.toList with
  | error part =>
    rw [hchars] at h
    cases h
  | ok ref' =>
    rw [hchars] at h
    cases h
    rfl

theorem base_of_mentions {text name : String} (h : Mentions name text) : ∀ {ref : TypeRef},
    parse text = .ok ref → ref.base = .named name := by
  induction h with
  | name h =>
    intro ref href
    cases (parse_of_isName h).symm.trans href
    rfl
  | @suffix text element size h hsize _ ih =>
    intro ref href
    have hsuffix : suffix? (trim text.toList) = some (some (element.toList, size)) := by
      rw [h]
      exact suffix?_append hsize element.toList
    obtain ⟨e, n, helement, rfl⟩ := parseChars_suffix hsuffix (parseChars_of_parse href)
    have hparse : parse element = .ok e := by
      unfold parse
      rw [helement]
      rfl
    have hbase : e.base = .named name := ih hparse
    exact hbase

end TypeRef

end WireTypes
