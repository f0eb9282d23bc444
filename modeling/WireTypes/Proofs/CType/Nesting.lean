import WireTypes.Proofs.CType.Zero
import WireTypes.Proofs.Lower.Rules
import WireTypes.Proofs.Text.Digits

/-!
# Declarations and zero values of nested arrays

A C declaration gives the sizes of an array of arrays from the outside in, and so does its
initialiser: one brace list for the outermost size, one list in it for each entry.  `dimensions`
lists what a type needs.

* `declare_eq`: a declaration gives the sizes from the inside out;
* `brackets_injective`: the text tells the sizes and their order apart;
* `declare_brackets_iff`: so a declaration and the brace lists agree exactly if the sizes read the
  same both ways.
-/

namespace WireTypes

namespace CType

/-- The sizes, each in brackets. -/
def brackets (sizes : List UInt32) : String := String.join (sizes.map bracket)

/-- The bytes of the innermost element, if no integer holds it. -/
def byteSizes : CType → List UInt32
  | .scalar width _ => if 64 < width then [byteCount width] else []
  | .stack element _ _ => element.byteSizes
  | .named _ _ canonical => canonical.byteSizes
  | _ => []

/-- Every size that the C type of an identifier takes, the outermost first. -/
def dimensions (c : CType) : List UInt32 := c.stackSizes ++ c.byteSizes

/-- What a declaration puts before the identifier. -/
def specifier : CType → String
  | .bool => byteType
  | .scalar width signed => if 64 < width then byteType else scalarToken width signed
  | .header name _ _ => "struct" ++ " " ++ name
  | .aggregate form name _ _ _ => form.keyword ++ " " ++ name
  | .enum name _ _ => "enum" ++ " " ++ name
  | .stack element _ _ => element.specifier
  | .named _ _ canonical => canonical.specifier

/-! ## Brackets -/

theorem brackets_nil : brackets [] = "" := String.join_nil

theorem brackets_concat (sizes : List UInt32) (size : UInt32) :
    brackets (sizes ++ [size]) = brackets sizes ++ bracket size := by
  unfold brackets
  rw [List.map_append, String.join_append]
  simp

theorem append_bracket {text front : String} {sizes : List UInt32}
    (h : text = front ++ brackets sizes) (size : UInt32) :
    text ++ bracket size = front ++ brackets (sizes ++ [size]) := by
  rw [brackets_concat, ← String.append_assoc, h]

theorem toList_brackets_cons (size : UInt32) (sizes : List UInt32) :
    (brackets (size :: sizes)).toList =
      '[' :: (Nat.toDigits 10 size.toNat ++ ']' :: (brackets sizes).toList) := by
  unfold brackets bracket
  simp [toString, Nat.toList_repr]

/-- Different sizes, or an order that differs, make a different text. -/
theorem brackets_injective {ss ts : List UInt32} (h : brackets ss = brackets ts) : ss = ts := by
  induction ss generalizing ts with
  | nil =>
    cases ts with
    | nil => rfl
    | cons t ts =>
      have h := congrArg String.toList h
      rw [toList_brackets_cons, brackets_nil] at h
      cases h
  | cons s ss ih =>
    cases ts with
    | nil =>
      have h := congrArg String.toList h
      rw [toList_brackets_cons, brackets_nil] at h
      cases h
    | cons t ts =>
      have h := congrArg String.toList h
      rw [toList_brackets_cons, toList_brackets_cons] at h
      obtain ⟨hsize, hrest⟩ := toDigits_append_inj (by decide) (List.cons.inj h).2
      rw [UInt32.toNat_inj.mp hsize, ih (String.toList_inj.mp hrest)]

/-! ## Declarations -/

theorem ofBits_eq_bytes {width count : UInt32} :
    Storage.ofBits width = .bytes count ↔ 64 < width ∧ byteCount width = count := by
  have hnarrow : ∀ n : UInt32, n ≤ 64 → width ≤ n → ¬ 64 < width :=
    fun n hn hw => UInt32.not_lt.mpr (UInt32.le_trans hw hn)
  unfold Storage.ofBits
  split
  · next h => simp [hnarrow 8 (by decide) h]
  split
  · next h => simp [hnarrow 16 (by decide) h]
  split
  · next h => simp [hnarrow 32 (by decide) h]
  split
  · next h => simp [hnarrow 64 (by decide) h]
  · next h => simp [UInt32.not_le.mp h]

theorem declareScalar_eq (width : UInt32) (signed : Bool) (id : String) :
    declareScalar width signed id =
      (scalar width signed).specifier ++ " " ++ id ++
        brackets (scalar width signed).dimensions.reverse := by
  unfold declareScalar specifier dimensions stackSizes byteSizes
  cases hs : Storage.ofBits width with
  | bytes count =>
    obtain ⟨hwide, rfl⟩ := ofBits_eq_bytes.mp hs
    simp [hwide, brackets, toString]
  | u8 | u16 | u32 | u64 =>
    have hnarrow : ¬ 64 < width := by
      intro hwide
      rw [ofBits_eq_bytes.mpr ⟨hwide, rfl⟩] at hs
      cases hs
    simp [hnarrow, brackets, toString]

theorem declareTagged_eq (keyword tag id : String) :
    declareTagged keyword tag id = keyword ++ " " ++ tag ++ " " ++ id ++ brackets [] := by
  simp [declareTagged, brackets_nil, toString]

mutual

/-- A declaration gives the sizes from the inside out. -/
theorem declare_eq {c : CType} {id text : String} (h : c.declare id = .ok text) :
    text = c.specifier ++ " " ++ id ++ brackets c.dimensions.reverse := by
  cases c with
  | bool =>
    cases h
    simp [specifier, dimensions, stackSizes, byteSizes, brackets_nil, toString]
  | scalar width signed =>
    cases h
    exact declareScalar_eq width signed id
  | header name width span =>
    cases h
    exact declareTagged_eq "struct" name id
  | aggregate form name span members lossy =>
    cases h
    exact declareTagged_eq form.keyword name id
  | enum name members span =>
    cases h
    exact declareTagged_eq "enum" name id
  | stack element extent size =>
    -- the size comes first among the dimensions, but last in the text
    have hreverse : (stack element extent size).dimensions.reverse =
        element.dimensions.reverse ++ [size] :=
      List.reverse_cons
    rw [hreverse]
    exact declareArray_eq (c := element) h
  | named name span canonical => exact declare_eq (c := canonical) h

theorem declareArray_eq {c : CType} {id text : String} {size : UInt32}
    (h : c.declareArray id size = .ok text) :
    text = c.specifier ++ " " ++ id ++ brackets (c.dimensions.reverse ++ [size]) := by
  cases c with
  | bool | scalar | enum | stack => cases h
  | header name width span =>
    cases h
    exact append_bracket (declareTagged_eq "struct" name id) size
  | aggregate form name span members lossy =>
    cases h
    exact append_bracket (declareTagged_eq form.keyword name id) size
  | named name span canonical =>
    have h' : (canonical.declare id).map (· ++ bracket size) = .ok text := h
    cases hc : canonical.declare id with
    | error e =>
      rw [hc] at h'
      cases h'
    | ok inner =>
      rw [hc] at h'
      cases h'
      exact append_bracket (declare_eq (c := canonical) hc) size

end

/-! ## Agreement -/

/-- **Declarations turn nested arrays inside out.**  A declaration gives the sizes from the
inside out; it gives them as C reads them exactly if they read the same both ways.  The
initialiser has them in the order of C: at each depth its brace lists have as many entries as
the size there tells. -/
theorem declare_brackets_iff {c : CType} {id text : String} (h : c.declare id = .ok text) :
    text = c.specifier ++ " " ++ id ++ brackets c.dimensions.reverse ∧
    (text = c.specifier ++ " " ++ id ++ brackets c.dimensions ↔
      c.dimensions.reverse = c.dimensions) ∧
    (∀ w, c.emitZero w = c.zero.write w) ∧
    ∀ k, ∀ entries ∈ c.zero.lists k, ∃ size, c.dimensions[k]? = some size ∧
      entries.length = size.toNat := by
  have htext := declare_eq h
  refine ⟨htext, ⟨?_, ?_⟩, c.emitZero_eq_write, ?_⟩
  · intro hclaim
    rw [htext, String.append_right_inj] at hclaim
    exact brackets_injective hclaim
  · intro hsame
    rw [htext, hsame]
  · intro k entries hentries
    obtain ⟨size, hsize, hlength⟩ := length_of_mem_lists hentries
    refine ⟨size, ?_, hlength⟩
    obtain ⟨hk, -⟩ := List.getElem?_eq_some_iff.mp hsize
    rw [dimensions, List.getElem?_append_left hk, hsize]

/-- Three pairs of headers, the pairs under a name of their own. -/
def threePairs : CType :=
  .stack (.named "pair_t" .dummy (.stack (.named "h_t" .dummy (.header "h_t" 8 .dummy)) ⟨8, 8⟩ 2))
    ⟨16, 16⟩ 3

/-- Their declaration makes them two triples. -/
theorem declare_brackets_threePairs : threePairs.declare "v" = .ok "struct h_t v[2][3]" ∧
    threePairs.dimensions = [3, 2] ∧
    "struct h_t v[2][3]" ≠ threePairs.specifier ++ " " ++ "v" ++
      brackets threePairs.dimensions := by
  have hdeclare : threePairs.declare "v" = .ok "struct h_t v[2][3]" := rfl
  refine ⟨hdeclare, rfl, fun hclaim => ?_⟩
  have hsame := (declare_brackets_iff hdeclare).2.1.mp hclaim
  exact absurd hsame (by decide)

end CType

namespace TypeTable

def pairs : TypeTable :=
  let s := "pair_t"
  let t := (Growth.alloc (.bits 8 false) .dummy).grow ∅
  let t := (Growth.declareHeader "h_t" [("x", 0)]).grow t
  let t := (Growth.allocNamed "h_t" .dummy).grow t
  let t := (Growth.alloc (.stack 2 2) .dummy).grow t
  let t := (Growth.declareTypedef s 3).grow t
  let t := (Growth.allocNamed s .dummy).grow t
  (Growth.alloc (.stack 4 3) .dummy).grow t

theorem built_pairs : pairs.Built := by
  refine .alloc_stack (.grow (.grow (.alloc_stack (.grow (.grow (built_single .dummy rfl rfl)
    (.declareHeader "h_t" [("x", 0)]) ?_) (.allocNamed "h_t" .dummy) trivial) 2 .dummy ?_)
      (.declareTypedef _ 3) ?_)
    (.allocNamed _ .dummy) trivial) 3 .dummy ?_
  · intro f hf
    obtain rfl := List.mem_singleton.mp hf
    decide
  · exact (by decide : 2 < 3)
  · exact (by decide : 3 < 4)
  · exact (by decide : 4 < 5)

theorem lower_pairs_header (path : List Name) :
    pairs.lower path 1 = .ok (.header "h_t" 8 .dummy) := by
  have hk : pairs.kind 1 = .header ⟨7⟩ [⟨⟨8⟩, 0, .dummy⟩] := by decide +kernel
  have hspelling : pairs.spelling ⟨7⟩ = "h_t" := by decide +kernel
  have hfield : pairs.headerField ⟨7⟩ .dummy ⟨⟨8⟩, 0, .dummy⟩ = .ok 8 := by
    have hresolve : pairs.resolve? 0 = some 0 := by decide +kernel
    have hbits : pairs.kind 0 = .bits 8 false := by decide +kernel
    unfold headerField
    simp only [hresolve, hbits]
  rw [lower, hk]
  show pairs.lowerHeader ⟨7⟩ _ .dummy = _
  unfold lowerHeader
  rw [List.map_singleton, hfield, hspelling]
  rfl

theorem create_pairs (q : Queue) : (pairs.create 5 q).1 = .ok CType.threePairs := by
  have ht := built_pairs.sound
  have h5 : pairs.kind 5 = .stack 4 3 := by decide +kernel
  have h4 : pairs.kind 4 = .named ⟨9⟩ := by decide +kernel
  have h3 : pairs.kind 3 = .stack 2 2 := by decide +kernel
  have h2 : pairs.kind 2 = .named ⟨7⟩ := by decide +kernel
  have hpair : pairs.lookup ⟨9⟩ = some 3 := by decide +kernel
  have hheader : pairs.lookup ⟨7⟩ = some 1 := by decide +kernel
  have hs : pairs.spelling ⟨9⟩ = "pair_t" ∧ pairs.spelling ⟨7⟩ = "h_t" := by decide +kernel
  show (pairs.lower [] 5).result = .ok CType.threePairs
  rw [ht.lower_stack h5, lower_declared h4 (by decide) hpair, ht.lower_stack h3,
    lower_declared h2 (by decide) hheader, lower_pairs_header, hs.1, hs.2]
  rfl

/-- So not every lowered type is declared with its sizes from the outside in. -/
theorem not_declared_outside_in :
    ¬ ∀ (t : TypeTable) (ty : TypeId) (q : Queue) (c : CType) (id text : String),
    t.Built → (t.create ty q).1 = .ok c → c.declare id = .ok text →
    text = c.specifier ++ " " ++ id ++ CType.brackets c.dimensions := by
  intro h
  have htext : "struct h_t v[2][3]" = _ :=
    h pairs 5 (.ofConfig .unlimited) CType.threePairs "v" _ built_pairs (create_pairs _) rfl
  have hclaim : CType.threePairs.specifier ++ " " ++ "v" ++
      CType.brackets CType.threePairs.dimensions =
    "struct h_t v[3][2]" := rfl
  rw [hclaim] at htext
  exact absurd htext (by decide)

end TypeTable

end WireTypes
