import WireTypes.Proofs.CType.Object
import WireTypes.Proofs.TypeTable.History

/-!
# Zero values and declared objects

The zero value of a type is a brace list or a plain `0`; which of them C accepts depends on the
object that is declared.

* `Level`: the parts of a type that are declared and set to zero themselves;
* `Level.declarable`: they can all be declared if the type can;
* `emitZero_level`: brace lists go with arrays, structs and unions, and `0` with integers and enums,
  at every level but those of scalars that no integer holds: these are byte arrays, set to `0`.
-/

namespace WireTypes

/-! ## What a writer adds -/

namespace Writer

/-- `w'` goes on where `w` ended. -/
def Extends (w w' : Writer) : Prop := ∃ text, w'.output = w.output ++ text

theorem Extends.refl (w : Writer) : w.Extends w := ⟨"", by simp⟩

theorem Extends.trans {w w' w'' : Writer} (h : w.Extends w') (h' : w'.Extends w'') :
    w.Extends w'' := by
  obtain ⟨text, h⟩ := h
  obtain ⟨text', h'⟩ := h'
  exact ⟨text ++ text', by rw [h', h, String.append_assoc]⟩

theorem extends_append (w : Writer) (text : String) : w.Extends (w.append text) := ⟨text, rfl⟩

theorem extends_appendLine (w : Writer) (text : String) : w.Extends (w.appendLine text) :=
  (extends_append w text).trans (extends_append _ "\n")

theorem extends_startLine (w : Writer) : w.Extends w.startLine := extends_append w _

end Writer

/-! ## The text of zero values -/

def IsBraceList (text : String) : Prop := ∃ inner, text = "\x7b" ++ inner ++ "\x7d"

theorem not_isBraceList_zero : ¬ IsBraceList "0" := by
  rintro ⟨inner, h⟩
  have hfirst := congrArg (fun s => s.toList.head?) h
  simp at hfirst

/-- A block opened and closed is a brace list, whatever is written in it. -/
theorem Writer.output_closeBlock {w w' : Writer} (h : w.openBlock.Extends w') :
    ∃ text, (w'.closeBlock false).output = w.output ++ text ∧ IsBraceList text := by
  obtain ⟨text, htext⟩ := h
  have hopen : w.openBlock.output = w.output ++ "\x7b" ++ "\n" := rfl
  have hclose : (w'.closeBlock false).output =
      w'.output ++ "".pushn ' ' w'.dedent.margin ++ "\x7d" := rfl
  refine ⟨"\x7b" ++ ("\n" ++ text ++ "".pushn ' ' w'.dedent.margin) ++ "\x7d", ?_, _, rfl⟩
  rw [hclose, htext, hopen]
  simp only [String.append_assoc]

namespace Zero

open Writer

def isNumber : Zero → Bool
  | .number => true
  | _ => false

-- By the structure of values: only the values inside a list or record are written between its
-- braces.

mutual

theorem output_write (z : Zero) (w : Writer) : ∃ text, (z.write w).output = w.output ++ text ∧
    if z.isNumber then text = "0" else IsBraceList text := by
  cases z with
  | number => exact ⟨"0", rfl, rfl⟩
  | header =>
    let data := w.openBlock.startLine.appendLine ".data = \x7b 0 \x7d,"
    let valid := data.startLine.appendLine ".valid = 0"
    have hdata : w.openBlock.Extends data := (extends_startLine _).trans (extends_appendLine _ _)
    have hvalid : data.Extends valid := (extends_startLine _).trans (extends_appendLine _ _)
    exact output_closeBlock (hdata.trans hvalid)
  | record members => exact output_closeBlock (extends_writeMembers members w.openBlock)
  | list entries =>
    obtain ⟨text, htext⟩ := extends_writeEntries " " entries (w.append "\x7b")
    refine ⟨"\x7b" ++ (text ++ " ") ++ "\x7d", ?_, _, rfl⟩
    show (writeEntries " " entries (w.append "\x7b")).output ++ " \x7d" = _
    have hclose : " \x7d" = " " ++ "\x7d" := rfl
    rw [htext, output_append, hclose]
    simp only [String.append_assoc]

theorem extends_writeMembers (members : List (String × Zero)) (w : Writer) :
    w.Extends (writeMembers members w) := by
  match members with
  | [] => exact .refl w
  | (name, z) :: rest =>
    obtain ⟨text, htext, -⟩ := output_write z (w.startLine.append s!".{name} = ")
    have hname : w.Extends (w.startLine.append s!".{name} = ") :=
      (extends_startLine w).trans (extends_append _ _)
    have hvalue := (hname.trans ⟨text, htext⟩).trans (extends_appendLine _ ",")
    exact hvalue.trans (extends_writeMembers rest _)

theorem extends_writeEntries (sep : String) (entries : List Zero) (w : Writer) :
    w.Extends (writeEntries sep entries w) := by
  match entries with
  | [] => exact .refl w
  | z :: rest =>
    obtain ⟨text, htext, -⟩ := output_write z (w.append sep)
    have hvalue := (extends_append w sep).trans ⟨text, htext⟩
    exact hvalue.trans (extends_writeEntries ", " rest _)

end

end Zero

namespace CType

theorem isNumber_zero : ∀ {c : CType}, c.wide = false → c.zero.isNumber = c.object.isNumber
  | .bool, _ | .enum _ _ _, _ | .header _ _ _, _ | .aggregate _ _ _ _ _, _ => rfl
  | .scalar width signed, h => by
    rcases object_scalar width signed with ⟨hwide, -⟩ | ⟨-, bits, -, hobject⟩
    · simp [wide, hwide] at h
    · rw [hobject]
      rfl
  | .stack element _ size, _ => by
    show false = (element.object.withInner size).isNumber
    rw [CObject.isNumber_eq_not_isCompound, CObject.isCompound_withInner]
    rfl
  | .named _ _ canonical, h => isNumber_zero (c := canonical) h

theorem object_of_wide : ∀ {c : CType}, c.wide = true →
    c.zero.isNumber = true ∧ ∃ count, c.object = .array (.integer false 8) count
  | .bool, h | .enum _ _ _, h | .header _ _ _, h | .aggregate _ _ _ _ _, h
  | .stack _ _ _, h => by cases h
  | .scalar width signed, h => by
    rcases object_scalar width signed with ⟨-, hobject⟩ | ⟨hnarrow, -⟩
    · exact ⟨rfl, _, hobject⟩
    · simp [wide, hnarrow] at h
  | .named _ _ canonical, h => object_of_wide (c := canonical) h

theorem declarable_of_mem {members : List (Member × CType)} : ∀ {w : Writer},
    (emitMembers w members).result = .ok () → ∀ m c, (m, c) ∈ members → c.declarable = true := by
  induction members with
  | nil =>
    intro w _ m c hm
    cases hm
  | cons first rest ih =>
    obtain ⟨m', c'⟩ := first
    intro w h m c hm
    unfold emitMembers Written.ofText Written.andThen at h
    cases htext : c'.declare m'.name with
    | error e =>
      rw [htext] at h
      cases h
    | ok text =>
      rw [htext] at h
      rcases List.mem_cons.mp hm with hm | hm
      · cases hm
        exact (declare_eq_ok_iff.mp htext).1
      · exact ih h m c hm

/-- A struct or union is emitted only with all of its members. -/
theorem result_of_emit {form : AggregateForm} {name : String} {span : Span}
    {members : List (Member × CType)} {lossy : Bool} {w : Writer}
    (h : ((aggregate form name span members lossy).emit w).result = .ok ()) :
    (emitMembers (openDefinition w form.keyword name) members).result = .ok () := by
  unfold emit Written.andThen at h
  split at h
  · assumption
  · exact h

/-! ## Levels -/

/-- The levels of a type: the parts that are declared and set to zero themselves.  A struct or union
has members if it can be defined. -/
inductive Level : CType → CType → Prop
  | self (c : CType) : Level c c
  | canonical {name : String} {span : Span} {c d : CType} (h : Level c d) :
      Level (.named name span c) d
  | element {c d : CType} {extent : Extent} {size : UInt32} (h : Level c d) :
      Level (.stack c extent size) d
  | member {form : AggregateForm} {name : String} {span : Span} {members : List (Member × CType)}
      {lossy : Bool} {m : Member} {c d : CType} {w : Writer} (hm : (m, c) ∈ members)
      (hdef : ((aggregate form name span members lossy).emit w).result = .ok ()) (h : Level c d) :
      Level (.aggregate form name span members lossy) d

/-- A type that can be declared can be declared at every level. -/
theorem Level.declarable {c d : CType} (h : c.Level d) :
    c.declarable = true → d.declarable = true := by
  induction h with
  | self c => exact id
  | canonical _ ih => exact ih
  | element _ ih =>
    intro hc
    exact ih (declarable_of_stackable hc)
  | @member form name span members lossy m c d w hm hdef _ ih =>
    -- the definition declares each member
    intro _
    exact ih (declarable_of_mem (result_of_emit hdef) m c hm)

/-- **Zero values and declared objects.**  A type that is declared declares one object at every
level.  It is set to a brace list exactly if the object is an array, a struct or a union, and to `0`
exactly if it is an integer or an enum.  The exception are scalars that no integer holds: they are
declared as arrays of bytes, and set to `0` nevertheless. -/
theorem emitZero_level {c d : CType} {id text : String} (hc : c.declare id = .ok text)
    (hd : c.Level d) (id' : String) (w : Writer) : ∃ (o : CObject) (zero : String),
    d.declare id' = .ok (o.declaration id') ∧
      (∀ o' : CObject, d.declare id' = .ok (o'.declaration id') → o' = o) ∧
    (d.emitZero w).output = w.output ++ zero ∧
    (d.wide = false →
      (IsBraceList zero ↔ o.isCompound = true) ∧ (zero = "0" ↔ o.isNumber = true)) ∧
    (d.wide = true → (∃ count, o = .array (.integer false 8) count) ∧ zero = "0") := by
  have hdeclare : d.declare id' = .ok (d.object.declaration id') :=
    declare_eq_ok_iff.mpr ⟨hd.declarable (declare_eq_ok_iff.mp hc).1, rfl⟩
  obtain ⟨zero, houtput, hzero⟩ := d.zero.output_write w
  refine ⟨d.object, zero, hdeclare, ?_, ?_, ?_, ?_⟩
  · -- a declaration can be read in one way only
    intro o' ho'
    rw [hdeclare] at ho'
    exact (CObject.declaration_injective (Except.ok.inj ho')).symm
  · rw [emitZero_eq_write]
    exact houtput
  · intro hwide
    rw [isNumber_zero hwide, CObject.isNumber_eq_not_isCompound] at hzero
    rw [CObject.isNumber_eq_not_isCompound]
    cases hcompound : d.object.isCompound with
    | true =>
      have hlist : IsBraceList zero := by simpa [hcompound] using hzero
      have hne : zero ≠ "0" := by
        rintro rfl
        exact not_isBraceList_zero hlist
      simp [hlist, hne]
    | false =>
      obtain rfl : zero = "0" := by simpa [hcompound] using hzero
      simp [not_isBraceList_zero]
  · intro hwide
    obtain ⟨hnumber, hobject⟩ := object_of_wide hwide
    rw [hnumber] at hzero
    exact ⟨hobject, hzero⟩

/-- A struct with a member that no integer holds. -/
theorem emitZero_level_key :
    let key := CType.scalar 128 false
    let c := CType.aggregate .struct "key_t" .dummy [(⟨"key", "bit<128>", none⟩, key)] false
    c.declare "v" = .ok "struct key_t v" ∧ c.Level key ∧
      key.declare "key" = .ok ((CObject.array (.integer false 8) 16).declaration "key") ∧
      (key.emitZero default).output = "0" := by
  intro key c
  have hdeclare : c.declare "v" = .ok "struct key_t v" := rfl
  have hlevel : c.Level key := .member (w := default) List.mem_cons_self rfl (.self key)
  obtain ⟨o, zero, hobject, hunique, houtput, -, hwide⟩ :=
    emitZero_level hdeclare hlevel "key" default
  obtain ⟨⟨count, -⟩, rfl⟩ := hwide rfl
  refine ⟨hdeclare, hlevel, ?_, houtput⟩
  rw [hobject, hunique (.array (.integer false 8) 16) rfl]

end CType

/-- So not every zero value fits the object that is declared. -/
theorem TypeTable.not_zero_fits :
    ¬ ∀ (t : TypeTable) (ty : TypeId) (config : QueueConfig) (q : Queue) (c d : CType)
    (id text id' zero : String) (o : CObject) (w w' : Writer), t.Built →
    t.create ty (.ofConfig config) = (.ok c, q) → q.isEmpty = true → c.declare id = .ok text →
    (c.emit w).result = .ok () → c.Level d → d.declare id' = .ok (o.declaration id') →
    (d.emitZero w').output = w'.output ++ zero →
    (IsBraceList zero ↔ o.isCompound = true) ∧ (zero = "0" ↔ o.isNumber = true) := by
  intro h
  let t := (Growth.alloc (.bits 128 false) .dummy).grow ∅
  have ht : t.Built := built_single .dummy rfl rfl
  have hkind : t.kind 0 = .bits 128 false := by decide +kernel
  have hcreate : t.create 0 (.ofConfig .standard) =
      (.ok (.scalar 128 false), .ofConfig .standard) := by
    rw [create, lower, hkind]
    rfl
  have hfits := h t 0 .standard _ _ _ "key" _ "key" "0" (.array (.integer false 8) 16) default
      default ht hcreate
    rfl rfl rfl (.self _) rfl rfl
  exact absurd (hfits.2.mp rfl) (by decide)

end WireTypes
