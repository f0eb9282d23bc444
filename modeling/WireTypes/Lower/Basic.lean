import WireTypes.CType.Basic
import WireTypes.Diagnostic.Queue
import WireTypes.Lower.Diagnostics
import WireTypes.LoweringError
import WireTypes.TypeTable.Resolve

/-!
# Lowering

From a node of a type table to a C type.  Lowering does not stop at a problem: it reports it and
goes on with what is left, so a header keeps the width of its sound fields and a struct its sound
members.  Only where nothing is left there is no C type.

* `lower`: C type and reports of a node, below the names that are being expanded;
* `create`: the same from the outside, with the reports in a queue.

Names are expanded one inside the other; a name that is met inside its own expansion ends it.  So
every step goes to an earlier node or uses up one of the declared names.
-/

namespace WireTypes

/-- What became of a node, and the problems met on the way. -/
structure Lowered where
  result : Except LoweringError CType
  reports : List Diagnostic

namespace Lowered

def ok (ty : CType) : Lowered := ⟨.ok ty, []⟩

def fail (d : Diagnostic) : Lowered := ⟨.error .reported, [d]⟩

def rename (name : String) (span : Span) (x : Lowered) : Lowered :=
  { x with result := x.result.map (.named name span) }

/-- An array of what was lowered, if that has a fixed width. -/
def stack (size : UInt32) (x : Lowered) : Lowered :=
  { x with
    result := x.result.bind fun element =>
      match element.extent? with
      | some extent => .ok (.stack element extent size)
      | none => .error .reported }

end Lowered

namespace TypeTable

/-! ## Headers -/

/-- Bits of a header field, or why it has none. -/
def headerField (t : TypeTable) (header : Name) (span : Span) (f : Field) :
    Except Diagnostic UInt32 :=
  match t.resolve? f.type with
  | none => .error (t.unknownFieldType f)
  | some ty =>
    match t.kind ty with
    | .bits width _ => .ok width
    | .bool => .ok 1
    | .varbits width => .error (t.varbitField header span f width)
    | kind => .error (t.fieldKind header f kind)

def soundBits (fields : List (Except Diagnostic UInt32)) : List UInt32 :=
  fields.filterMap (·.toOption)

/-- The problems of the other fields. -/
def fieldReports (fields : List (Except Diagnostic UInt32)) : List Diagnostic :=
  fields.filterMap fun
    | .ok _ => none
    | .error d => some d

/-- A header as wide as its sound fields. -/
def lowerHeader (t : TypeTable) (name : Name) (fields : List Field) (span : Span) : Lowered :=
  let fields := fields.map (t.headerField name span)
  let width := (soundBits fields).foldl satAdd 0
  { result := .ok (.header (t.spelling name) width span)
    reports := fieldReports fields ++
      if width % 8 = 0 then [] else [t.misalignedHeader name span width] }

/-! ## Structs and unions -/

/-- The type behind a member that is spelled with another name. -/
def memberComment? (t : TypeTable) (f : Field) : Option String :=
  match t.kind f.type with
  | .named _ =>
    (t.resolve? f.type).bind fun ty =>
      if t.display f.type = t.display ty then none else some s!"aka {t.display ty}"
  | _ => none

/-- What a member carries beside its type. -/
def member (t : TypeTable) (f : Field) : Member :=
  ⟨t.spelling f.name, t.display f.type, t.memberComment? f⟩

/-- The members of a struct or union and what its fields report, one field after the other.  A field
that could not be lowered is reported and left out.  An error that nobody has reported ends it all;
there is none (`Lowers.reported`). -/
def lowerFields (t : TypeTable) (form : AggregateForm) (name : Name) (span : Span) :
    List (Field × Lowered) → Except LoweringError (List (Member × CType)) × List Diagnostic
  | [] => (.ok [], [])
  | (f, x) :: rest =>
    let (members, reports) := t.lowerFields form name span rest
    match x.result with
    | .ok ty => (members.map ((t.member f, ty) :: ·), x.reports ++ reports)
    | .error .reported => (members, x.reports ++ t.unsizedMember form name span f :: reports)
    | .error e => (.error e, x.reports)

/-- A struct or union of the members that could be lowered. -/
def assemble (t : TypeTable) (form : AggregateForm) (name : Name) (span : Span)
    (fields : List (Field × Lowered)) : Lowered :=
  let (members, reports) := t.lowerFields form name span fields
  { result := members.map fun members =>
      .aggregate form (t.spelling name) span members (members.length < fields.length)
    reports := reports }

/-! ## All types -/

/-- Number of declarations whose names are not in `path`. -/
def unexpanded (t : TypeTable) (path : List Name) : Nat :=
  t.definitions.countP fun d => !path.contains d.1

theorem unexpanded_lt {t : TypeTable} {path : List Name} {n : Name} {ty : TypeId}
    (hn : n ∉ path) (h : t.lookup n = some ty) :
    t.unexpanded (path ++ [n]) < t.unexpanded path := by
  unfold lookup at h
  unfold unexpanded
  generalize t.definitions = ds at h
  have le : ∀ ds : List (Name × TypeId),
      ds.countP (fun d => !(path ++ [n]).contains d.1) ≤ ds.countP fun d => !path.contains d.1 := by
    intro ds
    refine List.countP_mono_left fun d _ hd => ?_
    simp only [List.contains_eq_mem, List.mem_append, List.mem_singleton, not_or,
      Bool.not_eq_eq_eq_not, Bool.not_true, decide_eq_false_iff_not] at hd ⊢
    exact hd.1
  induction ds with
  | nil => simp at h
  | cons d ds ih =>
    obtain ⟨m, target⟩ := d
    by_cases hm : n = m
    · subst hm
      have := le ds
      simp [hn]
      simp at this
      omega
    · have hb : (n == m) = false := by simpa using hm
      rw [List.lookup_cons, hb] at h
      have := ih h
      simp only [List.countP_cons]
      have hc : (path ++ [n]).contains m = path.contains m := by
        simp [List.contains_eq_mem, Ne.symm hm]
      rw [hc]
      omega

/-- Lowers a node inside the expansion of the names in `path`, outermost first.  A child that does
not come before its parent counts as unknown. -/
def lower (t : TypeTable) (path : List Name) (ty : TypeId) : Lowered :=
  let span := (t.node ty).span
  match t.kind ty with
  | .bool => .ok .bool
  | .bits width signed => .ok (.scalar width signed)
  | .varbits _ => .fail (t.unsupportedType ty)
  | .enum n members => .ok (.enum (t.spelling n) (members.map t.spelling) span)
  | .header n fields => t.lowerHeader n fields span
  | .aggregate form n fields =>
    t.assemble form n span <| fields.map fun f =>
      (f, if f.type < ty then t.lower path f.type else .fail (t.unknownType .empty .dummy))
  | .stack element size =>
    .stack size <|
      if element < ty then t.lower path element else .fail (t.unknownType .empty .dummy)
  | .named n =>
    if n ∈ path then .fail (t.typeCycle path n span)
    else
      match _h : t.lookup n with
      | none => .fail (t.unknownType n span)
      | some target => .rename (t.spelling n) span (t.lower (path ++ [n]) target)
termination_by (t.unexpanded path, ty)
decreasing_by
  · exact Prod.Lex.right _ ‹_›
  · exact Prod.Lex.right _ ‹_›
  · exact Prod.Lex.left _ _ (unexpanded_lt ‹_› _h)

/-- Lowers a node and reports into a queue. -/
def create (t : TypeTable) (ty : TypeId) (q : Queue) : Except LoweringError CType × Queue :=
  let x := t.lower [] ty
  (x.result, q.addAll x.reports)

end TypeTable

end WireTypes
