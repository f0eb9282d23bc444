import WireTypes.Proofs.Description.Loading

/-!
# What is wrong with a description

`Description.faults` lists all that is wrong with a description, in the order in which it is read.
Loading stops at the first fault (`stops_load`), and a description has none exactly if all of its
references can be read and no name is declared twice (`faults_eq_nil_iff`).
-/

namespace WireTypes

section

variable {ε α β : Type}

/-- The computation fails with the first of the errors, and succeeds if there are none. -/
def StopsAt (x : Except ε α) (es : List ε) : Prop := ∀ e, x = .error e ↔ es.head? = some e

theorem stops_ok (a : α) : StopsAt (.ok a : Except ε α) [] := fun e => by simp

theorem stops_error (e : ε) (es : List ε) : StopsAt (.error e : Except ε α) (e :: es) :=
  fun e' => by simp

theorem StopsAt.exists_ok_iff {x : Except ε α} {es : List ε} (h : StopsAt x es) :
    (∃ a, x = .ok a) ↔ es = [] := by
  cases x with
  | error e =>
    have hhead := (h e).mp rfl
    constructor
    · rintro ⟨a, ha⟩
      cases ha
    · rintro rfl
      cases hhead
  | ok a =>
    refine ⟨fun _ => List.head?_eq_none_iff.mp ?_, fun _ => ⟨a, rfl⟩⟩
    rw [Option.eq_none_iff_forall_ne_some]
    intro e he
    cases (h e).mpr he

theorem StopsAt.bind {x : Except ε α} {f : α → Except ε β} {es es' : List ε} (hx : StopsAt x es)
    (hf : ∀ a, x = .ok a → StopsAt (f a) es') : StopsAt (x >>= f) (es ++ es') := by
  cases x with
  | error e =>
    intro e'
    rw [List.head?_append, (hx e).mp rfl, Option.some_or, Option.some_inj]
    show Except.error e = Except.error e' ↔ _
    rw [Except.error.injEq]
  | ok a =>
    obtain rfl := hx.exists_ok_iff.mp ⟨a, rfl⟩
    exact hf a rfl

theorem StopsAt.map {x : Except ε α} {es : List ε} (hx : StopsAt x es) (f : α → β) :
    StopsAt (f <$> x) es := by
  cases x with
  | error e =>
    intro e'
    rw [← hx e']
    show Except.error e = Except.error e' ↔ _
    simp
  | ok a =>
    obtain rfl := hx.exists_ok_iff.mp ⟨a, rfl⟩
    exact stops_ok (f a)

theorem StopsAt.bind_pure {x : Except ε α} {es : List ε} (hx : StopsAt x es) (f : α → β) :
    StopsAt (x >>= fun a => pure (f a)) es := by
  rw [← List.append_nil es]
  exact hx.bind fun a _ => stops_ok (f a)

theorem stops_mapM {f : α → Except ε β} {g : α → List ε} (h : ∀ a, StopsAt (f a) (g a))
    (as : List α) : StopsAt (as.mapM f) (as.flatMap g) := by
  induction as with
  | nil => exact stops_ok []
  | cons a as ih =>
    rw [List.mapM_cons, List.flatMap_cons]
    exact (h a).bind fun b _ => ih.bind_pure (b :: ·)

end

variable {ρ : Type}

def DeclBody.refs : DeclBody ρ → List ρ
  | .typedef target => [target]
  | .header fields | .struct fields | .headerUnion fields => fields.map (·.type)
  | .enum _ => []

namespace Description

/-- All references: of the types, then of the variables. -/
def refs (d : Description ρ) : List ρ := d.types.flatMap (·.body.refs) ++ d.vars.map (·.type)

def refFaults (text : String) : List LoadError :=
  match TypeRef.parse text with
  | .ok _ => []
  | .error part => [.malformedType part]

/-- What is wrong with declarations that come behind those of `seen`: with the references
of each, then its name. -/
def typeFaults (seen : List String) : List (Declaration String) → List LoadError
  | [] => []
  | d :: rest =>
    d.body.refs.flatMap refFaults ++ (if d.name ∈ seen then [.duplicateType d.name] else []) ++
      typeFaults (d.name :: seen) rest

/-- What is wrong with a description: with its types, then with its variables. -/
def faults (d : Description String) : List LoadError :=
  typeFaults [] d.types ++ d.vars.flatMap (refFaults ·.type)

/-! ## The first fault -/

theorem stops_parseRef (text : String) : StopsAt (parseRef text) (refFaults text) := by
  unfold parseRef refFaults
  cases TypeRef.parse text with
  | error part => exact stops_error _ []
  | ok ref => exact stops_ok ref

theorem stops_parseFields (fields : List (FieldDecl String)) :
    StopsAt (parseFields fields) ((fields.map (·.type)).flatMap refFaults) := by
  rw [List.flatMap_map]
  refine stops_mapM (fun f => ?_) fields
  exact (stops_parseRef f.type).bind_pure fun ref => (⟨f.name, ref, f.span⟩ : FieldDecl TypeRef)

theorem stops_parseBody (body : DeclBody String) :
    StopsAt (parseBody body) (body.refs.flatMap refFaults) := by
  cases body with
  | typedef target =>
    rw [DeclBody.refs, List.flatMap_singleton]
    exact (stops_parseRef target).map _
  | header fields | struct fields | headerUnion fields => exact (stops_parseFields fields).map _
  | enum members => exact stops_ok _

theorem stops_parseTypes (ds : List (Declaration String)) : ∀ seen : List String,
    StopsAt (parseTypes seen ds) (typeFaults seen ds) := by
  induction ds with
  | nil => exact fun seen => stops_ok []
  | cons d rest ih =>
    intro seen
    unfold parseTypes typeFaults
    rw [List.append_assoc]
    refine (stops_parseBody d.body).bind fun body _ => ?_
    by_cases hseen : d.name ∈ seen
    · rw [if_pos hseen, if_pos hseen]
      exact (stops_error (LoadError.duplicateType d.name) []).bind fun a ha => by cases ha
    · rw [if_neg hseen, if_neg hseen, List.nil_append]
      exact (ih (d.name :: seen)).bind_pure (⟨d.name, d.span, body⟩ :: ·)

theorem stops_load (d : Description String) : StopsAt d.load d.faults := by
  refine StopsAt.map ?_ build
  unfold parse faults
  refine (stops_parseTypes d.types []).bind fun types _ => ?_
  refine StopsAt.bind_pure ?_ fun vars => (⟨types, vars⟩ : Description TypeRef)
  refine stops_mapM (fun v => ?_) d.vars
  exact (stops_parseRef v.type).bind_pure fun ref => (⟨v.name, ref⟩ : VariableDecl TypeRef)

/-! ## No fault -/

theorem refFaults_eq_nil_iff {text : String} :
    refFaults text = [] ↔ ∃ ref, TypeRef.parse text = .ok ref := by
  unfold refFaults
  cases TypeRef.parse text <;> simp

theorem typeFaults_eq_nil_iff (ds : List (Declaration String)) :
    ∀ {seen : List String}, typeFaults seen ds = [] ↔
    (∀ d ∈ ds, ∀ text ∈ d.body.refs, ∃ ref, TypeRef.parse text = .ok ref) ∧
      (ds.map (·.name)).Nodup ∧
      ∀ name ∈ ds.map (·.name), name ∉ seen := by
  induction ds with
  | nil => simp [typeFaults]
  | cons d rest ih =>
    intro seen
    have hseen : (if d.name ∈ seen then [LoadError.duplicateType d.name] else []) = [] ↔
        d.name ∉ seen := by simp
    unfold typeFaults
    rw [List.append_eq_nil_iff, List.append_eq_nil_iff, hseen, ih, List.flatMap_eq_nil_iff]
    simp only [refFaults_eq_nil_iff, List.forall_mem_cons, List.map_cons, List.nodup_cons]
    constructor
    · rintro ⟨⟨hrefs, hname⟩, hrest, hnodup, hnew⟩
      refine ⟨⟨hrefs, hrest⟩, ⟨fun hmem => hnew _ hmem List.mem_cons_self, hnodup⟩, hname,
        fun name hmem => ?_⟩
      exact fun hname => hnew name hmem (List.mem_cons_of_mem _ hname)
    · rintro ⟨⟨hrefs, hrest⟩, ⟨hfresh, hnodup⟩, hname, hnew⟩
      refine ⟨⟨hrefs, hname⟩, hrest, hnodup, fun name hmem hname => ?_⟩
      rcases List.mem_cons.mp hname with rfl | hname
      · exact hfresh hmem
      · exact hnew name hmem hname

theorem faults_eq_nil_iff (d : Description String) : d.faults = [] ↔
    (∀ text ∈ d.refs, ∃ ref, TypeRef.parse text = .ok ref) ∧ (d.types.map (·.name)).Nodup := by
  unfold faults refs
  rw [List.append_eq_nil_iff, typeFaults_eq_nil_iff, List.flatMap_eq_nil_iff]
  simp only [refFaults_eq_nil_iff, List.forall_mem_append, List.mem_flatMap, List.forall_mem_map]
  constructor
  · rintro ⟨⟨htypes, hnodup, -⟩, hvars⟩
    refine ⟨⟨fun text htext => ?_, hvars⟩, hnodup⟩
    obtain ⟨d, hd, htext⟩ := htext
    exact htypes d hd text htext
  · rintro ⟨⟨htypes, hvars⟩, hnodup⟩
    exact ⟨⟨fun d hd text htext => htypes text ⟨d, hd, htext⟩, hnodup,
      fun _ _ => List.not_mem_nil⟩, hvars⟩

end Description

end WireTypes
