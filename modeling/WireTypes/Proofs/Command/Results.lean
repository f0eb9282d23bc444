import WireTypes.Command
import WireTypes.Proofs.Description.Loading
import WireTypes.Proofs.Lower.Outcome

/-!
# What commands return

`lower` and `layout` have a result for every description that loads, however many errors are
reported: a type that cannot be lowered has been reported (`Lowers.reported`), so it never ends a
table of layouts.

* `Sound.layoutReport_eq`: the rows of a list of types, and what the queue takes;
* `lowerText_of_load`, `layoutText_of_load`: the results of the two commands;
* `process_of_load_error`: without a description there is none;
* `runCommand_of_process`: where there is one, all that is left to do is to deliver it.
-/

namespace WireTypes

theorem Description.loadText_eq_ok {source : String} {l : Loaded} :
    loadText source = .ok l ↔ ∃ d, ofText source = .ok d ∧ d.load = .ok l := by
  unfold loadText
  cases ofText source with
  | error e => simp [Except.mapError, bind, Except.bind]
  | ok d => simp [Except.mapError, bind, Except.bind]

theorem Description.built_of_loadText {source : String} {l : Loaded} (h : loadText source = .ok l) :
    l.table.Built := by
  obtain ⟨d, -, hd⟩ := loadText_eq_ok.mp h
  exact (declares_of_load hd).built

namespace TypeTable

/-- What measuring a type reports: the problems of lowering it, and one for each of the two
widths that it lacks. -/
def layoutReports (t : TypeTable) (ty : TypeId) : List Diagnostic :=
  (t.lower [] ty).reports ++
    match (t.lower [] ty).result with
    | .ok c => c.widthReports ++ c.widthReports
    | .error _ => []

theorem layout_eq (t : TypeTable) (ty : TypeId) (q : Queue) :
    t.layout ty q = ((t.lower [] ty).result.map CType.layout, q.addAll (t.layoutReports ty)) := by
  have hcreate : t.create ty q = ((t.lower [] ty).result, q.addAll (t.lower [] ty).reports) := rfl
  unfold layout layoutReports
  rw [hcreate]
  cases (t.lower [] ty).result with
  | error e =>
    rw [List.append_nil]
    rfl
  | ok c =>
    rw [Queue.addAll_append, Queue.addAll_append]
    rfl

/-- The rows are those of the types that can be lowered, and the queue takes what each
of the types reports. -/
theorem Sound.layoutReport_eq {t : TypeTable} (ht : t.Sound) (ids : List TypeId) : ∀ q : Queue,
    t.layoutReport q ids =
      (.ok ((ids.filterMap fun ty => (t.lower [] ty).result.toOption).map CType.layout),
      q.addAll (ids.flatMap t.layoutReports)) := by
  induction ids with
  | nil => exact fun q => rfl
  | cons ty rest ih =>
    intro q
    unfold layoutReport
    rw [layout_eq, List.flatMap_cons, Queue.addAll_append, List.filterMap_cons]
    cases hresult : (t.lower [] ty).result with
    | ok c =>
      show (Except.map _ (t.layoutReport _ rest).1, (t.layoutReport _ rest).2) = _
      rw [ih]
      rfl
    | error e =>
      obtain rfl := (ht.lowers [] ty).reported e hresult
      exact ih _

end TypeTable

namespace Command

variable {source : String} {l : Loaded}

theorem process_of_load_error {e : LoadError}
    (h : Description.loadText source = .error e) (c : Command) (o : Options) :
    c.process source o = .error (.load e) := by
  cases c with
  | lower =>
    unfold process lowerText
    rw [h]
    rfl
  | layout =>
    unfold process layoutText
    rw [h]
    rfl

theorem lowerText_of_load (h : Description.loadText source = .ok l) (o : Options) :
    lowerText source o = .ok (l.unit.lower l.table o.style o.diagnostics) := by
  unfold lowerText
  rw [h]
  rfl

theorem layoutText_of_load (h : Description.loadText source = .ok l) (o : Options) :
    ∃ rows q, l.table.layoutReport (.ofConfig o.diagnostics) l.unit.types = (.ok rows, q) ∧
      layoutText source o = .ok ⟨LayoutEntry.table rows, q.listing, !q.hasErrors⟩ := by
  have hsound := (Description.built_of_loadText h).sound
  have hrows := hsound.layoutReport_eq l.unit.types (.ofConfig o.diagnostics)
  refine ⟨_, _, hrows, ?_⟩
  unfold layoutText
  rw [h]
  simp only [Except.mapError, bind, Except.bind, hrows]
  rfl

theorem exists_result (h : Description.loadText source = .ok l) (c : Command) (o : Options) :
    ∃ r, c.process source o = .ok r := by
  cases c with
  | lower =>
    unfold process
    rw [lowerText_of_load h]
    exact ⟨_, rfl⟩
  | layout =>
    obtain ⟨rows, q, -, hresult⟩ := layoutText_of_load h o
    exact ⟨_, hresult⟩

/-- What lowering cannot do stops no command. -/
theorem process_ne_lowering (c : Command) (source : String) (o : Options) (e : LoweringError) :
    c.process source o ≠ .error (.lowering e) := by
  cases hload : Description.loadText source with
  | error e' =>
    rw [process_of_load_error hload]
    intro h
    cases h
  | ok l =>
    obtain ⟨r, hr⟩ := exists_result hload c o
    rw [hr]
    intro h
    cases h

end Command

/-! ## Runs -/

namespace Program

theorem run_word {m : Type → Type} [Monad m] (files : Files m) (terminal : Bool) (c : Command)
    (arguments : List String) :
    run files terminal (c.word :: arguments) = runCommand files terminal c arguments := by
  cases c <;> simp [run, Command.word]

/-- A command that has a result delivers it. -/
theorem runCommand_of_process {σ : Type} {files : Files (StateM σ)} {c : Command}
    {arguments : List String} {source : String} {o : Options} {r : CommandResult} {s s' : σ}
    (ho : Options.parse arguments = .ok o) (hread : files.read o.input s = (.ok source, s'))
    (h : c.process source o = .ok r) (terminal : Bool) :
    runCommand files terminal c arguments s = deliver files terminal o r s' := by
  unfold runCommand
  rw [ho]
  simp only [bind, StateT.bind, hread, h]

end Program

end WireTypes
