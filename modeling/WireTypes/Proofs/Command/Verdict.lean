import WireTypes.Proofs.CUnit.Items
import WireTypes.Proofs.Command.Results
import WireTypes.Proofs.Text.Digits

/-!
# One verdict

Whether a command succeeded is said in several places: by its result, by the severities of the
diagnostics it returns, by the report of these in JSON and by the exit status of the program.  The
result is read off the counts of a queue before the diagnostics are taken out, the others off the
diagnostics themselves.

* `Queue.Counted.any_isError_listing`: the diagnostics taken out hold an error exactly if the counts
  say so, even where errors were dropped;
* `Diagnostic.says_iff`: what the report in JSON says;
* `Command.exists_queue`: the result of either command comes out of one queue;
* `Command.process_verdict` puts these together.
-/

namespace WireTypes

namespace Queue

theorem isError_tooManyErrors (limit dropped : Nat) :
    (tooManyErrors limit dropped).isError = true := rfl

/-- The errors that are dropped are listed as one. -/
theorem Counted.any_isError_listing {q : Queue} (hq : q.Counted) :
    q.listing.any Diagnostic.isError = q.hasErrors := by
  have hkept : q.kept.any Diagnostic.isError = decide (0 < q.errors) := by
    rw [Bool.eq_iff_iff, decide_eq_true_iff, hq.errors, Diagnostic.errorCount, List.countP_pos_iff,
      List.any_eq_true]
  unfold listing hasErrors
  rw [List.any_append, (List.mergeSort_perm _ _).any_eq, hkept]
  by_cases hdropped : 0 < q.dropped
  · rw [if_pos hdropped, List.any_cons, isError_tooManyErrors, Bool.true_or, Bool.or_true]
    exact (decide_eq_true (by omega)).symm
  · have hzero : q.dropped = 0 := by omega
    rw [if_neg hdropped, List.any_nil, Bool.or_false, hzero, Nat.add_zero]

end Queue

/-! ## The report in JSON -/

namespace Diagnostic

/-- The text is a report that begins with this verdict and this number of errors. -/
def Says (text : String) (success : Bool) (errors : Nat) : Prop :=
  ∃ rest, text =
    "\x7b\"success\":" ++ (if success then "true" else "false") ++ ",\"error_count\":" ++
    toString errors ++ "," ++ rest

theorem says_listToJsonText (ds : List Diagnostic) :
    Says (listToJsonText ds) (!ds.any isError) (errorCount ds) := by
  refine ⟨"\"diagnostics\":" ++ Json.render (.array (ds.map toJson)) ++ "\x7d", ?_⟩
  have hverdict : Json.quote "success" = "\"success\"" := by decide
  have hcount : Json.quote "error_count" = "\"error_count\"" := by decide
  have hlist : Json.quote "diagnostics" = "\"diagnostics\"" := by decide
  simp only [listToJsonText, listToJson, Json.render, Json.renderMembers,
    String.intercalate_cons_cons, String.intercalate_singleton, hverdict, hcount, hlist]
  simp only [String.append_assoc]
  rfl

theorem Says.unique {text : String} {success success' : Bool} {errors errors' : Nat}
    (h : Says text success errors) (h' : Says text success' errors') :
    success = success' ∧ errors = errors' := by
  obtain ⟨rest, rfl⟩ := h
  obtain ⟨rest', h'⟩ := h'
  have htext := congrArg String.toList h'
  -- the first letter tells the verdict, and the number ends before the next comma
  have hverdict : success = success' := by
    cases success <;> cases success' <;> simp at htext <;> rfl
  subst hverdict
  refine ⟨rfl, ?_⟩
  have hnumber : Nat.toDigits 10 errors ++ ',' :: rest.toList =
      Nat.toDigits 10 errors' ++ ',' :: rest'.toList := by
    cases success <;> simpa [toString, Nat.toList_repr] using htext
  exact (toDigits_append_inj (by decide) hnumber).1

theorem says_iff (ds : List Diagnostic) (success : Bool) (errors : Nat) :
    Says (listToJsonText ds) success errors ↔
      success = !ds.any isError ∧ errors = errorCount ds := by
  constructor
  · intro h
    exact h.unique (says_listToJsonText ds)
  · rintro ⟨rfl, rfl⟩
    exact says_listToJsonText ds

end Diagnostic

/-! ## Commands -/

namespace TypeTable

theorem counted_layout {t : TypeTable} (ty : TypeId) {q : Queue} (hq : q.Counted) :
    (t.layout ty q).2.Counted := by
  have hcreate : (t.create ty q).2.Counted := hq.addAll _
  unfold layout
  split
  · next h =>
    rw [h] at hcreate
    exact hcreate
  · next h =>
    rw [h] at hcreate
    exact Queue.Counted.addAll _ (Queue.Counted.addAll _ hcreate)

/-- Whatever becomes of the types, the counts of the queue stay right. -/
theorem counted_layoutReport {t : TypeTable} (types : List TypeId) :
    ∀ {q : Queue}, q.Counted → (t.layoutReport q types).2.Counted := by
  induction types with
  | nil => intro q hq; exact hq
  | cons ty rest ih =>
    intro q hq
    have hlayout : (t.layout ty q).2.Counted := counted_layout ty hq
    unfold layoutReport
    split
    · next h =>
      rw [h] at hlayout
      exact ih hlayout
    · next h =>
      rw [h] at hlayout
      exact ih hlayout
    · next h =>
      rw [h] at hlayout
      exact hlayout

end TypeTable

namespace Command

/-- What a command returns comes out of one queue. -/
theorem exists_queue {c : Command} {source : String} {o : Options} {r : CommandResult}
    (h : c.process source o = .ok r) :
    ∃ q : Queue, q.Counted ∧ r.diagnostics = q.listing ∧ r.success = !q.hasErrors := by
  cases hload : Description.loadText source with
  | error e =>
    rw [process_of_load_error hload] at h
    cases h
  | ok l =>
    cases c with
    | lower =>
      unfold process at h
      rw [lowerText_of_load hload] at h
      cases h
      have hcounted := Queue.consistent_funnel (Queue.consistent_ofConfig o.diagnostics)
        (l.unit.itemReports l.table o.style)
      refine ⟨l.unit.collect l.table o.style o.diagnostics, hcounted.toCounted, ?_, ?_⟩
      · rw [CUnit.lower_eq]
      · rw [CUnit.lower_eq]
    | layout =>
      obtain ⟨rows, q, hrows, hresult⟩ := layoutText_of_load hload o
      cases hresult.symm.trans h
      have hcounted := TypeTable.counted_layoutReport (t := l.table) l.unit.types
        (Queue.counted_ofConfig o.diagnostics)
      rw [hrows] at hcounted
      exact ⟨q, hcounted, rfl, rfl⟩

theorem success_eq {c : Command} {source : String} {o : Options} {r : CommandResult}
    (h : c.process source o = .ok r) :
    r.success = !r.diagnostics.any Diagnostic.isError := by
  obtain ⟨q, hq, hlisting, hsuccess⟩ := exists_queue h
  rw [hsuccess, hlisting, hq.any_isError_listing]

/-- Where nothing stops a command, the program ends with the verdict of its result. -/
theorem exit_run {σ : Type} {files : Files (StateM σ)} {c : Command} {arguments : List String}
    {source : String} {o : Options} {r : CommandResult} {s s' : σ} (terminal : Bool)
    (ho : Options.parse arguments = .ok o) (hread : files.read o.input s = (.ok source, s'))
    (h : c.process source o = .ok r)
    (hwrite : ∀ path, o.output = some path → ∃ s'', files.write path r.text s' = (.ok (), s'')) :
    (Program.run files terminal (c.word :: arguments) s).1.exit = if r.success then 0 else 1 := by
  rw [Program.run_word, Program.runCommand_of_process ho hread h]
  unfold Program.deliver
  cases hout : o.output with
  | none => rfl
  | some path =>
    obtain ⟨s'', hpath⟩ := hwrite path hout
    simp only [bind, StateT.bind, hpath]
    rfl

/-- **One verdict.**  Where a command returns a result, the result is a success exactly if no
diagnostic it returns is an error, and exactly if the report of these in JSON says so; that report
counts the errors among them; and the program ends with exit status 0 for a success and 1 otherwise,
wherever the result can be written.  The limit on errors is any: dropped errors count too. -/
theorem process_verdict {c : Command} {source : String} {o : Options} {r : CommandResult}
    (h : c.process source o = .ok r) :
    (r.success = true ↔ ∀ d ∈ r.diagnostics, d.severity ≠ .error) ∧
    (∀ success errors, Diagnostic.Says (Diagnostic.listToJsonText r.diagnostics) success errors ↔
      success = r.success ∧ errors = (r.diagnostics.filter fun d => d.severity = .error).length) ∧
    ∀ {σ : Type} (files : Files (StateM σ)) (terminal : Bool) (arguments : List String) (s s' : σ),
      Options.parse arguments = .ok o → files.read o.input s = (.ok source, s') →
      (∀ path, o.output = some path → ∃ s'', files.write path r.text s' = (.ok (), s'')) →
      (Program.run files terminal (c.word :: arguments) s).1.exit = if r.success then 0 else 1 := by
  have hany := success_eq h
  refine ⟨?_, fun success errors => ?_, fun files terminal arguments s s' ho hread hwrite => ?_⟩
  · simp [hany, Diagnostic.isError]
  · have hcount : Diagnostic.errorCount r.diagnostics =
        (r.diagnostics.filter fun d => d.severity = .error).length := by
      rw [← List.countP_eq_length_filter]
      rfl
    rw [Diagnostic.says_iff, ← hany, hcount]
  · exact exit_run terminal ho hread h hwrite

/-! ## Two errors and room for one -/

/-- Two variables of variable width. -/
def varbitsText : String := "[[],[[\"a\",\"varbit<8>\"],[\"b\",\"varbit<8>\"]]]"

def varbits : Loaded :=
  ⟨⟨.initial, #[⟨.varbits 8, .dummy⟩, ⟨.varbits 8, .dummy⟩], []⟩, ⟨[], [⟨"a", 0⟩, ⟨"b", 1⟩]⟩⟩

theorem loadText_varbitsText : Description.loadText varbitsText = .ok varbits := by
  have htext : Description.ofText varbitsText =
      .ok ⟨[], [⟨"a", "varbit<8>"⟩, ⟨"b", "varbit<8>"⟩]⟩ := by
    decide +kernel
  have hparse : Description.parse ⟨[], [⟨"a", "varbit<8>"⟩, ⟨"b", "varbit<8>"⟩]⟩ =
      .ok ⟨[], [⟨"a", .varbits 8⟩, ⟨"b", .varbits 8⟩]⟩ := by
    decide +kernel
  unfold Description.loadText
  rw [htext]
  show Description.load _ = _
  unfold Description.load
  rw [hparse]
  rfl

theorem diagnostics_varbits (style : Style) :
    (varbits.unit.lower varbits.table style ⟨1, true⟩).diagnostics =
    [varbits.table.unsupportedType 0, Queue.tooManyErrors 1 1] := by
  have hlower : ∀ ty < 2, varbits.table.lower [] ty = .fail (varbits.table.unsupportedType ty) := by
    intro ty hty
    have hkind : varbits.table.kind ty = .varbits 8 := by
      revert ty
      decide +kernel
    rw [TypeTable.lower, hkind]
  have hreports : varbits.unit.itemReports varbits.table style =
      [[varbits.table.unsupportedType 0], [varbits.table.unsupportedType 1]] := by
    show [CUnit.Item.reports _ style (.declaration ⟨"a", 0⟩),
        CUnit.Item.reports _ style (.declaration ⟨"b", 1⟩)] = _
    unfold CUnit.Item.reports CUnit.Item.outcome
    simp only [CUnit.Item.type, hlower 0 (by decide), hlower 1 (by decide)]
    rfl
  rw [CUnit.lower_eq]
  unfold CUnit.collect
  rw [hreports]
  show List.mergeSort [varbits.table.unsupportedType 0] _ ++ [Queue.tooManyErrors 1 1] = _
  rw [List.mergeSort_singleton]
  rfl

/-- Two variables of variable width and room for one error: the report counts two, the second
for what was dropped. -/
theorem process_verdict_dropped :
    let o : Options := ⟨"t.json", none, default, ⟨1, true⟩, .human⟩
    let arguments := ["t.json", "--error-limit=1"]
    let files : Files (StateM Unit) := ⟨fun _ => pure (.ok varbitsText), fun _ _ => pure (.ok ())⟩
    Options.parse arguments = .ok o ∧ ∃ r, Command.process .lower varbitsText o = .ok r ∧
      Diagnostic.Says (Diagnostic.listToJsonText r.diagnostics) false 2 ∧
      (∃ d ∈ r.diagnostics, d.severity = .error) ∧
      (Program.run files false ("lower" :: arguments) ()).1.exit = 1 := by
  intro o arguments files
  have ho : Options.parse arguments = .ok o := by decide +kernel
  have hprocess : ∃ r, Command.process .lower varbitsText o = .ok r ∧
      r.diagnostics = [varbits.table.unsupportedType 0, Queue.tooManyErrors 1 1] := by
    let u := varbits.unit.lower varbits.table o.style o.diagnostics
    refine ⟨⟨u.code, u.diagnostics, u.success⟩, ?_, diagnostics_varbits o.style⟩
    unfold process lowerText
    rw [loadText_varbitsText]
    rfl
  obtain ⟨r, hr, hdiagnostics⟩ := hprocess
  obtain ⟨hsuccess, hjson, hexit⟩ := process_verdict hr
  have herror : ∃ d ∈ r.diagnostics, d.severity = .error := by
    rw [hdiagnostics]
    exact ⟨_, List.mem_cons_self, rfl⟩
  have hfailed : r.success = false := by
    by_contra hgood
    obtain ⟨d, hd, herror⟩ := herror
    exact hsuccess.mp (by simpa using hgood) d hd herror
  refine ⟨ho, r, hr, (hjson false 2).mpr ⟨hfailed.symm, ?_⟩, herror, ?_⟩
  · rw [hdiagnostics]
    rfl
  · have hrun := hexit files false arguments () () ho rfl fun _ _ => ⟨(), rfl⟩
    rw [hfailed] at hrun
    exact hrun

end Command

end WireTypes
