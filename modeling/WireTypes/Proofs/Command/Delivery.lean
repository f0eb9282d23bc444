import WireTypes.Proofs.Command.Agreement
import WireTypes.Proofs.Command.Verdict
import WireTypes.Proofs.Directory
import WireTypes.Proofs.Options.Output

/-!
# All or nothing

A command that fails before it has a result leaves no trace but what it says: it prints no output
and changes no file.  One that has a result delivers it whole, to one place (`Delivered`), whatever
has been reported.

The files may be any that are lawful (`Files.Lawful`): reading and failing to write change nothing,
and what is written is read back.  A directory is (`Directory.lawful_asFiles`).

* `runCommand_failed`: what becomes of a command without a result;
* `delivered_deliver`: what becomes of a result;
* `run_all_or_nothing`: what becomes of a command, for all arguments and files.
-/

namespace WireTypes

/-! ## Laws of files -/

section

variable {σ κ α : Type}

/-- The text can be written under the path. -/
def Files.Writes (files : Files (StateM σ)) (s : σ) (path text : String) : Prop :=
  (files.write path text s).1 = .ok ()

/-- What a run relies on, where `place` tells where a path leads and `look` what is there. -/
structure Files.Lawful (files : Files (StateM σ)) (place : σ → String → Option κ)
    (look : σ → κ → α) : Prop where
  /-- Reading changes nothing. -/
  after_read (path : String) (s : σ) : (files.read path s).2 = s
  /-- What cannot be written changes nothing. -/
  after_refused {path text : String} {s : σ} (h : ¬ files.Writes s path text) :
    (files.write path text s).2 = s
  /-- What is written is read back. -/
  read_written {path text : String} {s : σ} (h : files.Writes s path text) :
    (files.read path (files.write path text s).2).1 = .ok text
  /-- Nothing changes where the path does not lead. -/
  look_written {path text : String} {s : σ} (h : files.Writes s path text) :
    ∃ here, place s path = some here ∧ ∀ other, other ≠ here →
      look (files.write path text s).2 other = look s other

variable (files : Files (StateM σ)) (place : σ → String → Option κ) (look : σ → κ → α)

/-- Where a text has gone: to the output of the program, or to the file that was named.  What cannot
be written goes nowhere. -/
inductive Delivered (text : String) (s : σ) : Option String → String → σ → Prop
  | printed : Delivered text s none text s
  | written {path : String} {here : κ} {s' : σ} (hplace : place s path = some here)
      (hread : (files.read path s').1 = .ok text)
      (hother : ∀ other, other ≠ here → look s' other = look s other) :
      Delivered text s (some path) "" s'
  | refused {path : String} (hpath : ¬ files.Writes s path text) : Delivered text s (some path) "" s

variable {files place look}

theorem Delivered.read {text path stdout : String} {s s' : σ}
    (h : Delivered files place look text s (some path) stdout s')
    (hpath : files.Writes s path text) : stdout = "" ∧ (files.read path s').1 = .ok text := by
  cases h with
  | written _ hread _ => exact ⟨rfl, hread⟩
  | refused hnot => exact absurd hpath hnot

theorem Files.Lawful.read_eq (h : files.Lawful place look) (path : String) (s : σ) :
    files.read path s = ((files.read path s).1, s) :=
  Prod.ext rfl (h.after_read path s)

/-- A text is refused, and nothing changes, or it is written, and changes one place. -/
theorem Files.Lawful.write_cases (h : files.Lawful place look) (path text : String) (s : σ) :
    (¬ files.Writes s path text ∧ ∃ reason, files.write path text s = (.error reason, s)) ∨
    (files.Writes s path text ∧ ∃ s', files.write path text s = (.ok (), s') ∧
      (files.read path s').1 = .ok text ∧ ∃ here, place s path = some here ∧
        ∀ other, other ≠ here → look s' other = look s other) := by
  cases hwrite : (files.write path text s).1 with
  | error reason =>
    have hpath : ¬ files.Writes s path text := by
      intro hpath
      cases hwrite.symm.trans hpath
    exact .inl ⟨hpath, reason, Prod.ext hwrite (h.after_refused hpath)⟩
  | ok u =>
    have hpath : files.Writes s path text := hwrite
    exact .inr ⟨hpath, _, Prod.ext hwrite rfl, h.read_written hpath, h.look_written hpath⟩

end

namespace Directory

def Writable (d : Directory) (path : String) : Prop := ∃ here, d.target (steps path) = .ok here

/-- Where a text under the path goes. -/
def destination (d : Directory) (path : String) : Option Steps := (d.target (steps path)).toOption

/-- What lies at the end of normal steps. -/
def content (d : Directory) (here : Steps) : Option FileContent := d.files.lookup here

theorem read_asFiles_eq_ok {d : Directory} {path text : String} :
    (asFiles.read path d).1 = .ok text ↔ d.read path = .ok text := by
  show (d.read path).mapError FileFault.message = _ ↔ _
  cases d.read path <;> simp [Except.mapError]

theorem write_asFiles (d : Directory) (path text : String) :
    asFiles.write path text d = ((d.write path text).1.mapError FileFault.message,
      (d.write path text).2) := rfl

theorem writes_asFiles_iff {d : Directory} {path text : String} :
    asFiles.Writes d path text ↔ d.Writable path := by
  unfold Files.Writes Writable
  rw [write_asFiles, write]
  cases d.target (steps path) <;> simp [Except.mapError]

theorem lawful_asFiles : asFiles.Lawful destination content where
  after_read _ _ := rfl
  after_refused {path text d} h := by
    rw [writes_asFiles_iff] at h
    rw [write_asFiles, write]
    cases htarget : d.target (steps path) with
    | error fault => rfl
    | ok here => exact absurd ⟨here, htarget⟩ h
  read_written {path text d} h := by
    obtain ⟨here, htarget⟩ := writes_asFiles_iff.mp h
    rw [write_asFiles, write, htarget]
    exact read_asFiles_eq_ok.mpr (read_put htarget text)
  look_written {path text d} h := by
    obtain ⟨here, htarget⟩ := writes_asFiles_iff.mp h
    refine ⟨here, by rw [destination, htarget]; rfl, fun other hother => ?_⟩
    rw [write_asFiles, write, htarget]
    show (d.put here text).files.lookup other = d.files.lookup other
    rw [lookup_put, if_neg hother]

end Directory

/-! ## Runs -/

/-- The arguments are in order, and the file that they name holds a description. -/
structure Command.Given {σ : Type} (files : Files (StateM σ)) (s : σ)
    (arguments : List String) (o : Options) (source : String) (l : Loaded) : Prop where
  options : Options.parse arguments = .ok o
  input : (files.read o.input s).1 = .ok source
  loads : Description.loadText source = .ok l

namespace Program

variable {σ κ α : Type} {files : Files (StateM σ)} {place : σ → String → Option κ}
  {look : σ → κ → α} {c : Command} {arguments : List String} {s : σ}

/-- What may become of a command: its outcome, and the files afterwards. -/
structure AllOrNothing (files : Files (StateM σ)) (place : σ → String → Option κ)
    (look : σ → κ → α) (c : Command) (arguments : List String) (s : σ) (out : Outcome)
    (after : σ) : Prop where
  /-- Without a description nothing is printed and nothing changes. -/
  nothing : (∀ o source l, ¬ Command.Given files s arguments o source l) →
    out.stdout = "" ∧ after = s ∧ out.exit = 1
  /-- With one there is a result, and it goes to one place. -/
  all : ∀ o source l, Command.Given files s arguments o source l → ∃ r, c.process source o = .ok r ∧
    Delivered files place look r.text s (Options.outputs arguments).getLast? out.stdout after ∧
    (out.exit = 0 ↔ (∀ x ∈ r.diagnostics, x.severity ≠ .error) ∧
      ∀ path, (Options.outputs arguments).getLast? = some path → files.Writes s path r.text) ∧
    (out.exit = 0 ∨ out.exit = 1)

/-- Before there is a result, nothing happens. -/
theorem runCommand_failed (hfiles : files.Lawful place look)
    (h : ∀ o source l, ¬ Command.Given files s arguments o source l) (terminal : Bool) :
    ∃ said, runCommand files terminal c arguments s = (.failed said, s) := by
  unfold runCommand
  cases ho : Options.parse arguments with
  | error e => exact ⟨_, rfl⟩
  | ok o =>
    simp only [bind, StateT.bind]
    rw [hfiles.read_eq]
    cases hinput : (files.read o.input s).1 with
    | error reason => exact ⟨_, rfl⟩
    | ok source =>
      cases hload : Description.loadText source with
      | ok l => exact absurd ⟨ho, hinput, hload⟩ (h o source l)
      | error e =>
        simp only [Command.process_of_load_error hload]
        exact ⟨_, rfl⟩

/-- A result is delivered, and the exit status is 0 if nothing is wrong with it and it could be. -/
theorem delivered_deliver (hfiles : files.Lawful place look) (s : σ) (terminal : Bool) (o : Options)
    (r : CommandResult) :
    let out := (deliver files terminal o r s).1
    Delivered files place look r.text s o.output out.stdout (deliver files terminal o r s).2 ∧
      (out.exit = 0 ↔ r.success = true ∧ ∀ path, o.output = some path →
        files.Writes s path r.text) ∧
      (out.exit = 0 ∨ out.exit = 1) := by
  have hexit : ((if r.success then 0 else 1 : Nat) = 0 ↔ r.success = true) ∧
      ((if r.success then 0 else 1 : Nat) = 0 ∨ (if r.success then 0 else 1 : Nat) = 1) := by
    cases r.success <;> simp
  unfold deliver
  cases o.output with
  | none =>
    refine ⟨.printed, hexit.1.trans ⟨fun h => ⟨h, ?_⟩, And.left⟩, hexit.2⟩
    intro path hpath
    cases hpath
  | some path =>
    simp only [bind, StateT.bind]
    rcases hfiles.write_cases path r.text s with
      ⟨hpath, reason, hwrite⟩ | ⟨hpath, s', hwrite, hread, here, hplace, hother⟩
    · rw [hwrite]
      refine ⟨.refused hpath, iff_of_false Nat.one_ne_zero ?_, .inr rfl⟩
      exact fun h => hpath (h.2 path rfl)
    · rw [hwrite]
      refine ⟨.written hplace hread hother, ?_, hexit.2⟩
      refine hexit.1.trans ⟨fun h => ⟨h, fun path' hpath' => ?_⟩, And.left⟩
      exact Option.some.inj hpath' ▸ hpath

/-- A run over lawful files is all or nothing. -/
theorem allOrNothing_run (hfiles : files.Lawful place look) (c : Command) (arguments : List String)
    (terminal : Bool) (s : σ) :
    AllOrNothing files place look c arguments s (run files terminal (c.word :: arguments) s).1
      (run files terminal (c.word :: arguments) s).2 := by
  rw [run_word]
  constructor
  · intro h
    obtain ⟨said, hrun⟩ := runCommand_failed (c := c) hfiles h terminal
    rw [hrun]
    exact ⟨rfl, rfl, rfl⟩
  · intro o source l h
    obtain ⟨r, hr⟩ := Command.exists_result h.loads c o
    have hread : files.read o.input s = (.ok source, s) := by
      rw [hfiles.read_eq, h.input]
    have hsuccess : r.success = true ↔ ∀ x ∈ r.diagnostics, x.severity ≠ .error := by
      simp [Command.success_eq hr, Diagnostic.isError]
    refine ⟨r, hr, ?_⟩
    rw [runCommand_of_process h.options hread hr terminal, ← hsuccess,
      ← Options.output_of_parse h.options]
    exact delivered_deliver hfiles s terminal o r

/-- **All or nothing.**  For all arguments and lawful files, among them all directories: if the
arguments cannot be read, or they name no file with a description, nothing is printed, no file
changes, and the exit status is 1.  Otherwise the command has a result, and whatever errors were
reported all of its text goes to one place: the last file named behind `-o`, if it can be written
there, or the output of the program.  The exit status is 0 exactly if no error was reported and the
text could be written, and 1 otherwise.  What lowering cannot do is always reported in a result, and
stops neither command. -/
theorem run_all_or_nothing (c : Command) (arguments : List String) (terminal : Bool) :
    (∀ {σ κ α : Type} (files : Files (StateM σ)) (place : σ → String → Option κ) (look : σ → κ → α),
      files.Lawful place look → ∀ s, AllOrNothing files place look c arguments s
        (run files terminal (c.word :: arguments) s).1
          (run files terminal (c.word :: arguments) s).2) ∧
    (∀ d : Directory,
      AllOrNothing Directory.asFiles Directory.destination Directory.content c arguments d
      (run Directory.asFiles terminal (c.word :: arguments) d).1
      (run Directory.asFiles terminal (c.word :: arguments) d).2) ∧
    (∀ (d : Directory) (path text : String),
      (Directory.asFiles.Writes d path text ↔ d.Writable path) ∧
      ((Directory.asFiles.read path d).1 = .ok text ↔ d.read path = .ok text)) ∧
    ∀ source o e, c.process source o ≠ .error (.lowering e) :=
  ⟨fun _ _ _ hfiles s => allOrNothing_run hfiles c arguments terminal s,
    fun d => allOrNothing_run Directory.lawful_asFiles c arguments terminal d,
    fun _ _ _ => ⟨Directory.writes_asFiles_iff, Directory.read_asFiles_eq_ok⟩,
    Command.process_ne_lowering c⟩

theorem steps_a : Directory.steps "a" = ["a"] := by
  unfold Directory.steps String.splitOn
  rw [if_neg (by decide), String.splitOnAux, if_neg (by decide), if_neg (by decide),
    String.splitOnAux, if_pos (by decide)]
  decide +kernel

/-- The description `forward` in a file whose name is given again behind `-o`: the
table takes its place. -/
theorem run_all_or_nothing_forward :
    let d : Directory := ⟨[(["a"], .text Command.forwardText)]⟩
    let arguments := ["a", "-o", "b", "-o", "a"]
    let o : Options := ⟨"a", some "a", .standard, .standard, .human⟩
    Directory.asFiles.Lawful Directory.destination Directory.content ∧
      Command.Given Directory.asFiles d arguments o Command.forwardText Description.forwardLoaded ∧
      ∃ r, Command.process .layout Command.forwardText o = .ok r ∧
        (run Directory.asFiles false ("layout" :: arguments) d).1.stdout = "" ∧
        (run Directory.asFiles false ("layout" :: arguments) d).2.read "a" = .ok r.text := by
  intro d arguments o
  have hread : d.read "a" = .ok Command.forwardText := by
    unfold Directory.read
    rw [steps_a]
    rfl
  have hwritable : d.Writable "a" := by
    refine ⟨["a"], ?_⟩
    rw [steps_a]
    rfl
  have hgiven : Command.Given Directory.asFiles d arguments o Command.forwardText
      Description.forwardLoaded :=
    ⟨by decide +kernel, Directory.read_asFiles_eq_ok.mpr hread, Command.loadText_forwardText⟩
  obtain ⟨hfiles, -, hdirectory, -⟩ := run_all_or_nothing .layout arguments false
  obtain ⟨r, hr, hdelivered, -⟩ :=
    (hfiles Directory.asFiles _ _ Directory.lawful_asFiles d).all _ _ _ hgiven
  have hout : (Options.outputs arguments).getLast? = some "a" := by decide +kernel
  rw [hout] at hdelivered
  obtain ⟨hstdout, hafter⟩ := hdelivered.read ((hdirectory d "a" r.text).1.mpr hwritable)
  exact ⟨Directory.lawful_asFiles, hgiven, r, hr, hstdout, (hdirectory _ _ _).2.mp hafter⟩

end Program

end WireTypes
