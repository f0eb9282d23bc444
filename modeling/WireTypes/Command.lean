import WireTypes.Description.Load
import WireTypes.Diagnostic.Report
import WireTypes.Diagnostic.Terminal
import WireTypes.Directory
import WireTypes.Layout
import WireTypes.Options

/-!
# Commands

The program behind the command line: it reads a description, lowers or measures its types, reports
what is wrong, and writes the result to a file or to its output.  Whatever goes wrong before there
is a result leaves output and files alone.

`run` is written over two operations on files, so it runs in a real directory as well as in a
`Directory`.
-/

namespace WireTypes

/-- What stops a command before it has written a result. -/
inductive CommandError where
  | read (path reason : String)
  | write (path reason : String)
  | load (e : LoadError)
  | lowering (e : LoweringError)
  | unknownCode (text : String)
  deriving DecidableEq, Repr

namespace CommandError

/-- What is wrong with a text that is no description.  The wording is this library's own: it
gives the kind of the fault, while a reader of JSON that keeps count of lines also tells what
it expected and where. -/
def faultMessage : Json.Fault → String
  | .malformed => "malformed text"
  | .cutShort => "unexpected end of text"
  | .mismatched => "unexpected value"

def message : CommandError → String
  | .read path reason => s!"cannot read `{path}`: {reason}"
  | .write path reason => s!"cannot write `{path}`: {reason}"
  | .load (.json fault) => s!"invalid type description: {faultMessage fault}"
  | .load (.malformedType text) => s!"malformed type `{text}`"
  | .load (.duplicateType name) => s!"type `{name}` is declared more than once"
  | .lowering e => e.message
  | .unknownCode text => s!"unknown error code `{text}`"

end CommandError

/-- A result: its text, what was reported, and whether no error was. -/
structure CommandResult where
  text : String
  diagnostics : List Diagnostic
  success : Bool
  deriving DecidableEq, Repr

/-- The commands that read a description. -/
inductive Command where
  | lower
  | layout
  deriving DecidableEq, Repr

namespace Command

def word : Command → String
  | .lower => "lower"
  | .layout => "layout"

def lowerText (source : String) (o : Options) : Except CommandError LoweredUnit := do
  let d ← (Description.loadText source).mapError .load
  return d.unit.lower d.table o.style o.diagnostics

def layoutText (source : String) (o : Options) : Except CommandError CommandResult := do
  let d ← (Description.loadText source).mapError .load
  let (entries, q) := d.table.layoutReport (.ofConfig o.diagnostics) d.unit.types
  let entries ← entries.mapError .lowering
  return ⟨LayoutEntry.table entries, q.listing, !q.hasErrors⟩

/-- What a command makes of a description. -/
def process (c : Command) (source : String) (o : Options) : Except CommandError CommandResult :=
  match c with
  | .lower => (lowerText source o).map fun u => ⟨u.code, u.diagnostics, u.success⟩
  | .layout => layoutText source o

def explain (text : String) : Except CommandError String :=
  match Code.ofNumber? text with
  | some code => .ok s!"{code.number}: {code.explanation}\n"
  | none => .error (.unknownCode text)

/-! ## Reports -/

/-- What is said of diagnostics.  People are told nothing where there is nothing to tell. -/
def reportText (terminal : Bool) (format : MessageFormat) (origin : Option String)
    (ds : List Diagnostic) : String :=
  match format with
  | .human => if ds.isEmpty then "" else (Terminal.ofMode .auto terminal origin).report ds
  | .json => Diagnostic.listToJsonText ds ++ "\n"

def errorText (terminal : Bool) (format : MessageFormat) (e : CommandError) : String :=
  let plain :=
    match format with
    | .human => s!"error: {e.message}\n"
    | .json => (Json.failure e.message).render ++ "\n"
  match e with
  | .lowering l =>
    match l.diagnostic? with
    | some d => reportText terminal format none [d]
    | none => plain
  | _ => plain

end Command

/-- What a run of the program leaves: its exit status and what it printed. -/
structure Outcome where
  exit : Nat
  stdout : String
  stderr : String
  deriving DecidableEq, Repr

namespace Outcome

def done (stdout : String) : Outcome := ⟨0, stdout, ""⟩

def failed (stderr : String) : Outcome := ⟨1, "", stderr⟩

end Outcome

/-- Reading and writing files by path; failures are told in words. -/
structure Files (m : Type → Type) where
  read : String → m (Except String String)
  write : String → String → m (Except String Unit)

def Directory.asFiles : Files (StateM Directory) where
  read path := do return ((← get).read path).mapError FileFault.message
  write path text := modifyGet fun d =>
    let (result, d) := d.write path text
    (result.mapError FileFault.message, d)

namespace Program

def version : String := "pebblec 0.1.0-alpha.1\n"

/-- What the program can do. -/
def usage : String :=
  "Pebble: protocol type lowering to C\n" ++
  "\n" ++
  "Usage: pebblec <command> [options]\n" ++
  "\n" ++
  "Commands:\n" ++
  "  lower <types.json>    Emit C type definitions and variables\n" ++
  "  layout <types.json>   Print widths, sizes and alignments\n" ++
  "  explain <code>        Explain an error code (e.g., E3002)\n" ++
  "  help                  Show this help message\n" ++
  "  version               Show version information\n" ++
  "\n" ++
  "Options for lower and layout:\n" ++
  "  -o <path>                 Write output to <path> instead of stdout\n" ++
  "  --no-comments             Omit source-type comments on members\n" ++
  "  --annotate-widths         Note padded widths in member comments\n" ++
  "  --no-preamble             Omit the banner and include line\n" ++
  "  --indent=<n>              Spaces per indentation level (default 4)\n" ++
  "  --sequential              Lower on one thread\n" ++
  "  --error-limit=<n>         Stop reporting after n errors (0 = no limit)\n" ++
  "  --message-format=<fmt>    Diagnostics as `human` (default) or `json`\n" ++
  "\n" ++
  "Set RUST_LOG (e.g. RUST_LOG=pebble_lower=debug) to trace lowering.\n"

/-- What is said of arguments that cannot be read. -/
def usageErrorText (c : Command) (e : UsageError) : String :=
  s!"error: {e.message}\n\n" ++ s!"Usage: pebblec {c.word} <types.json> [options]\n" ++
    "Run `pebblec help` for the list of options.\n"

/-- Writes a result to the place that the options name, behind what was said already. -/
def deliver {m : Type → Type} [Monad m] (files : Files m) (terminal : Bool) (o : Options)
    (r : CommandResult) : m Outcome := do
  let said := Command.reportText terminal o.format (some o.input) r.diagnostics
  let exit := if r.success then 0 else 1
  match o.output with
  | none => return ⟨exit, r.text, said⟩
  | some path =>
    match ← files.write path r.text with
    | .ok () => return ⟨exit, "", said⟩
    | .error reason =>
      return .failed (said ++ Command.errorText terminal o.format (.write path reason))

/-- Runs a command that reads a description. -/
def runCommand {m : Type → Type} [Monad m] (files : Files m) (terminal : Bool) (c : Command)
    (arguments : List String) : m Outcome := do
  match Options.parse arguments with
  | .error e => return .failed (usageErrorText c e)
  | .ok o =>
    match ← files.read o.input with
    | .error reason => return .failed (Command.errorText terminal o.format (.read o.input reason))
    | .ok source =>
      match c.process source o with
      | .error e => return .failed (Command.errorText terminal o.format e)
      | .ok r => deliver files terminal o r

def runExplain : List String → Outcome
  | [] => .failed "Usage: pebblec explain <ERROR_CODE>\nExample: pebblec explain E3002\n"
  | text :: _ =>
    match Command.explain text with
    | .ok explanation => .done explanation
    | .error e =>
      .failed s!"error: {e.message}\nCodes look like E3001; lowering errors are E3xxx.\n"

/-- Runs the program.  `terminal` tells whether reports go to a terminal, where they are
coloured. -/
def run {m : Type → Type} [Monad m] (files : Files m) (terminal : Bool) : List String → m Outcome
  | [] => return ⟨1, usage, ""⟩
  | word :: arguments =>
    match word with
    | "lower" => runCommand files terminal .lower arguments
    | "layout" => runCommand files terminal .layout arguments
    | "explain" | "--explain" => return runExplain arguments
    | "help" | "--help" | "-h" => return .done usage
    | "version" | "--version" | "-V" => return .done version
    | word => return ⟨1, usage, s!"Unknown command: {word}\n\n"⟩

/-- Runs the program in a directory, away from any terminal. -/
def runIn (d : Directory) (arguments : List String) : Outcome × Directory :=
  (run Directory.asFiles false arguments).run d

end Program

end WireTypes
