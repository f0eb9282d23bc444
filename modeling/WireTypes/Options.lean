import WireTypes.Diagnostic.Queue
import WireTypes.Text.Blank
import WireTypes.Text.Numeral
import WireTypes.Writer

/-!
# Options

The arguments behind `lower` and `layout`: an input file, and options in any order.  `-o` takes the
argument behind it, whatever that is; every other argument stands for itself.  Of options that set
the same thing the last one counts; of several faults the first.
-/

namespace WireTypes

/-- What is wrong with a list of arguments. -/
inductive UsageError where
  | noOutputName
  | notANumber (argument : String)
  | unknownFormat (format : String)
  | unknownOption (argument : String)
  | unexpectedArgument (argument : String)
  | noInput
  deriving DecidableEq, Repr

def UsageError.message : UsageError → String
  | .noOutputName => "`-o` needs a file name"
  | .notANumber argument => s!"`{argument}` expects a number"
  | .unknownFormat format => s!"unknown message format `{format}`"
  | .unknownOption argument => s!"unknown option `{argument}`"
  | .unexpectedArgument argument => s!"unexpected argument `{argument}`"
  | .noInput => "missing input file"

/-- How diagnostics are shown. -/
inductive MessageFormat where
  | human
  | json
  deriving DecidableEq, Repr

/-- What to read, where to write, and how. -/
structure Options where
  input : String
  output : Option String
  style : Style
  diagnostics : QueueConfig
  format : MessageFormat
  deriving DecidableEq, Repr

namespace Options

/-- Options that are still being read; the input file may be to come. -/
structure Draft where
  input : Option String
  output : Option String
  style : Style
  diagnostics : QueueConfig
  format : MessageFormat
  deriving DecidableEq, Repr

def Draft.initial : Draft := ⟨none, none, .standard, .standard, .human⟩

/-- The count that an option gives, a number of 64 bits. -/
def count (argument : String) (value : List Char) : Except UsageError Nat :=
  match Text.numeral? UInt64.size value with
  | some n => .ok n
  | none => .error (.notANumber argument)

def formatOfName (name : String) : Except UsageError MessageFormat :=
  if name = "human" then .ok .human
  else if name = "json" then .ok .json
  else .error (.unknownFormat name)

/-- Options without a value. -/
def flag? (argument : String) (s : Style) : Option Style :=
  match argument with
  | "--no-comments" => some { s with comments := false }
  | "--annotate-widths" => some { s with annotateWidths := true }
  | "--no-preamble" => some { s with preamble := false }
  | "--sequential" => some { s with parallel := false }
  | _ => none

/-- The value behind the name of an option and its `=`. -/
def value? (name : String) (argument : String) : Option (List Char) :=
  Text.after? (name ++ "=").toList argument.toList

/-- Reads an argument that stands for itself. -/
def Draft.apply (d : Draft) (argument : String) : Except UsageError Draft :=
  match flag? argument d.style with
  | some style => .ok { d with style }
  | none =>
    match value? "--indent" argument, value? "--error-limit" argument,
      value? "--message-format" argument with
    | some v, _, _ => (count argument v).map fun n => { d with style.indentWidth := n }
    | _, some v, _ => (count argument v).map fun n => { d with diagnostics.errorLimit := n }
    | _, _, some v => (formatOfName (String.ofList v)).map fun format => { d with format }
    | none, none, none =>
      if argument.startsWith "-" then .error (.unknownOption argument)
      else if d.input.isNone then .ok { d with input := some argument }
      else .error (.unexpectedArgument argument)

/-- Reads arguments from left to right. -/
def Draft.applyAll (d : Draft) : List String → Except UsageError Draft
  | [] => .ok d
  | ["-o"] => .error .noOutputName
  | "-o" :: path :: rest => { d with output := some path }.applyAll rest
  | argument :: rest =>
    match d.apply argument with
    | .ok d => d.applyAll rest
    | .error e => .error e

/-- The options, if there is an input file. -/
def Draft.finish (d : Draft) : Except UsageError Options :=
  match d.input with
  | some input => .ok ⟨input, d.output, d.style, d.diagnostics, d.format⟩
  | none => .error .noInput

/-- Reads the arguments behind a command. -/
def parse (arguments : List String) : Except UsageError Options := do
  (← Draft.initial.applyAll arguments).finish

end Options

end WireTypes
