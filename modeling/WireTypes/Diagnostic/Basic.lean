import WireTypes.Diagnostic.Code
import WireTypes.Span

/-!
# Diagnostics

A problem found in a description: its cause, how bad it is, the places it concerns, and remarks.
-/

namespace WireTypes

/-- How bad a problem is.  C that comes with an error must not be used. -/
inductive Severity where
  | error
  | warning
  | note
  deriving DecidableEq, Repr

def Severity.word : Severity → String
  | .error => "error"
  | .warning => "warning"
  | .note => "note"

/-- A place and what to say about it.  Primary labels mark what is at fault, the
others what surrounds it. -/
structure Label where
  span : Span
  message : String
  primary : Bool
  deriving DecidableEq, Repr

structure Diagnostic where
  code : Code
  severity : Severity
  message : String
  labels : List Label
  notes : List String
  suggestions : List String
  deriving DecidableEq, Repr

namespace Diagnostic

/-- An error without places and remarks. -/
def error (code : Code) (message : String) : Diagnostic := ⟨code, .error, message, [], [], []⟩

/-- A warning without places and remarks. -/
def warning (code : Code) (message : String) : Diagnostic := ⟨code, .warning, message, [], [], []⟩

/-- Marks what is at fault. -/
def label (d : Diagnostic) (span : Span) (message : String) : Diagnostic :=
  { d with labels := d.labels ++ [⟨span, message, true⟩] }

/-- Marks what surrounds the fault. -/
def context (d : Diagnostic) (span : Span) (message : String) : Diagnostic :=
  { d with labels := d.labels ++ [⟨span, message, false⟩] }

def note (d : Diagnostic) (text : String) : Diagnostic := { d with notes := d.notes ++ [text] }

def suggest (d : Diagnostic) (text : String) : Diagnostic :=
  { d with suggestions := d.suggestions ++ [text] }

/-- An error of the program itself. -/
def internal (message : String) : Diagnostic :=
  (error .internal message).note "this is a bug in the lowering stage; please report it"

def isError (d : Diagnostic) : Bool := d.severity == .error

def isWarning (d : Diagnostic) : Bool := d.severity == .warning

/-- The first place at fault. -/
def primarySpan? (d : Diagnostic) : Option Span := (d.labels.find? (·.primary)).map (·.span)

/-- Where the diagnostic is listed: at the start of the first place at fault, else at the front. -/
def position (d : Diagnostic) : UInt32 := (d.primarySpan?.map (·.start)).getD 0

/-- One line: severity, code and message. -/
def headline (d : Diagnostic) : String := s!"{d.severity.word}[{d.code.number}]: {d.message}"

def errorCount (ds : List Diagnostic) : Nat := ds.countP isError

def warningCount (ds : List Diagnostic) : Nat := ds.countP isWarning

end Diagnostic

end WireTypes
