import WireTypes.Diagnostic.Basic

/-!
# Diagnostics on a terminal

A diagnostic is a headline, a line for each place, a line for each remark, and an empty line:

error[E3002]: header `udp_t` is 60 bits wide, not a whole number of bytes --> l2switch.json@10..15:
60 bits = help: add a `bit<4>` padding field

Labels at the dummy span are not shown.  Colours are escape sequences around words; without colours
the words stand alone.
-/

namespace WireTypes

/-- When to colour. -/
inductive ColorMode where
  | auto
  | always
  | never
  deriving DecidableEq, Repr

/-- Colours are used; `auto` uses them on a terminal. -/
def ColorMode.useColors (mode : ColorMode) (terminal : Bool) : Bool :=
  match mode with
  | .auto => terminal
  | .always => true
  | .never => false

/-- The sequences that start a colour; an empty one colours nothing. -/
structure Palette where
  error : String
  warning : String
  note : String
  help : String
  emphasis : String
  context : String
  deriving DecidableEq, Repr

namespace Palette

/-- Ends every colour. -/
def reset : String := "\x1b[0m"

/-- Bold colours. -/
def ansi : Palette :=
  { error := "\x1b[1;31m"
    warning := "\x1b[1;33m"
    note := "\x1b[1;36m"
    help := "\x1b[1;32m"
    emphasis := "\x1b[1m"
    context := "\x1b[1;34m" }

def plain : Palette := ⟨"", "", "", "", "", ""⟩

def ofSeverity (p : Palette) : Severity → String
  | .error => p.error
  | .warning => p.warning
  | .note => p.note

end Palette

/-- Text between a colour and the end of colours. -/
def paint (color text : String) : String :=
  if color.isEmpty then text else color ++ text ++ Palette.reset

/-- How diagnostics are shown: the colours, and the name of the description, if it has one. -/
structure Terminal where
  palette : Palette
  origin : Option String
  deriving DecidableEq, Repr

namespace Terminal

def ofMode (mode : ColorMode) (terminal : Bool) (origin : Option String) : Terminal :=
  ⟨if mode.useColors terminal then .ansi else .plain, origin⟩

/-- `origin@start..stop` -/
def location (t : Terminal) (span : Span) : String :=
  match t.origin with
  | some origin => s!"{origin}@{span.display}"
  | none => span.display

def labelLine (t : Terminal) (l : Label) : String :=
  let (marker, color) := if l.primary then ("-->", t.palette.error) else ("...", t.palette.context)
  s!"  {marker} {t.location l.span}: {paint color l.message}\n"

def remarkLine (kind color text : String) : String := s!"  = {paint color kind}: {text}\n"

def headline (t : Terminal) (d : Diagnostic) : String :=
  paint (t.palette.ofSeverity d.severity) d.severity.word ++
    paint t.palette.emphasis s!"[{d.code.number}]" ++ s!": {d.message}\n"

/-- All lines of a diagnostic and an empty one. -/
def render (t : Terminal) (d : Diagnostic) : String :=
  t.headline d ++
    String.join ((d.labels.filter (·.span ≠ .dummy)).map t.labelLine) ++
    String.join (d.notes.map (remarkLine "note" t.palette.emphasis)) ++
    String.join (d.suggestions.map (remarkLine "help" t.palette.help)) ++ "\n"

def renderAll (t : Terminal) (ds : List Diagnostic) : String := String.join (ds.map t.render)

/-- What the summary speaks of. -/
def subject (t : Terminal) : String :=
  match t.origin with
  | some origin => s!"`{origin}`"
  | none => "input"

/-- `previous error` or `2 previous errors` -/
def errorPhrase (n : Nat) : String := if n = 1 then "previous error" else s!"{n} previous errors"

/-- `1 warning` or `2 warnings` -/
def warningPhrase (n : Nat) : String := if n = 1 then "1 warning" else s!"{n} warnings"

/-- The last line; there is none where nothing went wrong. -/
def summary (t : Terminal) (errors warnings : Nat) : String :=
  if 0 < errors then
    paint t.palette.error "error" ++
      s!": could not lower {t.subject} due to {errorPhrase errors}" ++
      (if 0 < warnings then s!"; {warningPhrase warnings} emitted" else "") ++ "\n"
  else if 0 < warnings then
    paint t.palette.warning "warning" ++ s!": {warningPhrase warnings} emitted\n"
  else ""

/-- Diagnostics and their summary. -/
def report (t : Terminal) (ds : List Diagnostic) : String :=
  t.renderAll ds ++ t.summary (Diagnostic.errorCount ds) (Diagnostic.warningCount ds)

end Terminal

end WireTypes
