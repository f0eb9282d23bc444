/-!
# Writers

Text that grows at its end, with the level of indentation at which the next line starts.  C text is
written through a writer, so that nested definitions and initialisers come out indented.
-/

namespace WireTypes

/-- How lowered types are printed. -/
structure Style where
  /-- Blanks for each level of indentation. -/
  indentWidth : Nat
  /-- Members carry a comment that spells their type. -/
  comments : Bool
  /-- Comments also give the widths, where stored and logical width differ. -/
  annotateWidths : Bool
  /-- A unit starts with a banner and an include line. -/
  preamble : Bool
  /-- Items may be lowered at the same time; no answer depends on it. -/
  parallel : Bool
  deriving DecidableEq, Repr

namespace Style

/-- Four blanks, comments without widths, a preamble. -/
def standard : Style := ⟨4, true, false, true, true⟩

instance : Inhabited Style := ⟨standard⟩

/-- Nothing but the C text. -/
def minimal : Style := { standard with comments := false, preamble := false, parallel := false }

end Style

/-- Text written so far, and how to go on. -/
structure Writer where
  output : String
  level : Nat
  indentWidth : Nat
  comments : Bool
  annotateWidths : Bool
  deriving DecidableEq, Repr

namespace Writer

/-- Nothing written, at level 0. -/
def ofStyle (style : Style) : Writer :=
  ⟨"", 0, style.indentWidth, style.comments, style.annotateWidths⟩

instance : Inhabited Writer := ⟨ofStyle .standard⟩

def append (w : Writer) (text : String) : Writer := { w with output := w.output ++ text }

def space (w : Writer) : Writer := w.append " "

def newline (w : Writer) : Writer := w.append "\n"

def appendLine (w : Writer) (text : String) : Writer := (w.append text).newline

/-- Blanks at the start of a line; their number is a 64-bit word. -/
def margin (w : Writer) : Nat := w.level * w.indentWidth % UInt64.size

def startLine (w : Writer) : Writer := w.append ("".pushn ' ' w.margin)

def indent (w : Writer) : Writer := { w with level := w.level + 1 }

/-- One level back; level 0 stays. -/
def dedent (w : Writer) : Writer := { w with level := w.level - 1 }

/-- Ends a statement, and the line if asked to. -/
def endStatement (w : Writer) (line : Bool) : Writer :=
  let w := w.append ";"
  if line then w.newline else w

/-- Opens a brace and goes one level deeper. -/
def openBlock (w : Writer) : Writer := (w.appendLine "\x7b").indent

/-- Goes one level back and closes the brace, with a semicolon if it ends a statement. -/
def closeBlock (w : Writer) (statement : Bool) : Writer :=
  let w := w.dedent.startLine.append "\x7d"
  if statement then w.endStatement true else w

/-- The text so far, and a writer that goes on without it. -/
def take (w : Writer) : String × Writer := (w.output, { w with output := "" })

@[simp] theorem output_append (w : Writer) (text : String) :
    (w.append text).output = w.output ++ text := rfl

@[simp] theorem level_append (w : Writer) (text : String) : (w.append text).level = w.level := rfl

end Writer

end WireTypes
