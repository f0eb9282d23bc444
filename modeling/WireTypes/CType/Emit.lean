import WireTypes.CType.Declare
import WireTypes.Writer

/-!
# Definitions and zero values

Both are written through a `Writer`.  A definition stops at the first member that cannot be
declared; what was written before it stays, and the block stays open.
-/

namespace WireTypes

/-- A writer after an operation that may fail, and whether it did. -/
structure Written where
  writer : Writer
  result : Except LoweringError Unit

namespace Written

def done (w : Writer) : Written := ⟨w, .ok ()⟩

/-- Adds a text, if there is one. -/
def ofText (w : Writer) : Except LoweringError String → Written
  | .ok text => done (w.append text)
  | .error e => ⟨w, .error e⟩

/-- Goes on where nothing went wrong. -/
def andThen (x : Written) (f : Writer → Written) : Written :=
  match x.result with
  | .ok () => f x.writer
  | .error _ => x

end Written

namespace CType

/-- ` [logical/stored bits]`, where the two differ. -/
def widthRemark (ty : CType) : String :=
  match ty.extent? with
  | some e => if e.logical = e.stored then "" else s!" [{e.logical}/{e.stored} bits]"
  | none => ""

def memberComment (w : Writer) (m : Member) (ty : CType) : String :=
  " /* " ++ m.source ++ (m.comment.elim "" fun text => " " ++ text) ++
    (if w.annotateWidths then ty.widthRemark else "") ++ " */"

/-- What stands behind the declaration of a member. -/
def memberEnd (w : Writer) (m : Member) (ty : CType) : String :=
  ";" ++ if w.comments then memberComment w m ty else ""

/-- One line for each member, up to the first that cannot be declared. -/
def emitMembers (w : Writer) : List (Member × CType) → Written
  | [] => .done w
  | (m, ty) :: rest =>
    (Written.ofText w.startLine (ty.declare m.name)).andThen fun w =>
      emitMembers (w.appendLine (memberEnd w m ty)) rest

/-- Starts a definition: keyword, tag and brace. -/
def openDefinition (w : Writer) (keyword tag : String) : Writer :=
  (w.startLine.append s!"{keyword} {tag} ").openBlock

/-- The definition of a header: its bytes, then the validity flag. -/
def emitHeader (w : Writer) (name : String) (width : UInt32) : Writer :=
  let w := openDefinition w "struct" name
  let w := (w.startLine.append s!"char data[{width / 8}]").endStatement true
  let w := (w.startLine.append s!"{byteType} valid").endStatement true
  w.closeBlock true

/-- The definition of an enum: one constant a line. -/
def emitEnum (w : Writer) (name : String) (members : List String) : Writer :=
  let w :=
    members.foldl (fun w m => w.startLine.appendLine (m ++ ",")) (openDefinition w "enum" name)
  w.closeBlock true

/-- Writes the type itself: a definition where it has one, the type token of a scalar, nothing for a
stack. -/
def emit : CType → Writer → Written
  | .bool, w => .done (w.append byteType)
  | .scalar width signed, w => .done (w.append (scalarToken width signed))
  | .header name width _, w => .done (emitHeader w name width)
  | .aggregate form name _ members _, w =>
    (emitMembers (openDefinition w form.keyword name) members).andThen fun w =>
      .done (w.closeBlock true)
  | .enum name members _, w => .done (emitEnum w name members)
  | .stack _ _ _, w => .done w
  | .named _ _ canonical, w => canonical.emit w

def emitHeaderZero (w : Writer) : Writer :=
  let w := w.openBlock
  let w := w.startLine.appendLine ".data = \x7b 0 \x7d,"
  let w := w.startLine.appendLine ".valid = 0"
  w.closeBlock false

mutual

def emitZero : CType → Writer → Writer
  | .bool, w => w.append "0"
  | .scalar _ _, w => w.append "0"
  | .enum _ _ _, w => w.append "0"
  | .header _ _ _, w => emitHeaderZero w
  | .aggregate _ _ _ members _, w => (emitMemberZeros members w.openBlock).closeBlock false
  | .stack element _ size, w =>
    (size.toNat.fold (fun i _ w => element.emitZero (w.append (if i = 0 then " " else ", ")))
      (w.append "\x7b")).append " \x7d"
  | .named _ _ canonical, w => canonical.emitZero w

/-- One line for each member. -/
def emitMemberZeros : List (Member × CType) → Writer → Writer
  | [], w => w
  | (m, ty) :: rest, w =>
    emitMemberZeros rest ((ty.emitZero (w.startLine.append s!".{m.name} = ")).appendLine ",")

end

/-- Writes `<type> <id> = <zero>;` on a line of its own. -/
def emitVariable (ty : CType) (id : String) (w : Writer) : Written :=
  (Written.ofText w.startLine (ty.declare id)).andThen fun w =>
    .done ((ty.emitZero (w.append " = ")).endStatement true)

end CType

end WireTypes
