import WireTypes.Proofs.CType.Initialiser
import WireTypes.Proofs.CType.Tags

/-!
# Declarations of C as data

`CDeclaration` is what stands at the top level of a C text: the definition of a tag, or an object
that is set to zero.  What a type emits is the text of such a declaration, if it emits anything.

* `definition?` and `zeroed`: the declarations of a type;
* `output_emit`, `output_emitVariable`: what is emitted is their text.
-/

namespace WireTypes

/-- A member of a struct or union, and the remark behind it. -/
structure CMember where
  object : CObject
  name : String
  remark : String
  deriving DecidableEq, Repr

/-- A declaration at the top level. -/
inductive CDeclaration where
  /-- the bytes of a header and its validity flag -/
  | header (tag : String) (size : UInt32)
  | record (form : AggregateForm) (tag : String) (members : List CMember)
  | enum (tag : String) (constants : List String)
  /-- an object and its initialiser -/
  | object (object : CObject) (name : String) (zero : String)
  deriving DecidableEq, Repr

namespace CDeclaration

def tag? : CDeclaration → Option Tag
  | .header tag _ => some ⟨"struct", tag⟩
  | .record form tag _ => some ⟨form.keyword, tag⟩
  | .enum tag _ => some ⟨"enum", tag⟩
  | .object _ _ _ => none

/-- The tags of which objects are declared by value. -/
def uses : CDeclaration → List Tag
  | .record _ _ members => members.filterMap (·.object.tag?)
  | .object o _ _ => o.tag?.toList
  | _ => []

/-- Lines, each with the margin before it. -/
def indented (margin : String) (lines : List String) : String :=
  String.join (lines.map (margin ++ · ++ "\n"))

/-- A tag and the lines between its braces. -/
def block (margin keyword tag : String) (lines : List String) : String :=
  keyword ++ " " ++ tag ++ " \x7b\n" ++ indented margin lines ++ "\x7d;\n"

def memberLine (m : CMember) : String := m.object.declaration m.name ++ ";" ++ m.remark

def text (margin : String) : CDeclaration → String
  | .header tag size => block margin "struct" tag [s!"char data[{size}];", "u8 valid;"]
  | .record form tag members => block margin form.keyword tag (members.map memberLine)
  | .enum tag constants => block margin "enum" tag (constants.map (· ++ ","))
  | .object o name zero => o.declaration name ++ " = " ++ zero ++ ";\n"

theorem indented_nil (margin : String) : indented margin [] = "" := String.join_nil

theorem indented_cons (margin line : String) (lines : List String) :
    indented margin (line :: lines) = margin ++ line ++ "\n" ++ indented margin lines := by
  unfold indented
  simp

theorem text_ne_empty (margin : String) (d : CDeclaration) : d.text margin ≠ "" := by
  cases d <;> simp [text, block]

end CDeclaration

/-! ## Lines -/

namespace Writer

/-- The blanks before a line. -/
def marginText (w : Writer) : String := "".pushn ' ' w.margin

/-- The blanks before a line between braces. -/
def lineMargin (style : Style) : String := "".pushn ' ' (style.indentWidth % UInt64.size)

/-- Between the braces of a definition, with a text written so far. -/
def inBlock (style : Style) (text : String) : Writer := ((ofStyle style).append text).indent

theorem append_append (w : Writer) (a b : String) : (w.append a).append b = w.append (a ++ b) := by
  unfold append
  rw [String.append_assoc]

theorem startLine_ofStyle (style : Style) : (ofStyle style).startLine = ofStyle style := by
  have hmargin : (ofStyle style).margin = 0 := by simp [margin, ofStyle]
  unfold startLine
  rw [hmargin]
  rfl

theorem openDefinition_ofStyle (style : Style) (keyword tag : String) :
    CType.openDefinition (ofStyle style) keyword tag =
      inBlock style (keyword ++ " " ++ tag ++ " \x7b\n") := by
  unfold CType.openDefinition openBlock appendLine newline inBlock
  rw [startLine_ofStyle, append_append, append_append]
  simp [toString, String.append_assoc]

theorem appendLine_line (w : Writer) (line : String) :
    w.startLine.appendLine line = w.append (w.marginText ++ line ++ "\n") := by
  show ((w.append w.marginText).append line).append "\n" = _
  rw [append_append, append_append, String.append_assoc]

theorem appendLine_startLine (w : Writer) (a b : String) :
    (w.startLine.append a).appendLine b = w.append (w.marginText ++ (a ++ b) ++ "\n") := by
  unfold startLine appendLine newline
  rw [append_append, append_append, append_append, ← marginText]
  simp [String.append_assoc]

theorem marginText_inBlock (style : Style) (text : String) :
    (inBlock style text).marginText = lineMargin style := by
  simp [marginText, lineMargin, margin, inBlock, indent, append, ofStyle]

theorem append_inBlock (style : Style) (text a : String) :
    (inBlock style text).append a = inBlock style (text ++ a) := by
  simp [inBlock, indent, append, String.append_assoc]

theorem appendLine_inBlock (style : Style) (text a b : String) :
    ((inBlock style text).startLine.append a).appendLine b =
      inBlock style (text ++ (lineMargin style ++ (a ++ b) ++ "\n")) := by
  rw [appendLine_startLine, marginText_inBlock, append_inBlock]

theorem output_closeBlock_inBlock (style : Style) (text : String) :
    ((inBlock style text).closeBlock true).output = text ++ "\x7d;\n" := by
  have hmargin : (inBlock style text).dedent.margin = 0 := by
    simp [margin, inBlock, indent, dedent, append, ofStyle]
  unfold closeBlock startLine
  rw [hmargin]
  have hnone : "".pushn ' ' 0 = "" := rfl
  simp [endStatement, newline, append, inBlock, indent, dedent, ofStyle, String.append_assoc, hnone]

end Writer

namespace CType

open Writer

/-- The comment behind a member, if there are to be comments. -/
def remark (style : Style) (m : Member) (c : CType) : String :=
  if style.comments then memberComment (.ofStyle style) m c else ""

def cMember (style : Style) (x : Member × CType) : CMember :=
  ⟨x.2.object, x.1.name, remark style x.1 x.2⟩

/-- The definition of a type that has one. -/
def definition? (style : Style) : CType → Option CDeclaration
  | .header name width _ => some (.header name (width / 8))
  | .aggregate form name _ members _ => some (.record form name (members.map (cMember style)))
  | .enum name members _ => some (.enum name members)
  | _ => none

/-- The zero value, as it is written at the margin. -/
def zeroText (style : Style) (c : CType) : String := (c.emitZero (.ofStyle style)).output

def zeroed (style : Style) (id : String) (c : CType) : CDeclaration :=
  .object c.object id (c.zeroText style)

open CDeclaration (indented memberLine)

/-- The line of a member, behind its margin. -/
def memberText (w : Writer) (x : Member × CType) : String :=
  x.2.object.declaration x.1.name ++ memberEnd w x.1 x.2

theorem emitMembers_eq (members : List (Member × CType)) : ∀ {w : Writer},
    (∀ m c, (m, c) ∈ members → c.declarable = true) →
      emitMembers w members =
        .done (w.append (indented w.marginText (members.map (memberText w)))) := by
  induction members with
  | nil =>
    intro w _
    rw [List.map_nil, CDeclaration.indented_nil]
    unfold append
    rw [String.append_empty]
    rfl
  | cons first rest ih =>
    obtain ⟨m, c⟩ := first
    intro w h
    have hdeclare : c.declare m.name = .ok (c.object.declaration m.name) :=
      declare_eq_ok_iff.mpr ⟨h m c List.mem_cons_self, rfl⟩
    unfold emitMembers
    rw [hdeclare]
    show emitMembers ((w.startLine.append (c.object.declaration m.name)).appendLine
        (memberEnd w m c)) rest = _
    rw [appendLine_startLine, ih fun m' c' hm => h m' c' (List.mem_cons_of_mem _ hm), append_append,
      List.map_cons, CDeclaration.indented_cons]
    rfl

theorem emitMembers_inBlock (style : Style) (members : List (Member × CType)) {text : String}
    (h : ∀ m c, (m, c) ∈ members → c.declarable = true) : emitMembers (inBlock style text) members =
      .done (inBlock style (text ++
        indented (lineMargin style) ((members.map (cMember style)).map memberLine))) := by
  have hlines : members.map (memberText (inBlock style text)) =
      (members.map (cMember style)).map memberLine := by
    rw [List.map_map]
    exact List.map_congr_left fun x _ => (String.append_assoc ..).symm
  rw [emitMembers_eq members h, marginText_inBlock, append_inBlock, hlines]

theorem emitConstants_eq (constants : List String) : ∀ w : Writer,
    constants.foldl (fun w m => w.startLine.appendLine (m ++ ",")) w =
      w.append (indented w.marginText (constants.map (· ++ ","))) := by
  induction constants with
  | nil =>
    intro w
    rw [List.map_nil, CDeclaration.indented_nil]
    unfold append
    rw [String.append_empty]
    rfl
  | cons m rest ih =>
    intro w
    rw [List.foldl_cons, appendLine_line, ih, append_append, List.map_cons,
      CDeclaration.indented_cons]
    rfl

theorem emitConstants_inBlock (style : Style) (constants : List String) {text : String} :
    constants.foldl (fun w m => w.startLine.appendLine (m ++ ",")) (inBlock style text) =
      inBlock style (text ++ indented (lineMargin style) (constants.map (· ++ ","))) := by
  rw [emitConstants_eq, marginText_inBlock, append_inBlock]

theorem output_emitHeader (style : Style) (name : String) (width : UInt32) :
    (emitHeader (.ofStyle style) name width).output =
      (CDeclaration.header name (width / 8)).text (lineMargin style) := by
  unfold emitHeader endStatement
  simp only [if_true]
  rw [openDefinition_ofStyle, ← appendLine, ← appendLine, appendLine_inBlock, appendLine_inBlock,
    output_closeBlock_inBlock]
  simp [CDeclaration.text, CDeclaration.block, CDeclaration.indented, byteType, toString,
    String.append_assoc]

theorem output_emitEnum (style : Style) (name : String) (constants : List String) :
    (emitEnum (.ofStyle style) name constants).output =
      (CDeclaration.enum name constants).text (lineMargin style) := by
  unfold emitEnum
  rw [openDefinition_ofStyle, emitConstants_inBlock, output_closeBlock_inBlock]
  rfl

theorem output_emitAggregate {style : Style} {form : AggregateForm} {name : String}
    {members : List (Member × CType)} (h : ∀ m c, (m, c) ∈ members → c.declarable = true) :
    ((emitMembers (openDefinition (.ofStyle style) form.keyword name) members).andThen fun w =>
      .done (w.closeBlock true)).writer.output =
      (CDeclaration.record form name (members.map (cMember style))).text (lineMargin style) := by
  rw [openDefinition_ofStyle, emitMembers_inBlock style members h]
  exact output_closeBlock_inBlock style _

theorem output_emit {style : Style} {c : CType} {d : CDeclaration}
    (hd : c.definition? style = some d) (h : (c.emit (.ofStyle style)).result = .ok ()) :
    (c.emit (.ofStyle style)).writer.output = d.text (lineMargin style) := by
  cases c with
  | bool | scalar | stack | named => cases hd
  | header name width span =>
    obtain rfl := Option.some.inj hd
    exact output_emitHeader style name width
  | enum name members span =>
    obtain rfl := Option.some.inj hd
    exact output_emitEnum style name members
  | aggregate form name span members lossy =>
    obtain rfl := Option.some.inj hd
    exact output_emitAggregate (declarable_of_mem (result_of_emit h))

end CType

/-! ## Objects -/

namespace Writer

/-- The writer behind a text. -/
def behind (w : Writer) (text : String) : Writer := { w with output := text ++ w.output }

theorem append_behind (w : Writer) (text s : String) :
    (w.behind text).append s = (w.append s).behind text := by
  unfold append behind
  rw [String.append_assoc]

theorem appendLine_behind (w : Writer) (text s : String) :
    (w.behind text).appendLine s = (w.appendLine s).behind text := by
  unfold appendLine newline
  rw [append_behind, append_behind]

theorem startLine_behind (w : Writer) (text : String) :
    (w.behind text).startLine = w.startLine.behind text :=
  append_behind w text _

theorem openBlock_behind (w : Writer) (text : String) :
    (w.behind text).openBlock = w.openBlock.behind text := by
  unfold openBlock
  rw [appendLine_behind]
  rfl

theorem closeBlock_behind (w : Writer) (text : String) :
    (w.behind text).closeBlock false = (w.closeBlock false).behind text :=
  (congrArg (append · "\x7d") (startLine_behind w.dedent text)).trans (append_behind _ text _)

end Writer

namespace Zero

open Writer

-- By the structure of values: what is written before a value stays before everything that is
-- written in it.

mutual

theorem write_behind (z : Zero) (w : Writer) (text : String) :
    z.write (w.behind text) = (z.write w).behind text := by
  cases z with
  | number => exact append_behind w text "0"
  | header =>
    show CType.emitHeaderZero (w.behind text) = (CType.emitHeaderZero w).behind text
    unfold CType.emitHeaderZero
    simp only [openBlock_behind, startLine_behind, appendLine_behind, closeBlock_behind]
  | record members =>
    simp only [write]
    rw [openBlock_behind, writeMembers_behind members, closeBlock_behind]
  | list entries =>
    simp only [write]
    rw [append_behind, writeEntries_behind " " entries, append_behind]

theorem writeMembers_behind (members : List (String × Zero)) (w : Writer) (text : String) :
    writeMembers members (w.behind text) = (writeMembers members w).behind text := by
  match members with
  | [] => simp only [writeMembers]
  | (name, z) :: rest =>
    simp only [writeMembers]
    rw [startLine_behind, append_behind, write_behind z, appendLine_behind,
      writeMembers_behind rest]

theorem writeEntries_behind (sep : String) (entries : List Zero) (w : Writer) (text : String) :
    writeEntries sep entries (w.behind text) = (writeEntries sep entries w).behind text := by
  match entries with
  | [] => simp only [writeEntries]
  | z :: rest =>
    simp only [writeEntries]
    rw [append_behind, write_behind z, writeEntries_behind ", " rest]

end

end Zero

namespace CType

open Writer

theorem output_emitVariable {style : Style} {c : CType} {id : String}
    (h : (c.emitVariable id (.ofStyle style)).result = .ok ()) :
    (c.emitVariable id (.ofStyle style)).writer.output =
      (c.zeroed style id).text (lineMargin style) := by
  unfold emitVariable at h ⊢
  rw [startLine_ofStyle] at h ⊢
  cases hdeclare : c.declare id with
  | error e =>
    rw [hdeclare] at h
    cases h
  | ok text =>
    obtain ⟨-, rfl⟩ := declare_eq_ok_iff.mp hdeclare
    show (((c.emitZero (((ofStyle style).append _).append " = ")).append ";").append
        "\n").output = _
    have hbehind : ((ofStyle style).append (c.object.declaration id)).append " = " =
        (ofStyle style).behind (c.object.declaration id ++ " = ") := by
      rw [append_append]
      simp [append, behind, ofStyle]
    rw [hbehind, emitZero_eq_write, Zero.write_behind, ← emitZero_eq_write, append_append]
    simp [behind, append, CDeclaration.text, zeroed, zeroText, String.append_assoc]

end CType

end WireTypes
