import WireTypes.Proofs.CType.Definition

/-!
# Lines between braces

What a type writes depends on the writer's level and style, and not on what has been written before.
Definitions and zero values of headers, structs and unions are lines between braces, one level
deeper than the writer; afterwards the writer is at its own level again.

* `Writer.braces`: the text of such lines;
* `Zero.write_eq`: a value is a text behind what was written before;
* `emitHeader_eq`, `emit_aggregate`: the definitions, line by line;
* `emitZero_aggregate`: the zero value of a struct or union, line by line.
-/

namespace WireTypes

open CDeclaration (indented)

namespace Writer

/-- Lines between braces, at the level of the writer. -/
def braces (w : Writer) (lines : List String) : String :=
  "\x7b\n" ++ indented w.indent.marginText lines ++ w.marginText ++ "\x7d"

def definition (w : Writer) (keyword tag : String) (lines : List String) : String :=
  w.marginText ++ (keyword ++ " " ++ tag ++ " " ++ w.braces lines ++ ";\n")

theorem closeBlock_braces (w : Writer) (lines : List String) :
    (w.openBlock.append (indented w.indent.marginText lines)).closeBlock false =
      w.append (w.braces lines) := by
  have hopen : w.openBlock.append (indented w.indent.marginText lines) =
      (w.append ("\x7b\n" ++ indented w.indent.marginText lines)).indent := by
    simp [openBlock, appendLine, newline, indent, append, String.append_assoc]
  rw [hopen]
  show ((w.append _).append w.marginText).append "\x7d" = _
  rw [append_append, append_append]
  simp [braces, String.append_assoc]

theorem closeBlock_definition (w : Writer) (keyword tag : String) (lines : List String) :
    ((CType.openDefinition w keyword tag).append
      (indented w.indent.marginText lines)).closeBlock true =
      w.append (w.definition keyword tag lines) := by
  have hend : ∀ w' : Writer, w'.closeBlock true = (w'.closeBlock false).append ";\n" := by
    intro w'
    show ((w'.closeBlock false).append ";").append "\n" = _
    rw [append_append]
    rfl
  rw [hend]
  show (((w.startLine.append _).openBlock.append (indented w.indent.marginText lines)).closeBlock
      false).append _ = _
  have hlevel : (w.startLine.append s!"{keyword} {tag} ").indent.marginText =
      w.indent.marginText := rfl
  have hbraces : (w.startLine.append s!"{keyword} {tag} ").braces lines = w.braces lines := rfl
  rw [← hlevel, closeBlock_braces, hbraces]
  show (((w.append w.marginText).append _).append _).append _ = _
  rw [append_append, append_append, append_append]
  simp [definition, toString, String.append_assoc]

end Writer

/-! ## Zero values -/

namespace Writer

/-- Two writers at one level and in one style, of which the second has written `s` more. -/
theorem eq_append {w w' : Writer} {s : String} (htake : w'.take.2 = w.take.2)
    (houtput : w'.output = w.output ++ s) : w' = w.append s := by
  cases w
  cases w'
  simp_all [take, append]

/-- A block leaves the writer at the level where it was opened. -/
theorem take_closeBlock {w w' : Writer} (h : w'.take.2 = w.openBlock.take.2) :
    (w'.closeBlock false).take.2 = w.take.2 :=
  congrArg dedent h

end Writer

namespace Zero

open Writer

-- By the structure of values: each of them leaves level and style alone.

mutual

theorem take_write (z : Zero) (w : Writer) : (z.write w).take.2 = w.take.2 := by
  cases z with
  | number | header => rfl
  | record members => exact take_closeBlock (take_writeMembers members w.openBlock)
  | list entries => exact take_writeEntries " " entries (w.append "\x7b")

theorem take_writeMembers (members : List (String × Zero)) (w : Writer) :
    (writeMembers members w).take.2 = w.take.2 := by
  match members with
  | [] => rfl
  | (name, z) :: rest => exact (take_writeMembers rest _).trans (take_write z _)

theorem take_writeEntries (sep : String) (entries : List Zero) (w : Writer) :
    (writeEntries sep entries w).take.2 = w.take.2 := by
  match entries with
  | [] => rfl
  | z :: rest => exact (take_writeEntries ", " rest _).trans (take_write z _)

end

/-- The text of a value, at the level and in the style of the writer. -/
def text (z : Zero) (w : Writer) : String := (z.write w.take.2).output

/-- A value is a text behind what was written before. -/
theorem write_eq (z : Zero) (w : Writer) : z.write w = w.append (z.text w) := by
  refine eq_append (take_write z w) ?_
  have hbehind : w.take.2.behind w.output = w := by simp [take, behind]
  calc (z.write w).output = (z.write (w.take.2.behind w.output)).output := by rw [hbehind]
    _ = w.output ++ z.text w := by rw [write_behind]; rfl

def memberText (w : Writer) (x : String × Zero) : String := "." ++ x.1 ++ " = " ++ x.2.text w ++ ","

theorem writeMembers_eq (members : List (String × Zero)) : ∀ w : Writer,
    writeMembers members w = w.append (indented w.marginText (members.map (memberText w))) := by
  induction members with
  | nil =>
    intro w
    exact eq_append rfl (by simp [writeMembers, CDeclaration.indented_nil])
  | cons first rest ih =>
    obtain ⟨name, z⟩ := first
    intro w
    have hname : s!".{name} = " = "." ++ name ++ " = " := by simp [toString]
    simp only [writeMembers]
    rw [write_eq, append_append, appendLine_startLine, ih, append_append, List.map_cons,
      CDeclaration.indented_cons, hname]
    rfl

end Zero

namespace CType

open Writer

/-- The line that sets a member to zero, behind its margin. -/
def memberZeroText (w : Writer) (x : Member × CType) : String :=
  "." ++ x.1.name ++ " = " ++ x.2.zero.text w ++ ","

/-- The zero value of a struct or union has one line for each member. -/
theorem emitZero_aggregate (form : AggregateForm) (name : String) (span : Span)
    (members : List (Member × CType)) (lossy : Bool) (w : Writer) :
    (aggregate form name span members lossy).emitZero w =
      w.append (w.braces (members.map (memberZeroText w.indent))) := by
  have hmembers : (memberZeros members).map (Zero.memberText w.openBlock) =
      members.map (memberZeroText w.indent) := by
    induction members with
    | nil => rfl
    | cons first rest ih => exact congrArg (_ :: ·) ih
  rw [emitZero_eq_write]
  show (Zero.writeMembers (memberZeros members) w.openBlock).closeBlock false = _
  rw [Zero.writeMembers_eq, hmembers]
  exact closeBlock_braces w _

/-! ## Definitions -/

theorem emitHeader_eq (w : Writer) (name : String) (width : UInt32) : emitHeader w name width =
    w.append (w.definition "struct" name [s!"char data[{width / 8}];", "u8 valid;"]) := by
  unfold emitHeader endStatement
  simp only [if_true]
  have hmargin : (openDefinition w "struct" name).marginText = w.indent.marginText := rfl
  have hnext : ∀ s : String, ((openDefinition w "struct" name).append s).marginText =
      w.indent.marginText :=
    fun _ => rfl
  rw [← closeBlock_definition, ← appendLine, ← appendLine, appendLine_startLine,
    appendLine_startLine, append_append, hnext, hmargin]
  simp [CDeclaration.indented_cons, CDeclaration.indented_nil, byteType, toString,
    String.append_assoc]

/-- The definition of a struct or union has one line for each member. -/
theorem emit_aggregate {form : AggregateForm} {name : String} {span : Span}
    {members : List (Member × CType)} {lossy : Bool} {w : Writer}
    (h : ∀ m c, (m, c) ∈ members → c.declarable = true) :
    (aggregate form name span members lossy).emit w =
      .done (w.append (w.definition form.keyword name (members.map (memberText w)))) := by
  unfold emit
  rw [emitMembers_eq members h, ← closeBlock_definition]
  rfl

end CType

end WireTypes
