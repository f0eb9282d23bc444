import WireTypes.Proofs.CType.Failure
import WireTypes.Proofs.CType.Lines
import WireTypes.Proofs.Text.Shift

/-!
# Indentation

The level of a writer is shared by everything that is written through it, and braces are opened in
the middle of lines.  Still all text has one shape, moved to the right as a whole by the blanks of
the level:

* `Zero.text_shift`: a zero value written deeper is shifted by the difference;
* `definition_eq`: a definition is lines, each behind the blanks of the level;
* `emission_indented` says for every operation what it adds to the text at any level, and that the
  level is kept.

The blanks before a line are counted in a word, so all of this holds only of levels deep enough to
be counted (`Zero.depth` is how deep a value goes).
-/

namespace WireTypes

open CDeclaration (indented)

/-! ## Levels -/

namespace Writer

/-- The writer `k` levels deeper. -/
def deeper (w : Writer) (k : Nat) : Writer := { w with level := w.level + k }

/-- A writer in the same style, at the margin, that has written nothing. -/
def unindented (w : Writer) : Writer := { w with output := "", level := 0 }

/-- The blanks of a level can be counted. -/
def Fits (w : Writer) (level : Nat) : Prop := level * w.indentWidth < UInt64.size

instance (w : Writer) (level : Nat) : Decidable (w.Fits level) :=
  inferInstanceAs (Decidable (level * w.indentWidth < UInt64.size))

theorem indent_deeper (w : Writer) (k : Nat) : (w.deeper k).indent = w.indent.deeper k := by
  simp [deeper, indent, Nat.add_right_comm]

theorem take_unindented (w : Writer) : (w.unindented.deeper w.level).take.2 = w.take.2 := by
  simp [unindented, deeper, take]

theorem Fits.mono {w : Writer} {m n : Nat} (h : w.Fits n) (hle : m ≤ n) : w.Fits m :=
  Nat.lt_of_le_of_lt (Nat.mul_le_mul_right w.indentWidth hle) h

theorem marginText_eq {w : Writer} (h : w.Fits w.level) :
    w.marginText = spaces (w.level * w.indentWidth) :=
  congrArg spaces (Nat.mod_eq_of_lt h)

theorem marginText_deeper {w : Writer} {k : Nat} (h : w.Fits (w.level + k)) :
    (w.deeper k).marginText = spaces (k * w.indentWidth) ++ w.marginText := by
  rw [marginText_eq (h.mono (Nat.le_add_right _ k)), ← spaces_add, Nat.add_comm, ← Nat.add_mul]
  exact marginText_eq h

theorem append_inj {w : Writer} {s t : String} (h : w.append s = w.append t) : s = t :=
  (String.append_right_inj w.output).mp (congrArg Writer.output h)

end Writer

namespace CDeclaration

theorem indented_append (a b : String) (lines : List String) :
    indented (a ++ b) lines = indented a (lines.map (b ++ ·)) := by
  unfold indented
  simp [Function.comp_def, String.append_assoc]

/-- Shifting lines shifts what they hold, and puts the margin before each of them. -/
theorem shift_indented (margin : String) {inner : String} (hinner : OneLine inner)
    (lines : List String) :
    margin ++ shift margin (indented inner lines) =
      indented (margin ++ inner) (lines.map (shift margin)) ++ margin := by
  induction lines with
  | nil => simp [indented_nil, shift]
  | cons line rest ih =>
    have hline : shift margin (inner ++ line ++ "\n" ++ indented inner rest) =
        inner ++ shift margin line ++ "\n" ++ (margin ++ shift margin (indented inner rest)) := by
      simp only [shift_append, shift_newline, hinner.shift, String.append_assoc]
    rw [List.map_cons, indented_cons, indented_cons, hline, ih]
    simp only [String.append_assoc]

end CDeclaration

namespace Writer

theorem oneLine_marginText (w : Writer) : OneLine w.marginText := oneLine_spaces _

theorem braces_deeper {w : Writer} {k : Nat} (h : w.Fits (w.level + k + 1)) (lines : List String) :
    (w.deeper k).braces (lines.map (shift (spaces (k * w.indentWidth)))) =
      shift (spaces (k * w.indentWidth)) (w.braces lines) := by
  have hmargin := marginText_deeper (h.mono (Nat.le_succ _))
  have hinner : (w.deeper k).indent.marginText =
      spaces (k * w.indentWidth) ++ w.indent.marginText := by
    rw [indent_deeper]
    refine marginText_deeper (w := w.indent) ?_
    rwa [Nat.add_right_comm] at h
  have hlines :=
    CDeclaration.shift_indented (spaces (k * w.indentWidth)) w.indent.oneLine_marginText lines
  generalize spaces (k * w.indentWidth) = m at *
  have hopen : shift m "\x7b\n" = "\x7b\n" ++ m := by
    have hbrace : "\x7b\n" = "\x7b" ++ "\n" := rfl
    rw [hbrace, shift_append, shift_newline, (by decide : OneLine "\x7b").shift,
      String.append_assoc]
  calc (w.deeper k).braces (lines.map (shift m))
      = "\x7b\n" ++ (indented (m ++ w.indent.marginText) (lines.map (shift m)) ++ m) ++
        w.marginText ++ "\x7d" := by
        unfold braces
        rw [hinner, hmargin]
        simp only [String.append_assoc]
    _ = "\x7b\n" ++ (m ++ shift m (indented w.indent.marginText lines)) ++ w.marginText ++
      "\x7d" := by rw [hlines]
    _ = shift m (w.braces lines) := by
        unfold braces
        rw [shift_append, shift_append, shift_append, hopen, w.oneLine_marginText.shift,
          (by decide : OneLine "\x7d").shift]
        simp only [String.append_assoc]

end Writer

/-! ## Zero values -/

namespace Zero

open Writer

mutual

/-- The levels that a value goes deeper than the line it starts on. -/
def depth : Zero → Nat
  | .number => 0
  | .header => 1
  | .record members => membersDepth members + 1
  | .list entries => entriesDepth entries

/-- The levels that the deepest member goes. -/
def membersDepth : List (String × Zero) → Nat
  | [] => 0
  | (_, z) :: rest => max z.depth (membersDepth rest)

/-- The levels that the deepest entry goes. -/
def entriesDepth : List Zero → Nat
  | [] => 0
  | z :: rest => max z.depth (entriesDepth rest)

end

mutual

def names : Zero → List String
  | .number => []
  | .header => []
  | .record members => memberNames members
  | .list entries => entryNames entries

def memberNames : List (String × Zero) → List String
  | [] => []
  | (name, z) :: rest => name :: (z.names ++ memberNames rest)

def entryNames : List Zero → List String
  | [] => []
  | z :: rest => z.names ++ entryNames rest

end

/-- Texts with `sep` before the first and a comma before each of the others. -/
def separated (sep : String) : List String → String
  | [] => ""
  | s :: rest => sep ++ s ++ separated ", " rest

theorem shift_separated (margin : String) (texts : List String) : ∀ {sep : String}, OneLine sep →
    shift margin (separated sep texts) = separated sep (texts.map (shift margin)) := by
  induction texts with
  | nil => exact fun _ => rfl
  | cons s rest ih =>
    intro sep hsep
    have hcomma : OneLine ", " := by decide
    rw [List.map_cons, separated, separated, shift_append, shift_append, hsep.shift, ih hcomma]

/-! ### The texts of values -/

theorem text_of_write {z : Zero} {w : Writer} {s : String} (h : z.write w = w.append s) :
    z.text w = s :=
  append_inj ((z.write_eq w).symm.trans h)

theorem text_header (w : Writer) :
    Zero.header.text w = w.braces [".data = \x7b 0 \x7d,", ".valid = 0"] := by
  refine text_of_write ?_
  show ((w.openBlock.startLine.appendLine _).startLine.appendLine _).closeBlock false = _
  have hnext : ∀ s : String, (w.openBlock.append s).marginText = w.indent.marginText := fun _ => rfl
  have hfirst : w.openBlock.marginText = w.indent.marginText := rfl
  rw [appendLine_line, appendLine_line, append_append, hnext, hfirst, ← closeBlock_braces]
  simp only [CDeclaration.indented_cons, CDeclaration.indented_nil, String.append_empty]

theorem text_record (members : List (String × Zero)) (w : Writer) :
    (record members).text w = w.braces (members.map (memberText w.indent)) := by
  refine text_of_write ?_
  show (writeMembers members w.openBlock).closeBlock false = _
  rw [writeMembers_eq]
  exact closeBlock_braces w _

theorem writeEntries_eq (entries : List Zero) : ∀ (sep : String) (w : Writer),
    writeEntries sep entries w = w.append (separated sep (entries.map (text · w))) := by
  induction entries with
  | nil => exact fun sep w => eq_append rfl (by simp [writeEntries, separated])
  | cons z rest ih =>
    intro sep w
    simp only [writeEntries]
    rw [write_eq, append_append, ih, append_append]
    rfl

theorem text_list (entries : List Zero) (w : Writer) :
    (list entries).text w = "\x7b" ++ separated " " (entries.map (text · w)) ++ " \x7d" := by
  refine text_of_write ?_
  show (writeEntries " " entries (w.append "\x7b")).append " \x7d" = _
  rw [writeEntries_eq, append_append, append_append]
  rfl

-- By the structure of values: only the members of a record are written at another level than the
-- value itself.

mutual

/-- A value written deeper is shifted as a whole. -/
theorem text_shift (z : Zero) {w : Writer} {k : Nat} (hnames : ∀ s ∈ z.names, OneLine s)
    (h : w.Fits (w.level + k + z.depth)) :
    z.text (w.deeper k) = shift (spaces (k * w.indentWidth)) (z.text w) := by
  cases z with
  | number => exact ((by decide : OneLine "0").shift _).symm
  | header =>
    have hlines : ∀ m, [".data = \x7b 0 \x7d,", ".valid = 0"].map (shift m) =
        [".data = \x7b 0 \x7d,", ".valid = 0"] := by
      intro m
      simp only [List.map_cons, List.map_nil, (by decide : OneLine ".data = \x7b 0 \x7d,").shift,
        (by decide : OneLine ".valid = 0").shift]
    rw [text_header, text_header, ← braces_deeper h, hlines]
  | record members =>
    simp only [depth] at h
    have hinner : w.indent.Fits (w.indent.level + k + membersDepth members) := by
      refine Fits.mono (w := w) h ?_
      simp only [indent]
      omega
    rw [text_record, text_record, ← braces_deeper (h.mono (by omega)), indent_deeper,
      memberTexts_shift members hnames hinner]
    rfl
  | list entries =>
    rw [text_list, text_list, shift_append, shift_append, (by decide : OneLine "\x7b").shift,
      (by decide : OneLine " \x7d").shift, shift_separated _ _ (by decide : OneLine " "),
      entryTexts_shift entries hnames h]

theorem memberTexts_shift (members : List (String × Zero)) {w : Writer} {k : Nat}
    (hnames : ∀ s ∈ memberNames members, OneLine s)
    (h : w.Fits (w.level + k + membersDepth members)) :
    members.map (memberText (w.deeper k)) =
      (members.map (memberText w)).map (shift (spaces (k * w.indentWidth))) := by
  match members with
  | [] => rfl
  | (name, z) :: rest =>
    simp only [memberNames, List.forall_mem_cons, List.forall_mem_append] at hnames
    obtain ⟨hname, hz, hrest⟩ := hnames
    simp only [membersDepth] at h
    have htext := text_shift z (k := k) hz (h.mono (by omega))
    rw [List.map_cons, List.map_cons, List.map_cons,
      memberTexts_shift rest hrest (h.mono (by omega))]
    refine congrArg (· :: _) ?_
    unfold memberText
    simp only [shift_append, hname.shift, htext, (by decide : OneLine ".").shift,
      (by decide : OneLine " = ").shift, (by decide : OneLine ",").shift]

theorem entryTexts_shift (entries : List Zero) {w : Writer} {k : Nat}
    (hnames : ∀ s ∈ entryNames entries, OneLine s)
    (h : w.Fits (w.level + k + entriesDepth entries)) :
    entries.map (text · (w.deeper k)) =
      (entries.map (text · w)).map (shift (spaces (k * w.indentWidth))) := by
  match entries with
  | [] => rfl
  | z :: rest =>
    simp only [entryNames, List.forall_mem_append] at hnames
    simp only [entriesDepth] at h
    have htext := text_shift z (k := k) hnames.1 (h.mono (by omega))
    rw [List.map_cons, List.map_cons, List.map_cons, htext,
      entryTexts_shift rest hnames.2 (h.mono (by omega))]

end

end Zero

/-! ## What a type is written with -/

/-- The name of a member, and what its comment takes from the source. -/
def Member.words (comments : Bool) (m : Member) : List String :=
  m.name :: if comments then m.source :: m.comment.toList else []

namespace CType

mutual

/-- The names and comments a type is written with.  Other names of types are not written. -/
def words (comments : Bool) : CType → List String
  | .bool => []
  | .scalar _ _ => []
  | .header name _ _ => [name]
  | .aggregate _ name _ members _ => name :: memberWords comments members
  | .enum name constants _ => name :: constants
  | .stack element _ _ => element.words comments
  | .named _ _ canonical => canonical.words comments

def memberWords (comments : Bool) : List (Member × CType) → List String
  | [] => []
  | (m, ty) :: rest => m.words comments ++ (ty.words comments ++ memberWords comments rest)

end

theorem words_of_mem {comments : Bool} {x : Member × CType} {s : String}
    {members : List (Member × CType)} (hx : x ∈ members)
    (hs : s ∈ x.1.words comments ∨ s ∈ x.2.words comments) : s ∈ memberWords comments members := by
  induction members with
  | nil => cases hx
  | cons first rest ih =>
    simp only [memberWords, List.mem_append]
    rcases List.mem_cons.mp hx with rfl | hx
    · exact hs.imp_right .inl
    · exact .inr (.inr (ih hx))

end CType

theorem Zero.names_of_entryNames_replicate {z : Zero} {s : String} {n : Nat}
    (h : s ∈ entryNames (List.replicate n z)) : s ∈ z.names := by
  induction n with
  | zero => cases h
  | succ n ih => exact (List.mem_append.mp h).elim id ih

namespace CType

mutual

/-- A zero value is written with names of the type. -/
theorem words_of_names (comments : Bool) (c : CType) {s : String} (h : s ∈ c.zero.names) :
    s ∈ c.words comments := by
  cases c with
  | bool | scalar | header | enum => cases h
  | aggregate form name span members lossy =>
    exact List.mem_cons_of_mem name (words_of_memberNames comments members h)
  | stack element extent size =>
    exact words_of_names comments element (Zero.names_of_entryNames_replicate h)
  | named name span canonical => exact words_of_names comments canonical h

theorem words_of_memberNames (comments : Bool) (members : List (Member × CType)) {s : String}
    (h : s ∈ Zero.memberNames (memberZeros members)) : s ∈ memberWords comments members := by
  match members with
  | [] => cases h
  | (m, ty) :: rest =>
    simp only [memberZeros, Zero.memberNames, List.mem_cons, List.mem_append] at h
    simp only [memberWords, List.mem_append]
    rcases h with rfl | h | h
    · exact .inl List.mem_cons_self
    · exact .inr (.inl (words_of_names comments ty h))
    · exact .inr (.inr (words_of_memberNames comments rest h))

end

theorem oneLine_specifier {comments : Bool} :
    ∀ {c : CType}, (∀ s ∈ c.words comments, OneLine s) → OneLine c.specifier
  | .bool, _ => by decide
  | .scalar width signed, _ => by
    have hkeyword : OneLine (if signed then "s" else "u") := by cases signed <;> decide
    unfold specifier scalarToken byteType
    split
    · decide
    · split
      · exact oneLine_append.mpr ⟨hkeyword, oneLine_toString _⟩
      · decide
  | .header name width span, h => oneLine_append.mpr ⟨by decide, h name List.mem_cons_self⟩
  | .enum name constants span, h => oneLine_append.mpr ⟨by decide, h name List.mem_cons_self⟩
  | .aggregate form name span members lossy, h => by
    have hkeyword : OneLine form.keyword := by cases form <;> decide
    exact oneLine_append.mpr ⟨oneLine_append.mpr ⟨hkeyword, by decide⟩, h name List.mem_cons_self⟩
  | .stack element _ _, h => oneLine_specifier (c := element) h
  | .named _ _ canonical, h => oneLine_specifier (c := canonical) h

theorem oneLine_brackets (sizes : List UInt32) : OneLine (brackets sizes) := by
  induction sizes with
  | nil => decide
  | cons size rest ih =>
    have hdigits := not_mem_toDigits (c := '\n') (by decide) size.toNat
    unfold OneLine at *
    rw [toList_brackets_cons]
    simp [hdigits, ih]

theorem oneLine_widthRemark (c : CType) : OneLine c.widthRemark := by
  unfold widthRemark
  split
  · next e _ =>
    have hremark : s!" [{e.logical}/{e.stored} bits]" =
        " [" ++ toString e.logical ++ "/" ++ toString e.stored ++ " bits]" := by simp [toString]
    have hbits : OneLine " [" ∧ OneLine "/" ∧ OneLine " bits]" := by decide
    rw [hremark]
    split
    · decide
    · simp only [oneLine_append, oneLine_toString, hbits, true_and]
  · decide

theorem oneLine_memberText {w : Writer} {x : Member × CType}
    (hm : ∀ s ∈ x.1.words w.comments, OneLine s) (hc : ∀ s ∈ x.2.words w.comments, OneLine s) :
    OneLine (memberText w x) := by
  obtain ⟨m, c⟩ := x
  have hname : OneLine m.name := hm m.name List.mem_cons_self
  have hdeclaration : OneLine (c.object.declaration m.name) := by
    unfold CObject.declaration
    rw [specifier_object]
    simp only [oneLine_append, oneLine_specifier hc, hname, oneLine_brackets,
      (by decide : OneLine " "), and_self]
  have hend : OneLine (memberEnd w m c) := by
    unfold memberEnd
    cases hcomments : w.comments with
    | false => exact (by decide : OneLine (";" ++ ""))
    | true =>
      have hsource : OneLine m.source := hm m.source (by simp [Member.words, hcomments])
      have hcomment : OneLine (m.comment.elim "" fun text => " " ++ text) := by
        cases htext : m.comment with
        | none => decide
        | some text =>
          exact oneLine_append.mpr ⟨by decide, hm text (by simp [Member.words, hcomments, htext])⟩
      have hremark : OneLine (if w.annotateWidths then c.widthRemark else "") := by
        split
        · exact oneLine_widthRemark c
        · decide
      unfold memberComment
      have hmarks : OneLine ";" ∧ OneLine " /* " ∧ OneLine " */" := by decide
      simp only [if_true, oneLine_append, hsource, hcomment, hremark, hmarks, and_self]
  exact oneLine_append.mpr ⟨hdeclaration, hend⟩

end CType

/-! ## Definitions -/

namespace CDeclaration

theorem indented_concat (margin line : String) (lines : List String) :
    indented margin (lines ++ [line]) = indented margin lines ++ (margin ++ line ++ "\n") := by
  unfold indented
  rw [List.map_append, String.join_append]
  simp

end CDeclaration

namespace Writer

/-- A definition is lines, each behind the blanks of the level. -/
theorem definition_eq {w : Writer} (h : w.Fits (w.level + 1)) (keyword tag : String)
    (lines : List String) :
    w.definition keyword tag lines = indented w.marginText
      ((keyword ++ " " ++ tag ++ " \x7b") :: (lines.map (spaces w.indentWidth ++ ·) ++
        ["\x7d;"])) := by
  have hinner : w.indent.marginText = w.marginText ++ spaces w.indentWidth := by
    rw [marginText_eq (h.mono (Nat.le_succ _)), ← spaces_add, ← Nat.succ_mul]
    exact marginText_eq (w := w.indent) h
  have hopen : " " ++ "\x7b\n" = " \x7b" ++ "\n" := rfl
  have hclose : "\x7d" ++ ";\n" = "\x7d;" ++ "\n" := rfl
  unfold definition braces
  rw [CDeclaration.indented_cons, CDeclaration.indented_concat, hinner,
    CDeclaration.indented_append]
  calc _ = w.marginText ++ (keyword ++ (" " ++ (tag ++ (" " ++ "\x7b\n")))) ++ indented w.marginText
        (lines.map (spaces w.indentWidth ++ ·)) ++ w.marginText ++ ("\x7d" ++ ";\n") := by
        simp only [String.append_assoc]
    _ = _ := by
        rw [hopen, hclose]
        simp only [String.append_assoc]

end Writer

namespace CType

open Writer

theorem emit_header (name : String) (width : UInt32) (span : Span) (w : Writer) :
    (header name width span).emit w =
      .done (w.append (w.definition "struct" name [s!"char data[{width / 8}];", "u8 valid;"])) := by
  rw [emit, emitHeader_eq]

theorem emit_enum (name : String) (constants : List String) (span : Span) (w : Writer) :
    (enum name constants span).emit w =
      .done (w.append (w.definition "enum" name (constants.map (· ++ ",")))) := by
  rw [emit, emitEnum, emitConstants_eq, ← closeBlock_definition]
  rfl

/-- A type that has a definition is emitted with the same keyword, tag and lines at every level. -/
theorem emit_definition (c : CType) {w : Writer} (hdef : c.unnamed.hasDefinition = true)
    (hok : (c.emit w).result = .ok ()) (h : ∀ s ∈ c.words w.comments, OneLine s) :
    ∃ keyword tag lines, (OneLine keyword ∧ OneLine tag) ∧ (∀ line ∈ lines, OneLine line) ∧
      ∀ w' : Writer, w'.comments = w.comments → w'.annotateWidths = w.annotateWidths →
        c.emit w' = .done (w'.append (w'.definition keyword tag lines)) := by
  cases c with
  | header name width span =>
    have hname := h name List.mem_cons_self
    have hdata : OneLine s!"char data[{width / 8}];" := by
      have hline : s!"char data[{width / 8}];" = "char data[" ++ toString (width / 8) ++ "];" := by
        simp [toString]
      rw [hline]
      simp only [oneLine_append, oneLine_toString, true_and,
        (by decide : OneLine "char data[" ∧ OneLine "];")]
    refine ⟨"struct", name, _, ⟨by decide, hname⟩, ?_, fun w' _ _ => emit_header name width span w'⟩
    exact List.forall_mem_cons.mpr ⟨hdata, List.forall_mem_singleton.mpr (by decide)⟩
  | enum name constants span =>
    obtain ⟨hname, hconstants⟩ := List.forall_mem_cons.mp h
    refine ⟨"enum", name, _, ⟨by decide, hname⟩, ?_, fun w' _ _ => emit_enum name constants span w'⟩
    exact List.forall_mem_map.mpr fun m hm => oneLine_append.mpr ⟨hconstants m hm, by decide⟩
  | aggregate form name span members lossy =>
    obtain ⟨hname, hmembers⟩ := List.forall_mem_cons.mp h
    have hdeclarable := declarable_of_mem (result_of_emit hok)
    refine ⟨form.keyword, name, members.map (memberText w),
      ⟨by cases form <;> decide, hname⟩, ?_, ?_⟩
    · exact List.forall_mem_map.mpr fun x hx => oneLine_memberText
        (fun s hs => hmembers s (words_of_mem hx (.inl hs)))
          (fun s hs => hmembers s (words_of_mem hx (.inr hs)))
    · -- the comments depend on the style of the writer, but not on its level
      intro w' hcomments hannotate
      have hlines : memberText w' = memberText w := by
        funext x
        unfold memberText memberEnd memberComment
        rw [hcomments, hannotate]
      rw [← hlines]
      exact emit_aggregate hdeclarable
  | named name span canonical => exact emit_definition canonical hdef hok h
  | bool | scalar | stack => cases hdef

/-- A definition is the same lines at every level, each with the blanks of the level before it. -/
theorem emit_lines {c : CType} {w : Writer} (hdef : c.unnamed.hasDefinition = true)
    (hok : (c.emit w).result = .ok ()) (hwords : ∀ s ∈ c.words w.comments, OneLine s) :
    ∃ lines, (∀ line ∈ lines, OneLine line) ∧
      ∀ (output : String) (level : Nat), w.Fits (level + 1) →
        let w' := { w with output := output, level := level }
        c.emit w' = .done (w'.append (indented (spaces (level * w.indentWidth)) lines)) := by
  obtain ⟨keyword, tag, body, ⟨hkeyword, htag⟩, hbody, hemit⟩ := emit_definition c hdef hok hwords
  refine ⟨(keyword ++ " " ++ tag ++ " \x7b") :: (body.map (spaces w.indentWidth ++ ·) ++ ["\x7d;"]),
    ?_, ?_⟩
  · have hopen : OneLine (keyword ++ " " ++ tag ++ " \x7b") := by
      simp only [oneLine_append, hkeyword, htag, true_and]
      decide
    have hinner : ∀ line ∈ body.map (spaces w.indentWidth ++ ·), OneLine line :=
      List.forall_mem_map.mpr fun line hline =>
        oneLine_append.mpr ⟨oneLine_spaces _, hbody line hline⟩
    exact List.forall_mem_cons.mpr
      ⟨hopen, List.forall_mem_append.mpr ⟨hinner, List.forall_mem_singleton.mpr (by decide)⟩⟩
  · intro output level hfits w'
    have hfits' : w'.Fits (w'.level + 1) := hfits
    rw [hemit w' rfl rfl, definition_eq hfits', marginText_eq (hfits'.mono (Nat.le_succ _))]

/-- What is emitted without error stands behind what was written before. -/
theorem emit_append (c : CType) {w : Writer} (h : (c.emit w).result = .ok ()) :
    ∃ text, c.emit w = .done (w.append text) := by
  cases c with
  | bool | scalar => exact ⟨_, rfl⟩
  | header name width span => exact ⟨_, emit_header name width span w⟩
  | aggregate form name span members lossy =>
    exact ⟨_, emit_aggregate (declarable_of_mem (result_of_emit h))⟩
  | enum name constants span => exact ⟨_, emit_enum name constants span w⟩
  | stack element extent size => exact ⟨"", congrArg Written.done (eq_append rfl (by simp))⟩
  | named name span canonical => exact emit_append canonical h

theorem ofText_append {w : Writer} {x : Except LoweringError String}
    (h : (Written.ofText w x).result = .ok ()) :
    ∃ text, Written.ofText w x = .done (w.append text) := by
  cases x with
  | ok text => exact ⟨text, rfl⟩
  | error e => cases h

/-! ## Zero values of types -/

/-- A zero value is the one at the margin, shifted to the level of the writer. -/
theorem text_zero {c : CType} {w : Writer} (hwords : ∀ s ∈ c.words w.comments, OneLine s)
    (h : w.Fits (w.level + c.zero.depth)) :
    c.zero.text w = shift (spaces (w.level * w.indentWidth)) (c.emitZero w.unindented).output := by
  have hoffset : w.unindented.level + w.level = w.level := Nat.zero_add _
  have hlevel := Zero.text_shift c.zero (w := w.unindented) (k := w.level)
    (fun s hs => hwords s (words_of_names w.comments c hs)) (by rwa [hoffset])
  have hmargin : c.zero.text w.unindented = (c.emitZero w.unindented).output := by
    rw [emitZero_eq_write, Zero.write_eq]
    exact String.empty_append.symm
  rw [← hmargin]
  unfold Zero.text at *
  rwa [take_unindented] at hlevel

/-- The line that sets a member to zero, with the value at the margin shifted to
the level of the line. -/
def shiftedMember (w : Writer) (x : Member × CType) : String :=
  "." ++ x.1.name ++ " = " ++
    shift (spaces (w.level * w.indentWidth)) (x.2.emitZero w.unindented).output ++ ","

theorem depth_of_mem {x : Member × CType} {members : List (Member × CType)} (h : x ∈ members) :
    x.2.zero.depth ≤ Zero.membersDepth (memberZeros members) := by
  induction members with
  | nil => cases h
  | cons first rest ih =>
    simp only [memberZeros, Zero.membersDepth]
    rcases List.mem_cons.mp h with rfl | h
    · exact Nat.le_max_left ..
    · exact Nat.le_trans (ih h) (Nat.le_max_right ..)

/-- In the zero value of a struct or union the values of members are those at the margin,
shifted. -/
theorem emitZero_members {form : AggregateForm} {name : String} {span : Span}
    {members : List (Member × CType)} {lossy : Bool} {w : Writer}
    (hwords : ∀ s ∈ memberWords w.comments members, OneLine s)
    (h : w.Fits (w.level + (aggregate form name span members lossy).zero.depth)) :
    (aggregate form name span members lossy).emitZero w =
      w.append (w.braces (members.map (shiftedMember w.indent))) := by
  have hmembers : members.map (memberZeroText w.indent) = members.map (shiftedMember w.indent) := by
    refine List.map_congr_left fun x hx => ?_
    have hx' : ∀ s ∈ x.2.words w.indent.comments, OneLine s :=
      fun s hs => hwords s (words_of_mem hx (.inr hs))
    have hfits : w.indent.Fits (w.indent.level + x.2.zero.depth) := by
      refine Fits.mono (w := w) h ?_
      have hdepth := depth_of_mem hx
      simp only [indent, zero, Zero.depth]
      omega
    unfold memberZeroText shiftedMember
    rw [text_zero hx' hfits]
  rw [emitZero_aggregate, hmembers]

/-- In the zero value of a stack every entry is the value at the margin, shifted. -/
theorem emitZero_entries {element : CType} {extent : Extent} {size : UInt32} {w : Writer}
    (hwords : ∀ s ∈ element.words w.comments, OneLine s)
    (h : w.Fits (w.level + (stack element extent size).zero.depth)) :
    (stack element extent size).emitZero w =
      w.append ("\x7b" ++ Zero.separated " " (List.replicate size.toNat
      (shift (spaces (w.level * w.indentWidth)) (element.emitZero w.unindented).output)) ++
        " \x7d") := by
  have hentries : (List.replicate size.toNat element.zero).map (Zero.text · w) =
      List.replicate size.toNat
      (shift (spaces (w.level * w.indentWidth)) (element.emitZero w.unindented).output) := by
    rw [List.map_replicate]
    simp only [zero, Zero.depth] at h
    -- an empty stack says nothing about the depth of its elements, but has none either
    cases hsize : size.toNat with
    | zero => rfl
    | succ n =>
      have hdepth : w.Fits (w.level + element.zero.depth) := by
        refine h.mono (Nat.add_le_add_left ?_ _)
        rw [hsize]
        exact Nat.le_max_left ..
      rw [text_zero hwords hdepth]
  rw [emitZero_eq_write, Zero.write_eq, zero, Zero.text_list, hentries]

/-! ## Every operation -/

theorem words_unnamed (comments : Bool) : ∀ c : CType, c.unnamed.words comments = c.words comments
  | .bool | .scalar _ _ | .header _ _ _ | .aggregate _ _ _ _ _ | .enum _ _ _ | .stack _ _ _ => rfl
  | .named _ _ canonical => words_unnamed comments canonical

theorem zero_unnamed : ∀ c : CType, c.unnamed.zero = c.zero
  | .bool | .scalar _ _ | .header _ _ _ | .aggregate _ _ _ _ _ | .enum _ _ _ | .stack _ _ _ => rfl
  | .named _ _ canonical => zero_unnamed canonical

/-- **Indentation.**  Take a type whose names and comments have no line breaks, and a writer
at any level whose blanks can be counted.

Whatever is written without error stands behind what was written before, and the writer stays
at its level.  A zero value is the one written at the margin, with the blanks of the level
behind every line break; so are the values of members and elements inside it, members one
level deeper.  A definition is lines, which are the same at every level, each with the blanks
of the level before it. -/
theorem emission_indented {c : CType} {w : Writer}
    (hwords : ∀ s ∈ c.words w.comments, OneLine s) (id : String) (size : UInt32) :
    ((c.emit w).result = .ok () → ∃ text, c.emit w = .done (w.append text)) ∧
    ((c.writeDeclaration id w).result = .ok () →
      ∃ text, c.writeDeclaration id w = .done (w.append text)) ∧
    ((c.writeArray id size w).result = .ok () →
      ∃ text, c.writeArray id size w = .done (w.append text)) ∧
    (∃ text, c.emitZero w = w.append text) ∧
    (w.Fits (w.level + c.zero.depth) →
      c.emitZero w =
        w.append (shift (spaces (w.level * w.indentWidth)) (c.emitZero w.unindented).output) ∧
      (∀ form name span members lossy, c.unnamed = .aggregate form name span members lossy →
        c.emitZero w = w.append (w.braces (members.map (shiftedMember w.indent)))) ∧
      (∀ element extent size, c.unnamed = .stack element extent size →
        c.emitZero w = w.append ("\x7b" ++
          Zero.separated " " (List.replicate size.toNat
            (shift (spaces (w.level * w.indentWidth)) (element.emitZero w.unindented).output)) ++
          " \x7d"))) ∧
    (c.unnamed.hasDefinition = true → (c.emit w).result = .ok () → w.Fits (w.level + 1) →
      ∃ lines, (∀ line ∈ lines, OneLine line) ∧
        c.emit w.unindented = .done (w.unindented.append (indented "" lines)) ∧
        c.emit w = .done (w.append (indented (spaces (w.level * w.indentWidth)) lines))) := by
  refine ⟨emit_append c, ?_, ?_, ⟨c.zero.text w, ?_⟩, fun hfits => ⟨?_, ?_, ?_⟩,
    fun hdef hok hfits => ?_⟩
  · rw [writeDeclaration_eq]
    exact ofText_append
  · rw [writeArray_eq]
    exact ofText_append
  · rw [emitZero_eq_write, Zero.write_eq]
  · rw [emitZero_eq_write, Zero.write_eq, text_zero hwords hfits]
  · intro form name span members lossy hc
    rw [← words_unnamed, hc] at hwords
    rw [← zero_unnamed, hc] at hfits
    rw [emitZero_eq_write, ← zero_unnamed, hc, ← emitZero_eq_write]
    exact emitZero_members (fun s hs => hwords s (List.mem_cons_of_mem _ hs)) hfits
  · intro element extent size hc
    rw [← words_unnamed, hc] at hwords
    rw [← zero_unnamed, hc] at hfits
    rw [emitZero_eq_write, ← zero_unnamed, hc, ← emitZero_eq_write]
    exact emitZero_entries hwords hfits
  · obtain ⟨lines, hlines, hemit⟩ := emit_lines hdef hok hwords
    have hmargin : spaces (0 * w.indentWidth) = "" := by rw [Nat.zero_mul, spaces_zero]
    have hunindented := hemit "" 0 (hfits.mono (Nat.add_le_add_right (Nat.zero_le _) 1))
    rw [hmargin] at hunindented
    exact ⟨lines, hlines, hunindented, hemit w.output w.level hfits⟩

/-- A struct with a header in it, two levels deep. -/
theorem emission_indented_frame :
    let tag := CType.header "tag_t" 32 .dummy
    let c := CType.aggregate .struct "frame_t" .dummy
      [(⟨"tag", "tag_t", none⟩, tag), (⟨"id", "bit<8>", some "unique"⟩, .scalar 8 false)] false
    let w : Writer := { ofStyle .standard with output := "x = ", level := 2 }
    let zero :=
      "\x7b\n    .tag = \x7b\n        .data = \x7b 0 \x7d,\n        .valid = 0\n    \x7d,\n    .id = 0,\n\x7d"
    (∀ s ∈ c.words w.comments, OneLine s) ∧ w.Fits (w.level + c.zero.depth) ∧
      c.unnamed.hasDefinition = true ∧ (c.emit w).result = .ok () ∧ w.Fits (w.level + 1) ∧
      c.emitZero w = w.append (shift "        " zero) ∧
      ∃ lines, (∀ line ∈ lines, OneLine line) ∧
        (c.emit w.unindented).writer.output = indented "" lines ∧
        (c.emit w).writer.output = "x = " ++ indented "        " lines := by
  intro tag c w zero
  have hwords : ∀ s ∈ c.words w.comments, OneLine s := by decide
  have hdepth : w.Fits (w.level + c.zero.depth) := by decide
  have hlevel : w.Fits (w.level + 1) := by decide
  obtain ⟨-, -, -, -, hzero, hdef⟩ := emission_indented hwords "v" 1
  have hmargin : (c.emitZero w.unindented).output = zero := by decide +kernel
  have hblanks : spaces (w.level * w.indentWidth) = "        " := rfl
  obtain ⟨hshift, -, -⟩ := hzero hdepth
  obtain ⟨lines, hlines, hunindented, hemit⟩ := hdef rfl rfl hlevel
  rw [hblanks] at hshift hemit
  rw [hmargin] at hshift
  refine ⟨hwords, hdepth, rfl, rfl, hlevel, hshift, lines, hlines, ?_, ?_⟩
  · rw [hunindented]
    exact String.empty_append
  · rw [hemit]
    rfl

end CType

end WireTypes
