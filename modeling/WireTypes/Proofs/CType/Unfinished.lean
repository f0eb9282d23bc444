import WireTypes.Proofs.CType.Indentation
import WireTypes.Proofs.CUnit.Failures

/-!
# Definitions that stop

A definition that stops at a member leaves its block open, and the writer one level deeper than
before; whatever is written next is indented once too often.  A declaration that fails writes
nothing.

* `emit_of_error`: the text and the writer that a definition leaves behind;
* `emission_failure` says for every operation what a failure leaves behind, and what it does to the
  text that follows;
* `TypeTable.not_emit_keeps_level`: so a failure does change the level, also for a type that the
  table lowered.
-/

namespace WireTypes

open CDeclaration (indented)

namespace Writer

/-- A definition up to the start of the line at which it stops. -/
def unfinished (w : Writer) (keyword tag : String) (lines : List String) : String :=
  w.marginText ++ (keyword ++ " " ++ tag ++ " \x7b\n" ++ indented w.indent.marginText lines ++
    w.indent.marginText)

theorem startLine_unfinished (w : Writer) (keyword tag : String) (lines : List String) :
    ((CType.openDefinition w keyword tag).append (indented w.indent.marginText lines)).startLine =
      (w.append (w.unfinished keyword tag lines)).indent := by
  show (((((w.append w.marginText).append s!"{keyword} {tag} ").append "\x7b").append
      "\n").indent.append
    (indented w.indent.marginText lines)).append w.indent.marginText = _
  have hindent : ∀ (w : Writer) (s : String), w.indent.append s = (w.append s).indent :=
    fun _ _ => rfl
  have hopen : " \x7b\n" = " " ++ "\x7b" ++ "\n" := rfl
  simp only [hindent, append_append]
  simp [unfinished, hopen, toString, String.append_assoc]

end Writer

namespace CType

open Writer

/-! ## The line at which a definition stops -/

theorem emitMembers_cons (w : Writer) (m : Member) (c : CType) (rest : List (Member × CType)) :
    emitMembers w ((m, c) :: rest) =
      (Written.ofText w.startLine (c.declare m.name)).andThen fun w =>
      emitMembers (w.appendLine (memberEnd w m c)) rest := rfl

theorem emitMembers_append {before rest : List (Member × CType)} : ∀ {w : Writer},
    emitMembers w (before ++ rest) = (emitMembers w before).andThen (emitMembers · rest) := by
  induction before with
  | nil => exact rfl
  | cons first before ih =>
    obtain ⟨m, c⟩ := first
    intro w
    rw [List.cons_append, emitMembers_cons, emitMembers_cons]
    cases c.declare m.name with
    | error e => rfl
    | ok text => exact ih

/-- The members before the one that fails have their lines; its own line is started. -/
theorem emitMembers_of_error {before after : List (Member × CType)} {m : Member} {c : CType}
    {e : LoweringError} {w : Writer} (hbefore : ∀ x ∈ before, x.2.declarable = true)
    (h : c.declare m.name = .error e) :
    emitMembers w (before ++ (m, c) :: after) =
      ⟨(w.append (indented w.marginText (before.map (memberText w)))).startLine, .error e⟩ := by
  rw [emitMembers_append, emitMembers_eq before fun m' c' hm => hbefore (m', c') hm]
  show emitMembers _ ((m, c) :: after) = _
  rw [emitMembers_cons, h]
  rfl

theorem emit_unnamed : ∀ (c : CType) (w : Writer), c.unnamed.emit w = c.emit w
  | .bool, _ | .scalar _ _, _ | .header _ _ _, _ | .aggregate _ _ _ _ _, _ | .enum _ _ _, _
  | .stack _ _ _, _ => rfl
  | .named _ _ canonical, w => emit_unnamed canonical w

/-- A definition that fails is that of a struct or union.  Its block stays open behind the members
before the first one that cannot be declared. -/
theorem emit_of_error {c : CType} {w : Writer} {e : LoweringError}
    (h : (c.emit w).result = .error e) :
    ∃ form name span before m member after lossy,
      c.unnamed = .aggregate form name span (before ++ (m, member) :: after) lossy ∧
      (∀ x ∈ before, x.2.declarable = true) ∧ member.declare m.name = .error e ∧
      c.emit w = ⟨(w.append (w.unfinished form.keyword name (before.map (memberText w)))).indent,
        .error e⟩ := by
  obtain ⟨form, name, span, members, lossy, m, member, hunnamed, hfirst, hdeclare⟩ :=
    emit_eq_error_iff.mp h
  obtain ⟨-, before, after, rfl, hbefore⟩ := List.find?_eq_some_iff_append.mp hfirst
  have hdeclarable : ∀ x ∈ before, x.2.declarable = true := by simpa using hbefore
  refine ⟨form, name, span, before, m, member, after, lossy, hunnamed, hdeclarable, hdeclare, ?_⟩
  have hlines : before.map (memberText (openDefinition w form.keyword name)) =
      before.map (memberText w) := rfl
  rw [← emit_unnamed, hunnamed, ← startLine_unfinished, ← hlines]
  unfold emit
  rw [emitMembers_of_error hdeclarable hdeclare]
  rfl

/-! ## What is written next -/

theorem writer_of_error {w : Writer} {x : Except LoweringError String} {e : LoweringError}
    (h : (Written.ofText w x).result = .error e) : Written.ofText w x = ⟨w, .error e⟩ :=
  ofText_eq_error_iff.mpr ⟨rfl, result_ofText_eq_error_iff.mp h⟩

/-- Behind a text after which the writer is one level deeper, a zero value is
shifted by one level. -/
theorem emitZero_deeper {c : CType} {w : Writer} (hwords : ∀ s ∈ c.words w.comments, OneLine s)
    (h : w.Fits (w.level + 1 + c.zero.depth)) (left : String) :
    c.emitZero (w.append left).indent =
      (w.append left).indent.append (shift (spaces w.indentWidth) (c.zero.text w)) := by
  have hshift :=
    Zero.text_shift c.zero (k := 1) (fun s hs => hwords s (words_of_names w.comments c hs)) h
  rw [Nat.one_mul] at hshift
  rw [emitZero_eq_write, Zero.write_eq, ← hshift]
  rfl

/-- **What a failure leaves behind.**  A declaration that fails leaves the writer as it was.  A
definition that fails does not: its first lines stay, up to the member that cannot be declared, and
the writer is one level deeper than it was.  Hence every zero value and every definition that
follows is indented by one level more than it would have been without the failure. -/
theorem emission_failure (c : CType) (id : String) (size : UInt32) (w : Writer)
    (e : LoweringError) :
    ((c.writeDeclaration id w).result = .error e → c.writeDeclaration id w = ⟨w, .error e⟩) ∧
    ((c.writeArray id size w).result = .error e → c.writeArray id size w = ⟨w, .error e⟩) ∧
    ((c.emit w).result = .ok () → (c.emit w).writer.level = w.level) ∧
    ((c.emit w).result = .error e → ∃ left,
      c.emit w = ⟨(w.append left).indent, .error e⟩ ∧
      (∃ form name span before m member after lossy,
        c.unnamed = .aggregate form name span (before ++ (m, member) :: after) lossy ∧
        (∀ x ∈ before, x.2.declarable = true) ∧ member.declare m.name = .error e ∧
        left = w.unfinished form.keyword name (before.map (memberText w))) ∧
      ∀ d : CType, (∀ s ∈ d.words w.comments, OneLine s) →
        (w.Fits (w.level + 1 + d.zero.depth) → ∃ zero, d.emitZero w = w.append zero ∧
          d.emitZero (c.emit w).writer =
            (c.emit w).writer.append (shift (spaces w.indentWidth) zero)) ∧
        (d.unnamed.hasDefinition = true → (d.emit w).result = .ok () → w.Fits (w.level + 1 + 1) →
          ∃ lines, (∀ line ∈ lines, OneLine line) ∧
            d.emit w = .done (w.append (indented (spaces (w.level * w.indentWidth)) lines)) ∧
            d.emit (c.emit w).writer =
              .done ((c.emit w).writer.append
                (indented (spaces ((w.level + 1) * w.indentWidth)) lines)))) := by
  refine ⟨?_, ?_, ?_, ?_⟩
  · rw [writeDeclaration_eq]
    exact writer_of_error
  · rw [writeArray_eq]
    exact writer_of_error
  · intro h
    obtain ⟨text, htext⟩ := emit_append c h
    rw [htext]
    rfl
  · intro h
    obtain ⟨form, name, span, before, m, member, after, lossy, hunnamed, hbefore, hdeclare,
        hemit⟩ := emit_of_error h
    refine ⟨_, hemit, ⟨form, name, span, before, m, member, after, lossy, hunnamed, hbefore,
      hdeclare, rfl⟩, ?_⟩
    intro d hwords
    rw [hemit]
    refine ⟨fun hfits => ⟨d.zero.text w, ?_, emitZero_deeper hwords hfits _⟩,
      fun hdef hok hfits => ?_⟩
    · rw [emitZero_eq_write, Zero.write_eq]
    · obtain ⟨lines, hlines, hd⟩ := emit_lines hdef hok hwords
      exact ⟨lines, hlines, hd w.output w.level (hfits.mono (Nat.le_succ _)),
        hd _ (w.level + 1) hfits⟩

/-- A member that is an array of bytes stops the struct; the blanks of two levels stay behind. -/
theorem emission_failure_bytes :
    let bytes := CType.stack (.scalar 8 false) ⟨8, 8⟩ 2
    let c := CType.aggregate .struct "s" .dummy [(⟨"a", "bit<8>[2]", none⟩, bytes)] false
    let d := CType.aggregate .struct "t" .dummy [(⟨"x", "bit<8>", none⟩, .scalar 8 false)] false
    let w : Writer := { ofStyle .minimal with level := 1 }
    let e := LoweringError.unsupportedArray "scalar" "a"
    (c.emit w).result = .error e ∧ (∀ s ∈ d.words w.comments, OneLine s) ∧
      w.Fits (w.level + 1 + d.zero.depth) ∧
      (c.emit w).writer.output = "    struct s \x7b\n        " ∧
      ∃ zero, d.emitZero w = w.append zero ∧
        d.emitZero (c.emit w).writer = (c.emit w).writer.append (shift "    " zero) := by
  intro bytes c d w e
  have hfail : (c.emit w).result = .error e := rfl
  have hwords : ∀ s ∈ d.words w.comments, OneLine s := by decide
  have hfits : w.Fits (w.level + 1 + d.zero.depth) := by decide
  obtain ⟨-, -, -, hemit⟩ := emission_failure c "v" 1 w e
  obtain ⟨left, -, -, hnext⟩ := hemit hfail
  exact ⟨hfail, hwords, hfits, by decide +kernel, (hnext d hwords).1 hfits⟩

end CType

/-! ## Lowered types -/

theorem TypeTable.lower_sliced : ∃ m : Member, CUnit.sliced.lower [] 2 =
    .ok (.aggregate .struct "s" .dummy [(m, .stack (.scalar 8 false) ⟨8, 8⟩ 2)] false) := by
  have hbyte : CUnit.sliced.lower [] 0 = .ok (.scalar 8 false) := by
    rw [lower, show CUnit.sliced.kind 0 = .bits 8 false by decide +kernel]
  have hbytes : CUnit.sliced.lower [] 1 = .ok (.stack (.scalar 8 false) ⟨8, 8⟩ 2) := by
    rw [CUnit.built_sliced.sound.lower_stack
      (show CUnit.sliced.kind 1 = .stack 0 2 by decide +kernel), hbyte]
    rfl
  refine ⟨CUnit.sliced.member ⟨⟨8⟩, 1, .dummy⟩, ?_⟩
  rw [CUnit.built_sliced.sound.lower_aggregate
    (show CUnit.sliced.kind 2 = .aggregate .struct ⟨7⟩ [⟨⟨8⟩, 1, .dummy⟩] by decide +kernel)]
  simp only [List.map_cons, List.map_nil, hbytes]
  rw [show CUnit.sliced.node 2 = ⟨.aggregate .struct ⟨7⟩ [⟨⟨8⟩, 1, .dummy⟩], .dummy⟩ by
    decide +kernel]
  simp [assemble, lowerFields, Lowered.ok, Except.map,
    show CUnit.sliced.spelling ⟨7⟩ = "s" by decide +kernel]

/-- So a failure does not keep the level, not even for types that a table lowered. -/
theorem TypeTable.not_emit_keeps_level :
    ¬ ∀ (t : TypeTable) (ty : TypeId) (q : Queue) (c : CType) (w : Writer)
    (e : LoweringError), t.Built → (t.create ty q).1 = .ok c → (c.emit w).result = .error e →
    (c.emit w).writer.level = w.level := by
  intro h
  obtain ⟨m, hlower⟩ := lower_sliced
  have hcreate : (CUnit.sliced.create 2 (.ofConfig .unlimited)).1 =
      .ok (.aggregate .struct "s" .dummy [(m, .stack (.scalar 8 false) ⟨8, 8⟩ 2)] false) := by
    rw [create, hlower]
    rfl
  have hlevel : 1 = 0 := h CUnit.sliced 2 _ _ default _ CUnit.built_sliced hcreate rfl
  cases hlevel

end WireTypes
