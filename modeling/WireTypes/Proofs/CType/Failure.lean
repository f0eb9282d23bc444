import WireTypes.Proofs.CType.Initialiser

/-!
# What cannot be declared or defined

C text fails for one reason only: somewhere an array is asked for of a type that has none.  `Asks`
follows the calls that declare a type, down to the types of which arrays are asked for.

* `writeDeclaration_eq`: written piece by piece, a declaration is all of its text, or nothing;
* `declare_eq_error_iff`, `declareArray_eq_error_iff`: the errors, and the type that each names;
* `emit_eq_error_iff`: a definition fails at its first member that cannot be declared;
* `isInternal_of_declare`, `isInternal_of_emit`: none of the errors has been reported before;
* `emission_outcome` puts these together.
-/

namespace WireTypes.CType

/-! ## Declarations piece by piece -/

def writeScalar (width : UInt32) (signed : Bool) (id : String) (w : Writer) : Writer :=
  match Storage.ofBits width with
  | .bytes count => w.append s!"{byteType} {id}{bracket count}"
  | _ => ((w.append (scalarToken width signed)).append " ").append id

mutual

/-- Writes the declaration of `id`, each piece as soon as it is known. -/
def writeDeclaration : CType → String → Writer → Written
  | .bool, id, w => .done (((w.append byteType).append " ").append id)
  | .scalar width signed, id, w => .done (writeScalar width signed id w)
  | .header name _ _, id, w => .done (w.append (declareTagged "struct" name id))
  | .aggregate form name _ _ _, id, w => .done (w.append (declareTagged form.keyword name id))
  | .enum name _ _, id, w => .done (w.append (declareTagged "enum" name id))
  | .stack element _ size, id, w => element.writeArray id size w
  | .named _ _ canonical, id, w => canonical.writeDeclaration id w

/-- Writes the declaration of `id` as an array; its size comes last. -/
def writeArray : CType → String → UInt32 → Writer → Written
  | .header name _ _, id, size, w =>
    .done ((w.append (declareTagged "struct" name id)).append (bracket size))
  | .aggregate form name _ _ _, id, size, w =>
    .done ((w.append (declareTagged form.keyword name id)).append (bracket size))
  | .named _ _ canonical, id, size, w =>
    (canonical.writeDeclaration id w).andThen fun w => .done (w.append (bracket size))
  | .bool, id, _, w => ⟨w, .error (.unsupportedArray (kindName .bool) id)⟩
  | .scalar width signed, id, _, w =>
    ⟨w, .error (.unsupportedArray (kindName (.scalar width signed)) id)⟩
  | .enum name members span, id, _, w =>
    ⟨w, .error (.unsupportedArray (kindName (.enum name members span)) id)⟩
  | .stack element extent n, id, _, w =>
    ⟨w, .error (.unsupportedArray (kindName (.stack element extent n)) id)⟩

end

theorem writeScalar_eq (width : UInt32) (signed : Bool) (id : String) (w : Writer) :
    writeScalar width signed id w = w.append (declareScalar width signed id) := by
  unfold writeScalar declareScalar
  cases Storage.ofBits width <;> simp [Writer.append, toString, String.append_assoc]

-- By the structure of types.  The size of an array is written last, so what is written before it
-- cannot fail any more.

mutual

/-- A declaration is written as a whole, or nothing is. -/
theorem writeDeclaration_eq (c : CType) (id : String) (w : Writer) :
    c.writeDeclaration id w = .ofText w (c.declare id) := by
  cases c with
  | bool =>
    simp [writeDeclaration, declare, Written.ofText, Writer.append, toString, String.append_assoc]
  | scalar width signed => exact congrArg Written.done (writeScalar_eq width signed id w)
  | header | aggregate | enum => rfl
  | stack element extent size => exact writeArray_eq element id size w
  | named name span canonical => exact writeDeclaration_eq canonical id w

theorem writeArray_eq (c : CType) (id : String) (size : UInt32) (w : Writer) :
    c.writeArray id size w = .ofText w (c.declareArray id size) := by
  cases c with
  | bool | scalar | enum | stack => rfl
  | header | aggregate =>
    simp [writeArray, declareArray, Written.ofText, Writer.append, String.append_assoc]
  | named name span canonical =>
    have hdeclare := writeDeclaration_eq canonical id w
    simp only [writeArray, declareArray]
    rw [hdeclare]
    cases canonical.declare id with
    | error e => rfl
    | ok text =>
      simp [Written.ofText, Written.andThen, Written.done, Except.map, Writer.append,
        String.append_assoc]

end

/-! ## Arrays that are asked for -/

mutual

/-- Declaring the first type asks for an array of the second. -/
inductive Asks : CType → CType → Prop
  | stack {c d : CType} {extent : Extent} {size : UInt32} (h : AsksArray c d) :
      Asks (.stack c extent size) d
  | named {name : String} {span : Span} {c d : CType} (h : Asks c d) : Asks (.named name span c) d

/-- Declaring an array of the first type asks for an array of the second.  Another name for a type
is declared first and made an array afterwards. -/
inductive AsksArray : CType → CType → Prop
  | self (c : CType) : AsksArray c c
  | named {name : String} {span : Span} {c d : CType} (h : Asks c d) :
      AsksArray (.named name span c) d

end

/-- An array of the type is an error. -/
def refusesArray : CType → Bool
  | .bool => true
  | .scalar _ _ => true
  | .enum _ _ _ => true
  | .stack _ _ _ => true
  | _ => false

def refusal (c : CType) (id : String) : LoweringError := .unsupportedArray c.kindName id

mutual

/-- A declaration fails where it asks for an array of a type that refuses it. -/
theorem declare_eq_error_iff {c : CType} {id : String} {e : LoweringError} :
    c.declare id = .error e ↔ ∃ d, c.Asks d ∧ d.refusesArray = true ∧ e = d.refusal id := by
  cases c with
  | bool | scalar | header | aggregate | enum =>
    constructor
    · intro h
      cases h
    · rintro ⟨d, h, -⟩
      cases h
  | stack element extent size =>
    show element.declareArray id size = .error e ↔ _
    rw [declareArray_eq_error_iff (c := element)]
    refine exists_congr fun d => and_congr_left' ⟨.stack, fun h => ?_⟩
    cases h with
    | stack h => exact h
  | named name span canonical =>
    show canonical.declare id = .error e ↔ _
    rw [declare_eq_error_iff (c := canonical)]
    refine exists_congr fun d => and_congr_left' ⟨.named, fun h => ?_⟩
    cases h with
    | named h => exact h

theorem declareArray_eq_error_iff {c : CType} {id : String} {size : UInt32} {e : LoweringError} :
    c.declareArray id size = .error e ↔ ∃ d, c.AsksArray d ∧ d.refusesArray = true ∧
      e = d.refusal id := by
  cases c with
  | header | aggregate =>
    constructor
    · intro h
      cases h
    · rintro ⟨d, h, hrefuses, -⟩
      cases h
      cases hrefuses
  | bool | scalar | enum | stack =>
    constructor
    · intro h
      cases h
      exact ⟨_, .self _, rfl, rfl⟩
    · rintro ⟨d, h, -, rfl⟩
      cases h
      rfl
  | named name span canonical =>
    have hmap : (declareArray (.named name span canonical) id size = .error e) ↔
        canonical.declare id = .error e := by
      show (canonical.declare id).map (· ++ bracket size) = .error e ↔ _
      cases canonical.declare id <;> simp [Except.map]
    rw [hmap, declare_eq_error_iff (c := canonical)]
    constructor
    · rintro ⟨d, h, hrefuses, he⟩
      exact ⟨d, .named h, hrefuses, he⟩
    · rintro ⟨d, h, hrefuses, he⟩
      cases h with
      | self => cases hrefuses
      | named h => exact ⟨d, h, hrefuses, he⟩

end

/-! ## Definitions -/

/-- The type behind all other names. -/
def unnamed : CType → CType
  | .named _ _ canonical => canonical.unnamed
  | c => c

theorem emitMembers_eq_error_iff {members : List (Member × CType)} :
    ∀ {w : Writer} {e : LoweringError},
    (emitMembers w members).result = .error e ↔
      ∃ m d, members.find? (fun x => !x.2.declarable) = some (m, d) ∧
        d.declare m.name = .error e := by
  induction members with
  | nil =>
    intro w e
    constructor
    · intro h
      cases h
    · rintro ⟨m, d, h, -⟩
      cases h
  | cons first rest ih =>
    obtain ⟨m, c⟩ := first
    intro w e
    have hok := isOk_declare c m.name
    unfold emitMembers
    cases hdeclare : c.declare m.name with
    | error e' =>
      -- the first member that cannot be declared
      rw [hdeclare] at hok
      have hfind : ((m, c) :: rest).find? (fun x => !x.2.declarable) = some (m, c) :=
        List.find?_cons_of_pos (by simp [← hok, Except.isOk, Except.toBool])
      rw [hfind]
      constructor
      · intro h
        cases h
        exact ⟨m, c, rfl, hdeclare⟩
      · rintro ⟨m', d, h, hd⟩
        cases h
        rw [hdeclare] at hd
        cases hd
        rfl
    | ok text =>
      rw [hdeclare] at hok
      have hfind : ((m, c) :: rest).find?
          (fun x => !x.2.declarable) = rest.find? fun x => !x.2.declarable :=
        List.find?_cons_of_neg (by simp [← hok, Except.isOk, Except.toBool])
      rw [hfind]
      exact ih

/-- A definition fails at the first member that cannot be declared; nothing else
that is emitted can fail. -/
theorem emit_eq_error_iff {w : Writer} {e : LoweringError} :
    ∀ {c : CType}, (c.emit w).result = .error e ↔
    ∃ form name span members lossy m d, c.unnamed = .aggregate form name span members lossy ∧
      members.find? (fun x => !x.2.declarable) = some (m, d) ∧ d.declare m.name = .error e
  | .bool | .scalar _ _ | .header _ _ _ | .enum _ _ _ | .stack _ _ _ => by
    constructor
    · intro h
      cases h
    · rintro ⟨form, name, span, members, lossy, m, d, h, -⟩
      cases h
  | .named _ _ canonical => emit_eq_error_iff (c := canonical)
  | .aggregate form name span members lossy => by
    have hclose : ∀ x : Written,
        (x.andThen fun w => .done (w.closeBlock true)).result = .error e ↔ x.result = .error e := by
      rintro ⟨w', r⟩
      cases r <;> simp [Written.andThen, Written.done]
    show ((emitMembers (openDefinition w form.keyword name) members).andThen _).result =
        .error e ↔ _
    rw [hclose, emitMembers_eq_error_iff]
    constructor
    · rintro ⟨m, d, h⟩
      exact ⟨form, name, span, members, lossy, m, d, rfl, h⟩
    · rintro ⟨form', name', span', members', lossy', m, d, hunnamed, h⟩
      cases hunnamed
      exact ⟨m, d, h⟩

/-! ## Errors that nobody has reported -/

theorem isInternal_of_declare {c : CType} {id : String} {e : LoweringError}
    (h : c.declare id = .error e) : e.isInternal = true := by
  obtain ⟨d, -, -, rfl⟩ := declare_eq_error_iff.mp h
  rfl

theorem isInternal_of_declareArray {c : CType} {id : String} {size : UInt32} {e : LoweringError}
    (h : c.declareArray id size = .error e) : e.isInternal = true := by
  obtain ⟨d, -, -, rfl⟩ := declareArray_eq_error_iff.mp h
  rfl

theorem isInternal_of_emit {c : CType} {w : Writer} {e : LoweringError}
    (h : (c.emit w).result = .error e) : e.isInternal = true := by
  obtain ⟨form, name, span, members, lossy, m, d, -, -, hdeclare⟩ := emit_eq_error_iff.mp h
  exact isInternal_of_declare hdeclare

/-! ## All that is written -/

theorem result_ofText_eq_ok_iff {w : Writer} {x : Except LoweringError String} :
    (Written.ofText w x).result = .ok () ↔ x.isOk = true := by
  cases x <;> simp [Written.ofText, Written.done, Except.isOk, Except.toBool]

theorem result_ofText_eq_error_iff {w : Writer} {x : Except LoweringError String}
    {e : LoweringError} : (Written.ofText w x).result = .error e ↔ x = .error e := by
  cases x <;> simp [Written.ofText, Written.done]

theorem ofText_eq_error_iff {w w' : Writer} {x : Except LoweringError String} {e : LoweringError} :
    Written.ofText w x = ⟨w', .error e⟩ ↔ w' = w ∧ x = .error e := by
  cases x <;> simp [Written.ofText, Written.done, eq_comm]

/-- **What fails.**  A declaration is written exactly if the type can be declared, and an array
exactly if arrays of the type can; otherwise nothing is written, and the error names the identifier
and the type that refuses to be an array.  A definition fails exactly at its first member that
cannot be declared.  A zero value never fails, and no error counts as reported before. -/
theorem emission_outcome (c : CType) (id : String) (size : UInt32) (w : Writer) :
    (c.writeDeclaration id w = .ofText w (c.declare id) ∧
      c.writeArray id size w = .ofText w (c.declareArray id size)) ∧
    ((c.writeDeclaration id w).result = .ok () ↔ c.declarable = true) ∧
    ((c.writeArray id size w).result = .ok () ↔ c.stackable = true) ∧
    (∀ w' e, c.writeDeclaration id w = ⟨w', .error e⟩ ↔
      w' = w ∧ ∃ d, c.Asks d ∧ d.refusesArray = true ∧ e = .unsupportedArray d.kindName id) ∧
    (∀ w' e, c.writeArray id size w = ⟨w', .error e⟩ ↔
      w' = w ∧ ∃ d, c.AsksArray d ∧ d.refusesArray = true ∧ e = .unsupportedArray d.kindName id) ∧
    (∀ e, (c.emit w).result = .error e ↔ ∃ form name span members lossy m member d,
      c.unnamed = .aggregate form name span members lossy ∧
      members.find? (fun x => !x.2.declarable) = some (m, member) ∧
      member.Asks d ∧ d.refusesArray = true ∧ e = .unsupportedArray d.kindName m.name) ∧
    (∃ zero, (c.emitZero w).output = w.output ++ zero ∧ (zero = "0" ∨ IsBraceList zero)) ∧
    (c.writeDeclaration id w).result ≠ .error .reported ∧
      (c.writeArray id size w).result ≠ .error .reported ∧
    (c.emit w).result ≠ .error .reported := by
  have hdeclaration := writeDeclaration_eq c id w
  have harray := writeArray_eq c id size w
  refine ⟨⟨hdeclaration, harray⟩, ?_, ?_, ?_, ?_, ?_, ?_, ?_, ?_, ?_⟩
  · rw [hdeclaration, result_ofText_eq_ok_iff, isOk_declare]
  · rw [harray, result_ofText_eq_ok_iff, isOk_declareArray]
  · intro w' e
    rw [hdeclaration, ofText_eq_error_iff, declare_eq_error_iff]
    rfl
  · intro w' e
    rw [harray, ofText_eq_error_iff, declareArray_eq_error_iff]
    rfl
  · intro e
    rw [emit_eq_error_iff]
    constructor
    · rintro ⟨form, name, span, members, lossy, m, member, hunnamed, hfirst, h⟩
      obtain ⟨d, hasks, hrefuses, he⟩ := declare_eq_error_iff.mp h
      exact ⟨form, name, span, members, lossy, m, member, d, hunnamed, hfirst, hasks, hrefuses, he⟩
    · rintro ⟨form, name, span, members, lossy, m, member, d, hunnamed, hfirst, hasks, hrefuses, he⟩
      exact ⟨form, name, span, members, lossy, m, member, hunnamed, hfirst,
        declare_eq_error_iff.mpr ⟨d, hasks, hrefuses, he⟩⟩
  · obtain ⟨zero, houtput, hzero⟩ := c.zero.output_write w
    rw [emitZero_eq_write]
    refine ⟨zero, houtput, ?_⟩
    split at hzero
    · exact .inl hzero
    · exact .inr hzero
  · intro h
    rw [hdeclaration, result_ofText_eq_error_iff] at h
    cases isInternal_of_declare h
  · intro h
    rw [harray, result_ofText_eq_error_iff] at h
    cases isInternal_of_declareArray h
  · intro h
    cases isInternal_of_emit h

end WireTypes.CType
