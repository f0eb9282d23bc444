import Mathlib.Data.List.Basic
import WireTypes.Diagnostic.Report
import WireTypes.Proofs.Json.Text

/-!
# JSON reports lose nothing

The JSON text of diagnostics tells all that they say (`listToJsonText_inj`).  Lists that are empty
are left out of an object; since the keys differ, each of the others is found by its key, and what
is not found was empty (`itemsOf_lookup_listMembers`).
-/

namespace WireTypes

namespace Json

/-! ## Lists that may be left out -/

/-- The members for several lists. -/
def listMembers (lists : List (String × List Json)) : List (String × Json) :=
  lists.flatMap fun entry => listMember entry.1 entry.2

/-- The items of a list; one that was left out is empty. -/
def itemsOf : Option Json → List Json
  | some (.array items) => items
  | _ => []

theorem lookup_listMember_of_ne {key key' : String} (h : key ≠ key') (items : List Json) :
    (listMember key' items).lookup key = none := by
  have hne : (key == key') = false := beq_eq_false_iff_ne.mpr h
  unfold listMember
  cases items with
  | nil => rfl
  | cons v items => simp [List.lookup_cons, hne]

theorem itemsOf_lookup_listMember (key : String) (items : List Json) :
    itemsOf ((listMember key items).lookup key) = items := by
  unfold listMember
  cases items with
  | nil => rfl
  | cons v items => simp [itemsOf]

theorem lookup_listMembers_of_not_mem {key : String} {lists : List (String × List Json)}
    (h : key ∉ lists.map (·.1)) : (listMembers lists).lookup key = none := by
  unfold listMembers
  induction lists with
  | nil => rfl
  | cons entry lists ih =>
    rw [List.map_cons, List.mem_cons, not_or] at h
    rw [List.flatMap_cons, List.lookup_append, lookup_listMember_of_ne h.1, ih h.2, Option.none_or]

/-- Under different keys, every list is read back, whether it was left out or not. -/
theorem itemsOf_lookup_listMembers {lists : List (String × List Json)}
    (hkeys : (lists.map (·.1)).Nodup) {key : String} {items : List Json}
    (h : (key, items) ∈ lists) : itemsOf ((listMembers lists).lookup key) = items := by
  induction lists with
  | nil => cases h
  | cons entry lists ih =>
    have hsplit : listMembers (entry :: lists) = listMember entry.1 entry.2 ++ listMembers lists :=
      List.flatMap_cons
    obtain ⟨hnew, hkeys⟩ := List.nodup_cons.mp hkeys
    rw [hsplit, List.lookup_append]
    rcases List.mem_cons.mp h with rfl | h
    · rw [lookup_listMembers_of_not_mem hnew, Option.or_none, itemsOf_lookup_listMember]
    · have hne : key ≠ entry.1 := by
        intro heq
        exact hnew (List.mem_map.mpr ⟨(key, items), h, heq⟩)
      rw [lookup_listMember_of_ne hne, Option.none_or, ih hkeys h]

end Json

/-! ## Parts of diagnostics -/

theorem Severity.word_inj {s s' : Severity} (h : s.word = s'.word) : s = s' := by
  revert h
  cases s <;> cases s' <;> decide

theorem Code.number_inj {c c' : Code} (h : c.number = c'.number) : c = c' := by
  have hall : ∀ c ∈ all, ∀ c' ∈ all, c.number = c'.number → c = c' := by decide
  exact hall c (mem_all c) c' (mem_all c') h

theorem Label.style_inj : ∀ {b b' : Bool},
    (if b then "primary" else "secondary") = (if b' then "primary" else "secondary") →
      b = b' := by decide

theorem Label.toJson_inj {l l' : Label} (h : l.toJson = l'.toJson) : l = l' := by
  obtain ⟨⟨start, stop⟩, message, primary⟩ := l
  obtain ⟨⟨start', stop'⟩, message', primary'⟩ := l'
  simp only [toJson, Json.object.injEq, List.cons.injEq, Prod.mk.injEq, Json.string.injEq,
    Json.number.injEq, true_and, and_true] at h
  obtain ⟨hstyle, hstart, hstop, rfl⟩ := h
  obtain rfl := UInt32.toNat_inj.mp hstart
  obtain rfl := UInt32.toNat_inj.mp hstop
  obtain rfl := style_inj hstyle
  rfl

namespace Diagnostic

/-- The lists of a diagnostic, with the keys under which they are written. -/
def lists (d : Diagnostic) : List (String × List Json) :=
  [("labels", d.labels.map Label.toJson), ("notes", d.notes.map .string),
    ("help", d.suggestions.map .string)]

theorem toJson_eq (d : Diagnostic) :
    d.toJson = .object (("level", .string d.severity.word) :: ("code", .string d.code.number) ::
      ("message", .string d.message) :: Json.listMembers d.lists) := by
  simp [toJson, Json.listMembers, lists]

/-- The lists of a diagnostic can be told from what is written of them. -/
theorem lists_inj {d d' : Diagnostic} (h : Json.listMembers d.lists = Json.listMembers d'.lists) :
    d.labels = d'.labels ∧ d.notes = d'.notes ∧ d.suggestions = d'.suggestions := by
  have hkeys : ∀ d : Diagnostic, (d.lists.map (·.1)).Nodup := by
    intro d
    show ["labels", "notes", "help"].Nodup
    decide
  have hitems : ∀ (key : String) (items items' : List Json), (key, items) ∈ d.lists →
      (key, items') ∈ d'.lists →
      items = items' := by
    intro key items items' hd hd'
    rw [← Json.itemsOf_lookup_listMembers (hkeys d) hd, h,
      Json.itemsOf_lookup_listMembers (hkeys d') hd']
  have hlabels : d.labels.map Label.toJson = d'.labels.map Label.toJson :=
    hitems "labels" _ _ (by simp [lists]) (by simp [lists])
  have hnotes : d.notes.map Json.string = d'.notes.map Json.string :=
    hitems "notes" _ _ (by simp [lists]) (by simp [lists])
  have hhelp : d.suggestions.map Json.string = d'.suggestions.map Json.string :=
    hitems "help" _ _ (by simp [lists]) (by simp [lists])
  have hstring : Function.Injective Json.string := fun _ _ => Json.string.inj
  exact ⟨List.map_injective_iff.mpr (fun _ _ => Label.toJson_inj) hlabels,
    List.map_injective_iff.mpr hstring hnotes, List.map_injective_iff.mpr hstring hhelp⟩

theorem toJson_inj {d d' : Diagnostic} (h : d.toJson = d'.toJson) : d = d' := by
  rw [toJson_eq, toJson_eq] at h
  simp only [Json.object.injEq, List.cons.injEq, Prod.mk.injEq, Json.string.injEq, true_and] at h
  obtain ⟨hword, hnumber, hmessage, hlists⟩ := h
  have hseverity := Severity.word_inj hword
  have hcode := Code.number_inj hnumber
  obtain ⟨hlabels, hnotes, hsuggestions⟩ := lists_inj hlists
  cases d
  cases d'
  simp_all

/-- **JSON reports lose nothing.**  Diagnostics have the same text only if they are the same:
codes, severities, messages, labels, notes and remedies, in the same order, whatever
characters they are made of. -/
theorem listToJsonText_inj (ds ds' : List Diagnostic) :
    listToJsonText ds = listToJsonText ds' ↔ ds = ds' := by
  refine ⟨fun h => ?_, congrArg listToJsonText⟩
  have hjson := Json.render_inj.mp h
  simp only [listToJson, Json.object.injEq, List.cons.injEq, Prod.mk.injEq, Json.array.injEq,
    true_and, and_true]
    at hjson
  exact List.map_injective_iff.mpr (fun _ _ => toJson_inj) hjson.2.2

end Diagnostic

end WireTypes
