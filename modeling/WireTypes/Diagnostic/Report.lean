import WireTypes.Diagnostic.Basic
import WireTypes.Json.Output

/-!
# Diagnostics as JSON

One object for a list of diagnostics.  Lists of labels, notes and remedies are left out where they
are empty.
-/

namespace WireTypes

/-- A member that holds a list, if the list is not empty. -/
def Json.listMember (key : String) (items : List Json) : List (String × Json) :=
  if items.isEmpty then [] else [(key, .array items)]

def Label.toJson (l : Label) : Json :=
  .object
    [("type", .string (if l.primary then "primary" else "secondary")),
     ("start", .number l.span.start.toNat),
     ("end", .number l.span.stop.toNat),
     ("message", .string l.message)]

namespace Diagnostic

def toJson (d : Diagnostic) : Json :=
  .object
    ([("level", .string d.severity.word),
      ("code", .string d.code.number),
      ("message", .string d.message)] ++
      Json.listMember "labels" (d.labels.map Label.toJson) ++
      Json.listMember "notes" (d.notes.map .string) ++
      Json.listMember "help" (d.suggestions.map .string))

/-- A list of diagnostics, with the verdict and the number of errors. -/
def listToJson (ds : List Diagnostic) : Json :=
  .object
    [("success", .bool (!ds.any isError)),
     ("error_count", .number (errorCount ds)),
     ("diagnostics", .array (ds.map toJson))]

def listToJsonText (ds : List Diagnostic) : String := (listToJson ds).render

end Diagnostic

/-- The report of a failure that is no diagnostic. -/
def Json.failure (message : String) : Json :=
  .object [("success", .bool false), ("error", .string message)]

end WireTypes
