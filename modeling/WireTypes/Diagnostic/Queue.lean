import WireTypes.Diagnostic.Basic

/-!
# Diagnostic queues

A queue keeps diagnostics in the order in which they are reported.  It keeps at most as many errors
as its limit allows and, if asked to, only one of several equal diagnostics; of the errors beyond
the limit it keeps the number.  Every item of a unit reports into a queue of its own (`fork`), and
the queues are joined in order (`append`).
-/

namespace WireTypes

/-- What a queue keeps. -/
structure QueueConfig where
  /-- The most errors kept; `0` is no limit. -/
  errorLimit : Nat
  /-- Of equal diagnostics only the first is kept. -/
  deduplicate : Bool
  deriving DecidableEq, Repr

namespace QueueConfig

/-- Ten errors, no repetitions. -/
def standard : QueueConfig := ⟨10, true⟩

instance : Inhabited QueueConfig := ⟨standard⟩

/-- Everything is kept. -/
def unlimited : QueueConfig := ⟨0, false⟩

end QueueConfig

/-- Diagnostics in report order, with the counts that the limit is tested against. -/
structure Queue where
  config : QueueConfig
  kept : List Diagnostic
  errors : Nat
  warnings : Nat
  dropped : Nat
  deriving DecidableEq, Repr

namespace Queue

def ofConfig (config : QueueConfig) : Queue := ⟨config, [], 0, 0, 0⟩

instance : Inhabited Queue := ⟨ofConfig .standard⟩

/-- An empty queue under the same configuration. -/
def fork (q : Queue) : Queue := ofConfig q.config

/-- No further error is kept. -/
def limitReached (q : Queue) : Bool := 0 < q.config.errorLimit && q.config.errorLimit ≤ q.errors

/-- Some error was reported, kept or not. -/
def hasErrors (q : Queue) : Bool := 0 < q.errors + q.dropped

def size (q : Queue) : Nat := q.kept.length

def isEmpty (q : Queue) : Bool := q.kept.isEmpty

/-- The diagnostic is an error beyond the limit. -/
def exceeds (q : Queue) (d : Diagnostic) : Bool := d.isError && q.limitReached

/-- The diagnostic is kept already and need not be kept again. -/
def repeats (q : Queue) (d : Diagnostic) : Bool := q.config.deduplicate && q.kept.contains d

/-- The diagnostic would be kept. -/
def accepts (q : Queue) (d : Diagnostic) : Bool := !q.exceeds d && !q.repeats d

/-- Keeps a diagnostic at the end, whatever the limit. -/
def keep (q : Queue) (d : Diagnostic) : Queue :=
  { q with
    kept := q.kept ++ [d]
    errors := q.errors + if d.isError then 1 else 0
    warnings := q.warnings + if d.isWarning then 1 else 0 }

/-- Reports a diagnostic.  An error beyond the limit is counted, a repetition is forgotten; the
limit is looked at first. -/
def add (q : Queue) (d : Diagnostic) : Queue :=
  if q.exceeds d then { q with dropped := q.dropped + 1 }
  else if q.repeats d then q
  else q.keep d

def addAll (q : Queue) (ds : List Diagnostic) : Queue := ds.foldl add q

/-- Reports what another queue kept, and takes over its count of dropped errors. -/
def append (q other : Queue) : Queue :=
  { q with dropped := q.dropped + other.dropped }.addAll other.kept

/-- Stands for the errors that are not shown. -/
def tooManyErrors (limit dropped : Nat) : Diagnostic :=
  (Diagnostic.error .tooManyErrors s!"aborting after {limit} errors").label .dummy
    "error limit reached"
    |>.note s!"{dropped} further error(s) were not shown"
    |>.note "use --error-limit to increase the limit"

/-- The kept diagnostics by position, equal positions in report order; then, if errors were
dropped, one that says so. -/
def listing (q : Queue) : List Diagnostic :=
  q.kept.mergeSort (fun a b => a.position ≤ b.position) ++
    if 0 < q.dropped then [tooManyErrors q.config.errorLimit q.dropped] else []

/-- The queue without its diagnostics and counts. -/
def clear (q : Queue) : Queue := { q with kept := [], errors := 0, warnings := 0, dropped := 0 }

/-- Takes the diagnostics out. -/
def flush (q : Queue) : List Diagnostic × Queue := (q.listing, q.clear)

theorem addAll_nil (q : Queue) : q.addAll [] = q := rfl

theorem addAll_cons (q : Queue) (d : Diagnostic) (ds : List Diagnostic) :
    q.addAll (d :: ds) = (q.add d).addAll ds := rfl

theorem addAll_append (q : Queue) (ds es : List Diagnostic) :
    q.addAll (ds ++ es) = (q.addAll ds).addAll es := List.foldl_append

end Queue

end WireTypes
