import WireTypes.Diagnostic.Basic

/-!
# Lowering errors

Why a type has no C representation or no C text.
-/

namespace WireTypes

/-- What stops the lowering of an item. -/
inductive LoweringError where
  /-- the reason is among the diagnostics -/
  | reported
  /-- `id` was to be an array of a kind of type that has none -/
  | unsupportedArray (kind : String) (id : String)
  deriving DecidableEq, Repr

namespace LoweringError

/-- Stands for the errors that were reported. -/
def guarantee : String := "error(s) emitted"

def message : LoweringError → String
  | .reported => s!"type could not be lowered ({guarantee})"
  | .unsupportedArray kind id => s!"internal error: cannot declare `{id}` as an array of {kind}"

/-- The error should have been ruled out. -/
def isInternal : LoweringError → Bool
  | .reported => false
  | .unsupportedArray _ _ => true

/-- The diagnostic of an error that nobody has reported yet. -/
def diagnostic? : LoweringError → Option Diagnostic
  | .reported => none
  | e@(.unsupportedArray _ _) => some (.internal e.message)

theorem diagnostic?_isSome (e : LoweringError) : e.diagnostic?.isSome = e.isInternal := by
  cases e <;> rfl

theorem exists_unsupportedArray {e : LoweringError} (h : e.isInternal = true) :
    ∃ kind id, e = .unsupportedArray kind id := by
  cases e with
  | reported => cases h
  | unsupportedArray kind id => exact ⟨kind, id, rfl⟩

end LoweringError

end WireTypes
