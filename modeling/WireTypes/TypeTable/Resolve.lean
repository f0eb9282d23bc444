import WireTypes.TypeTable.Basic

/-!
# Resolving names

One step from a `named` node to what is declared under its name, and the end of a chain of such
steps.
-/

namespace WireTypes.TypeTable

/-- One step: a `named` node goes to its declaration, any other node stays. -/
def step? (t : TypeTable) (ty : TypeId) : Option TypeId :=
  match t.kind ty with
  | .named n => t.lookup n
  | _ => some ty

/-- At most `steps` names on the way to a node that is no name. -/
def chase? (t : TypeTable) : Nat → TypeId → Option TypeId
  | 0, _ => none
  | steps + 1, ty =>
    match t.kind ty with
    | .named n => (t.lookup n).bind (t.chase? steps)
    | _ => some ty

/-- The node at the end of a chain of names; `none` if a name is not declared or the chain runs in a
circle.  A chain with more steps than nodes meets a node twice. -/
def resolve? (t : TypeTable) (ty : TypeId) : Option TypeId := t.chase? (t.size + 1) ty

end WireTypes.TypeTable
