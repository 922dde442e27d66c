/-
Registries: what the declared names of a diagram stand for.

A registry keeps its bindings in the order in which their names were first bound.  Binding a
bound name replaces what it stands for and keeps its place; a name that was unbound in between
goes to the end.  A name can also be bound to nothing: it then counts as bound, but looking it up
finds no object.

Two names are the same when their keys are: the name itself, or its lower case in a registry
that does not regard case.
-/
import Diagrams.Text.Lower

namespace Diagrams

/-- What the names of a diagram stand for. -/
structure Registry (α : Type) where
  /-- Whether names that differ in case only are different names. -/
  caseSensitive : Bool := true
  /-- The keys of the bound names with their objects, in order. -/
  bindings : List (Text × Option α) := []

namespace Registry

variable {α : Type}

/-- The key under which a name is bound. -/
def key (registry : Registry α) (name : Text) : Text :=
  if registry.caseSensitive then name else name.lower

/-- What a name is bound to, if it is bound at all. -/
def binding? (registry : Registry α) (name : Text) : Option (Option α) :=
  registry.bindings.lookup (registry.key name)

/-- Whether a name is bound. -/
def contains (registry : Registry α) (name : Text) : Bool := (registry.binding? name).isSome

/-- The object that a name stands for. -/
def get? (registry : Registry α) (name : Text) : Option α := (registry.binding? name).join

/-- How many names are bound. -/
def size (registry : Registry α) : Nat := registry.bindings.length

/-- What the bound names stand for, in order. -/
def objects (registry : Registry α) : List (Option α) := registry.bindings.map (·.2)

/-- Bind a name, in place of what it was bound to. -/
def register (registry : Registry α) (name : Text) (object : Option α) : Registry α :=
  let key := registry.key name
  { registry with
    bindings :=
      if registry.contains name then
        registry.bindings.map fun binding => if binding.1 = key then (key, object) else binding
      else registry.bindings ++ [(key, object)] }

/-- Whether binding the name to the object takes the place of something else. -/
def overwrites [DecidableEq α] (registry : Registry α) (name : Text) (object : Option α) : Bool :=
  (registry.binding? name).any (· ≠ object)

/-- Unbind a name.  If an object is given, the name is unbound only where it stands for that
object. -/
def unregister [DecidableEq α] (registry : Registry α) (name : Text) (object : Option α) :
    Registry α :=
  let key := registry.key name
  if object.isNone || registry.binding? name = some object then
    { registry with bindings := registry.bindings.filter (·.1 ≠ key) }
  else registry

/-- The object that a name stands for, and whether it had to be made: then the name is bound to
the new object. -/
def resolveOrStub (registry : Registry α) (name : Text) (make : Text → α) :
    (α × Bool) × Registry α :=
  match registry.get? name with
  | some object => ((object, false), registry)
  | none =>
    let stub := make name
    ((stub, true), registry.register name (some stub))

/-- Unbind all names. -/
def clear (registry : Registry α) : Registry α := { registry with bindings := [] }

/-- A registry in a message. -/
def summary (registry : Registry α) : String :=
  "SymbolRegistry(symbols=" ++ toString registry.size ++ ")"

end Registry

end Diagrams
