/-
What a registry says after a name has been bound or unbound.

A registry keeps a list of bindings, and binding a bound name rewrites that list in place.  Looking
names up does not see the difference between rewriting and appending: after `register`, the names
with the key of the bound one stand for the new object, and all other names for what they stood for.
After `unregister` those names stand for nothing, unless they stood for another object.
-/
import Diagrams.Registry

namespace Diagrams.Registry

variable {α : Type}

theorem lookup_map_rebind (bindings : List (Text × Option α)) (key other : Text)
    (object : Option α) :
    (bindings.map fun binding => if binding.1 = key then (key, object) else binding).lookup other
      = if other = key then (bindings.lookup other).map fun _ => object
        else bindings.lookup other := by
  induction bindings with
  | nil => simp
  | cons binding bindings ih =>
      obtain ⟨name, value⟩ := binding
      rw [List.map_cons, List.lookup_cons]
      by_cases hkey : name = key
      · subst hkey
        by_cases hother : other = name
        · simp [hother]
        · have hbeq : (other == name) = false := beq_eq_false_iff_ne.mpr hother
          simpa [hother, List.lookup_cons, hbeq] using ih
      · rw [if_neg hkey]
        by_cases hname : other = name
        · subst hname
          simp [hkey]
        · have hbeq : (other == name) = false := beq_eq_false_iff_ne.mpr hname
          simpa only [List.lookup_cons, hbeq] using ih

@[simp] theorem key_register (registry : Registry α) (name other : Text) (object : Option α) :
    (registry.register name object).key other = registry.key other := rfl

@[simp] theorem caseSensitive_register (registry : Registry α) (name : Text)
    (object : Option α) :
    (registry.register name object).caseSensitive = registry.caseSensitive := rfl

theorem bindings_register_of_bound {registry : Registry α} {name : Text}
    (h : registry.contains name = true) (object : Option α) :
    (registry.register name object).bindings
      = registry.bindings.map fun binding =>
          if binding.1 = registry.key name then (registry.key name, object) else binding :=
  if_pos h

theorem bindings_register_of_free {registry : Registry α} {name : Text}
    (h : ¬ registry.contains name = true) (object : Option α) :
    (registry.register name object).bindings
      = registry.bindings ++ [(registry.key name, object)] :=
  if_neg h

/-- After a name is bound, its key is bound to the new object, and every other key to what it was
bound to. -/
theorem lookup_register (registry : Registry α) (name key : Text) (object : Option α) :
    (registry.register name object).bindings.lookup key
      = if key = registry.key name then some object else registry.bindings.lookup key := by
  by_cases hbound : registry.contains name = true
  · rw [bindings_register_of_bound hbound, lookup_map_rebind]
    by_cases hsame : key = registry.key name
    · obtain ⟨old, hold⟩ := Option.isSome_iff_exists.mp hbound
      have hfound : registry.bindings.lookup (registry.key name) = some old := hold
      simp [hsame, hfound]
    · rw [if_neg hsame, if_neg hsame]
  · rw [bindings_register_of_free hbound, List.lookup_append]
    by_cases hsame : key = registry.key name
    · have hnone : registry.bindings.lookup (registry.key name) = none :=
        Option.not_isSome_iff_eq_none.mp hbound
      simp [hsame, hnone]
    · have hbeq : (key == registry.key name) = false := beq_eq_false_iff_ne.mpr hsame
      simp [hsame, List.lookup_cons, hbeq]

/-- After a name is bound, it stands for the new object, and every name with another key for what
it stood for. -/
theorem binding?_register (registry : Registry α) (name other : Text) (object : Option α) :
    (registry.register name object).binding? other
      = if registry.key other = registry.key name then some object
        else registry.binding? other :=
  lookup_register registry name (registry.key other) object

/-! ### Unbinding -/

theorem lookup_filter_ne (bindings : List (Text × Option α)) (key other : Text) :
    (bindings.filter (·.1 ≠ key)).lookup other
      = if other = key then none else bindings.lookup other := by
  induction bindings with
  | nil => simp
  | cons binding bindings ih =>
      obtain ⟨name, value⟩ := binding
      by_cases hname : name = key
      · rw [List.filter_cons_of_neg (by simpa using hname), ih]
        by_cases hother : other = key
        · rw [if_pos hother, if_pos hother]
        · have hbeq : (other == name) = false := by
            rw [hname]
            exact beq_eq_false_iff_ne.mpr hother
          simp [hother, List.lookup_cons, hbeq]
      · rw [List.filter_cons_of_pos (by simpa using hname), List.lookup_cons, List.lookup_cons, ih]
        by_cases hother : other = key
        · have hbeq : (other == name) = false := by
            rw [hother]
            exact beq_eq_false_iff_ne.mpr (Ne.symm hname)
          rw [hbeq, if_pos hother]
        · simp [hother]

section

variable [DecidableEq α]

@[simp] theorem key_unregister (registry : Registry α) (name other : Text) (object : Option α) :
    (registry.unregister name object).key other = registry.key other := by
  unfold unregister
  split <;> rfl

/-- After an object is unbound from a name, the names with that key stand for nothing if they stood
for it; all else is as it was. -/
theorem binding?_unregister (registry : Registry α) (name other : Text) (object : α) :
    (registry.unregister name (some object)).binding? other
      = if registry.key other = registry.key name ∧ registry.binding? name = some (some object)
        then none else registry.binding? other := by
  unfold unregister
  by_cases hbound : registry.binding? name = some (some object)
  · simp only [Option.isNone_some, Bool.false_or, hbound, decide_true, if_true, and_true]
    show (registry.bindings.filter (·.1 ≠ registry.key name)).lookup (registry.key other) = _
    rw [lookup_filter_ne]
    rfl
  · simp [hbound]

end

@[simp] theorem key_clear (registry : Registry α) (name : Text) :
    registry.clear.key name = registry.key name := rfl

@[simp] theorem binding?_clear (registry : Registry α) (name : Text) :
    registry.clear.binding? name = none := rfl

end Diagrams.Registry
