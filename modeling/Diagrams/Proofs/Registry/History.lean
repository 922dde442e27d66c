/-
Histories of registries.

What a registry holds can be told from what was done to it.  Every operation binds a key, or unbinds
it, or leaves it alone, and which of these it does depends on nothing but what the key was bound to.
So a key is bound to what the latest operation bound it to that was not undone, and operations with
other keys do not matter for it.

The order of the bindings is the order in which their keys were last bound anew: a key that is bound
already keeps its place, and a key that is bound anew goes to the end.
-/
import Mathlib.Data.Set.Card
import Diagrams.Proofs.Registry

namespace Diagrams.Registry

variable {α : Type}

/-- What can be done to a registry. -/
inductive Operation (α : Type)
  /-- Bind a name to an object, or to nothing. -/
  | register (name : Text) (object : Option α)
  /-- Unbind a name; if an object is given, from that object only. -/
  | unregister (name : Text) (object : Option α)
  /-- Look a name up, and bind it to a new object if it stands for none. -/
  | resolveOrStub (name : Text) (make : Text → α)
  /-- Look a name up, if there is one. -/
  | get (name : Option Text)
  /-- Unbind all names. -/
  | clear

/-- The keys of the bound names, in order. -/
def keys (registry : Registry α) : List Text := registry.bindings.map (·.1)

namespace Operation

/-- Do it. -/
def apply [DecidableEq α] : Operation α → Registry α → Registry α
  | register name object, registry => registry.register name object
  | unregister name object, registry => registry.unregister name object
  | resolveOrStub name make, registry => (registry.resolveOrStub name make).2
  | get _, registry => registry
  | clear, registry => registry.clear

/-- Whether an operation has to do with a key: its name has that key, or it has to do with all. -/
def concerns (registry : Registry α) (key : Text) : Operation α → Bool
  | register name _ => registry.key name = key
  | unregister name _ => registry.key name = key
  | resolveOrStub name _ => registry.key name = key
  | get name => name.any fun name => registry.key name = key
  | clear => true

end Operation

/-- The operation binds the key to the object. -/
inductive Binds (before : Registry α) : Text → Operation α → Option α → Prop
  /-- A name is bound, whatever it was bound to. -/
  | register (name : Text) (object : Option α) :
      Binds before (before.key name) (.register name object) object
  /-- A name that is unbound, or bound to nothing, is bound to a new object. -/
  | resolveOrStub (name : Text) (make : Text → α) (missing : before.get? name = none) :
      Binds before (before.key name) (.resolveOrStub name make) (some (make name))

/-- The operation unbinds the key, if it is bound. -/
inductive Unbinds (before : Registry α) : Text → Operation α → Prop
  /-- A name is unbound, whatever it is bound to. -/
  | unregister (name : Text) : Unbinds before (before.key name) (.unregister name none)
  /-- A name is unbound from the object that it is bound to. -/
  | unregisterObject (name : Text) (object : α)
      (bound : before.binding? name = some (some object)) :
      Unbinds before (before.key name) (.unregister name (some object))
  /-- All names are unbound. -/
  | clear (key : Text) : Unbinds before key .clear

/-- The operation leaves the key alone. -/
structure Spares (before : Registry α) (key : Text) (operation : Operation α) : Prop where
  not_binds : ∀ object, ¬ Binds before key operation object
  not_unbinds : ¬ Unbinds before key operation

section

variable [DecidableEq α]

/-- The registry after some operations on an empty one. -/
def after (caseSensitive : Bool) (history : List (Operation α)) : Registry α :=
  history.foldl (fun registry operation => operation.apply registry) { caseSensitive }

/-- The latest operation that bound the key bound it to the object, and none has unbound it
since. -/
def LastBound (caseSensitive : Bool) (history : List (Operation α)) (key : Text)
    (object : Option α) : Prop :=
  ∃ earlier operation later, history = earlier ++ operation :: later ∧
    Binds (after caseSensitive earlier) key operation object ∧
    ∀ near next far, later = near ++ next :: far →
      Spares (after caseSensitive (earlier ++ operation :: near)) key next

/-- The operation at the place has bound the key, which was not bound before and is bound since. -/
structure BoundSince (caseSensitive : Bool) (history : List (Operation α)) (key : Text)
    (place : Nat) : Prop where
  done : place < history.length
  unbound : key ∉ (after caseSensitive (history.take place)).keys
  bound : ∀ later, place < later → later ≤ history.length →
    key ∈ (after caseSensitive (history.take later)).keys

/-- What a registry answers, and in what order it lists its objects, is what was done to it. -/
structure Tells (caseSensitive : Bool) (history : List (Operation α)) : Prop where
  /-- Every key is bound once at most. -/
  distinct : (after caseSensitive history).keys.Nodup
  /-- Keys are bound to what they were last bound to. -/
  bindings : ∀ key object, (key, object) ∈ (after caseSensitive history).bindings ↔
    LastBound caseSensitive history key object
  /-- A name stands for the object that its key was last bound to. -/
  found : ∀ name object, (after caseSensitive history).get? name = some object ↔
    LastBound caseSensitive history ((after caseSensitive history).key name) (some object)
  /-- A name is bound if its key is, to an object or to nothing. -/
  contained : ∀ name, (after caseSensitive history).contains name = true ↔
    ∃ object, LastBound caseSensitive history ((after caseSensitive history).key name) object
  /-- An object is made for a name just where its key was not last bound to one. -/
  resolved : ∀ name make object created,
    ((after caseSensitive history).resolveOrStub name make).1 = (object, created) ↔
      (created = false ∧
        LastBound caseSensitive history ((after caseSensitive history).key name) (some object)) ∨
      (created = true ∧ object = make name ∧ ∀ other,
        ¬ LastBound caseSensitive history ((after caseSensitive history).key name) (some other))
  /-- What is answered for a name depends on the operations that have to do with its key. -/
  separate : ∀ name,
    let relevant := history.filter
      (Operation.concerns (after caseSensitive history) ((after caseSensitive history).key name))
    (after caseSensitive history).get? name = (after caseSensitive relevant).get? name ∧
      (after caseSensitive history).contains name = (after caseSensitive relevant).contains name ∧
      ∀ make, ((after caseSensitive history).resolveOrStub name make).1
        = ((after caseSensitive relevant).resolveOrStub name make).1
  /-- Every bound key was bound anew at some time. -/
  since : ∀ key ∈ (after caseSensitive history).keys,
    ∃ place, BoundSince caseSensitive history key place
  /-- Bindings are in the order in which their keys were bound anew. -/
  ordered : (after caseSensitive history).keys.Pairwise fun first second =>
    ∀ place other, BoundSince caseSensitive history first place →
      BoundSince caseSensitive history second other → place < other
  /-- The objects are those of the bindings, in order. -/
  objects : List.Forall₂ (LastBound caseSensitive history) (after caseSensitive history).keys
    (after caseSensitive history).objects
  /-- The size is the number of bound keys. -/
  size : (after caseSensitive history).size
    = {key | ∃ object, LastBound caseSensitive history key object}.ncard
  /-- Binding a bound name keeps its place. -/
  overwritten : ∀ name object, (after caseSensitive history).contains name = true →
    (after caseSensitive (history ++ [.register name object])).keys
      = (after caseSensitive history).keys
  /-- A name that is unbound and bound again goes to the end. -/
  renewed : ∀ name object,
    (after caseSensitive (history ++ [.unregister name none, .register name object])).keys
      = (after caseSensitive history).keys.erase ((after caseSensitive history).key name)
        ++ [(after caseSensitive history).key name]

/-! ### Keys and what they are bound to -/

omit [DecidableEq α] in
theorem mem_keys_iff (registry : Registry α) (key : Text) :
    key ∈ registry.keys ↔ ∃ object, registry.bindings.lookup key = some object := by
  rw [← Option.isSome_iff_exists, List.lookup_isSome_iff, keys, List.mem_map]
  simp only [beq_iff_eq, eq_comm (a := key)]

omit [DecidableEq α] in
theorem contains_iff (registry : Registry α) (name : Text) :
    registry.contains name = true ↔ registry.key name ∈ registry.keys := by
  rw [mem_keys_iff, ← Option.isSome_iff_exists]
  rfl

omit [DecidableEq α] in
/-- Where keys are distinct, looking a key up finds the one binding that it has. -/
theorem mem_bindings_iff {registry : Registry α} (h : registry.keys.Nodup) (key : Text)
    (object : Option α) :
    (key, object) ∈ registry.bindings ↔ registry.bindings.lookup key = some object := by
  constructor
  · intro hmem
    obtain ⟨found, hfound⟩ := (mem_keys_iff registry key).mp (List.mem_map.mpr ⟨_, hmem, rfl⟩)
    obtain ⟨front, back, hsplit, -⟩ := List.lookup_eq_some_iff.mp hfound
    have hpair : (key, found) ∈ registry.bindings := by
      rw [hsplit]
      simp
    have hsame : (key, object) = (key, found) := List.inj_on_of_nodup_map h hmem hpair rfl
    rw [hfound, (Prod.mk.inj hsame).2]
  · intro hlookup
    obtain ⟨front, back, hsplit, -⟩ := List.lookup_eq_some_iff.mp hlookup
    rw [hsplit]
    simp

omit [DecidableEq α] in
theorem keys_register_of_bound {registry : Registry α} {name : Text}
    (h : registry.key name ∈ registry.keys) (object : Option α) :
    (registry.register name object).keys = registry.keys := by
  rw [keys, bindings_register_of_bound ((contains_iff registry name).mpr h), List.map_map]
  apply List.map_congr_left
  intro binding _
  by_cases hsame : binding.1 = registry.key name
  · simp [hsame]
  · simp [hsame]

omit [DecidableEq α] in
theorem keys_register_of_free {registry : Registry α} {name : Text}
    (h : registry.key name ∉ registry.keys) (object : Option α) :
    (registry.register name object).keys = registry.keys ++ [registry.key name] := by
  rw [keys, bindings_register_of_free (fun hbound => h ((contains_iff registry name).mp hbound)),
    List.map_append]
  rfl

theorem keys_unregister (registry : Registry α) (name : Text) (object : Option α) :
    (registry.unregister name object).keys = registry.keys.filter (· ≠ registry.key name) ∨
      (registry.unregister name object).keys = registry.keys := by
  unfold unregister
  split
  · left
    rw [keys, keys, List.filter_map]
    rfl
  · exact .inr rfl

theorem keys_unregister_none (registry : Registry α) (name : Text) :
    (registry.unregister name none).keys = registry.keys.filter (· ≠ registry.key name) := by
  rw [keys, keys, List.filter_map]
  rfl

/-! ### One operation -/

omit [DecidableEq α] in
theorem resolveOrStub_of_found {registry : Registry α} {name : Text} {object : α}
    (h : registry.get? name = some object) (make : Text → α) :
    registry.resolveOrStub name make = ((object, false), registry) := by
  unfold resolveOrStub
  rw [h]

omit [DecidableEq α] in
theorem resolveOrStub_of_missing {registry : Registry α} {name : Text}
    (h : registry.get? name = none) (make : Text → α) :
    registry.resolveOrStub name make
      = ((make name, true), registry.register name (some (make name))) := by
  unfold resolveOrStub
  rw [h]

theorem caseSensitive_unregister (registry : Registry α) (name : Text) (object : Option α) :
    (registry.unregister name object).caseSensitive = registry.caseSensitive := by
  unfold unregister
  split <;> rfl

namespace Operation

theorem caseSensitive_apply (operation : Operation α) (registry : Registry α) :
    (operation.apply registry).caseSensitive = registry.caseSensitive := by
  cases operation with
  | register name object => rfl
  | unregister name object => exact caseSensitive_unregister registry name object
  | resolveOrStub name make =>
      show (registry.resolveOrStub name make).2.caseSensitive = _
      cases hget : registry.get? name with
      | some object => rw [resolveOrStub_of_found hget]
      | none => rw [resolveOrStub_of_missing hget, caseSensitive_register]
  | get name => rfl
  | clear => rfl

/-- An operation takes keys away, or it adds one at the end. -/
theorem keys_apply (operation : Operation α) (registry : Registry α) :
    (∃ keep, (operation.apply registry).keys = registry.keys.filter keep) ∨
      ∃ key, key ∉ registry.keys ∧ (operation.apply registry).keys = registry.keys ++ [key] := by
  have hsame : registry.keys = registry.keys.filter fun _ => true :=
    (List.filter_eq_self.mpr fun _ _ => rfl).symm
  have hregister : ∀ name object,
      (∃ keep, (registry.register name object).keys = registry.keys.filter keep) ∨
        ∃ key, key ∉ registry.keys ∧ (registry.register name object).keys
          = registry.keys ++ [key] := by
    intro name object
    by_cases hbound : registry.key name ∈ registry.keys
    · exact .inl ⟨_, (keys_register_of_bound hbound object).trans hsame⟩
    · exact .inr ⟨_, hbound, keys_register_of_free hbound object⟩
  cases operation with
  | register name object => exact hregister name object
  | unregister name object =>
      rcases keys_unregister registry name object with hfewer | hall
      · exact .inl ⟨_, hfewer⟩
      · exact .inl ⟨_, hall.trans hsame⟩
  | resolveOrStub name make =>
      show (∃ keep, (registry.resolveOrStub name make).2.keys = _) ∨
        ∃ key, _ ∧ (registry.resolveOrStub name make).2.keys = _
      cases hget : registry.get? name with
      | some object =>
          rw [resolveOrStub_of_found hget]
          exact .inl ⟨_, hsame⟩
      | none =>
          rw [resolveOrStub_of_missing hget]
          exact hregister name (some (make name))
  | get name => exact .inl ⟨_, hsame⟩
  | clear => exact .inl ⟨fun _ => false, (List.filter_false registry.keys).symm⟩

end Operation

section

variable {registry : Registry α} {key : Text} {operation : Operation α} {object : Option α}

theorem Binds.lookup_apply (h : Binds registry key operation object) :
    (operation.apply registry).bindings.lookup key = some object := by
  cases h with
  | register name object => exact (lookup_register ..).trans (if_pos rfl)
  | resolveOrStub name make missing =>
      show (registry.resolveOrStub name make).2.bindings.lookup _ = _
      rw [resolveOrStub_of_missing missing]
      exact (lookup_register ..).trans (if_pos rfl)

theorem Unbinds.lookup_apply (h : Unbinds registry key operation) :
    (operation.apply registry).bindings.lookup key = none := by
  have hfree : ∀ name, (registry.bindings.filter (·.1 ≠ registry.key name)).lookup
      (registry.key name) = none := fun name => (lookup_filter_ne ..).trans (if_pos rfl)
  cases h with
  | unregister name => exact hfree name
  | unregisterObject name object bound =>
      show (registry.unregister name (some object)).bindings.lookup _ = _
      unfold Registry.unregister
      rw [if_pos (by simp [bound])]
      exact hfree name
  | clear => rfl

/-- What a key was bound to stays as it was where the operation leaves the key alone. -/
theorem Spares.lookup_apply (h : Spares registry key operation) :
    (operation.apply registry).bindings.lookup key = registry.bindings.lookup key := by
  have hother : ∀ name object, (∃ object, Binds registry (registry.key name) operation object) →
      (registry.register name object).bindings.lookup key = registry.bindings.lookup key := by
    rintro name object ⟨bound, hbound⟩
    rw [lookup_register, if_neg]
    rintro rfl
    exact h.not_binds bound hbound
  cases operation with
  | register name object => exact hother name object ⟨object, .register name object⟩
  | unregister name object =>
      show (registry.unregister name object).bindings.lookup key = _
      unfold Registry.unregister
      split
      case isFalse => rfl
      case isTrue hcond =>
        refine (lookup_filter_ne ..).trans (if_neg ?_)
        rintro rfl
        apply h.not_unbinds
        cases object with
        | none => exact .unregister name
        | some object => exact .unregisterObject name object (by simpa using hcond)
  | resolveOrStub name make =>
      show (registry.resolveOrStub name make).2.bindings.lookup key = _
      cases hget : registry.get? name with
      | some object => rw [resolveOrStub_of_found hget]
      | none =>
          rw [resolveOrStub_of_missing hget]
          exact hother name _ ⟨_, .resolveOrStub name make hget⟩
  | get name => rfl
  | clear => exact absurd (.clear key) h.not_unbinds

/-! ### What an operation does to a key depends on what the key is bound to -/

omit [DecidableEq α] in
theorem key_eq_of_caseSensitive {other : Registry α}
    (h : registry.caseSensitive = other.caseSensitive) (name : Text) :
    registry.key name = other.key name := by
  unfold Registry.key
  rw [h]

section Alike

variable {other : Registry α} (hcase : registry.caseSensitive = other.caseSensitive)
  (hlookup : registry.bindings.lookup key = other.bindings.lookup key)

include hcase hlookup

omit [DecidableEq α] in
theorem binding?_eq_of_alike {name : Text} (h : registry.key name = key) :
    registry.binding? name = other.binding? name := by
  unfold Registry.binding?
  rw [← key_eq_of_caseSensitive hcase, h, hlookup]

omit [DecidableEq α] in
theorem Binds.of_alike (h : Binds registry key operation object) :
    Binds other key operation object := by
  cases h with
  | register name object =>
      rw [key_eq_of_caseSensitive hcase]
      exact .register name object
  | resolveOrStub name make missing =>
      have hmissing : other.get? name = none := by
        rw [← missing]
        exact congrArg Option.join (binding?_eq_of_alike hcase hlookup rfl).symm
      rw [key_eq_of_caseSensitive hcase]
      exact .resolveOrStub name make hmissing

omit [DecidableEq α] in
theorem Unbinds.of_alike (h : Unbinds registry key operation) : Unbinds other key operation := by
  cases h with
  | unregister name =>
      rw [key_eq_of_caseSensitive hcase]
      exact .unregister name
  | unregisterObject name object bound =>
      rw [binding?_eq_of_alike hcase hlookup rfl] at bound
      rw [key_eq_of_caseSensitive hcase]
      exact .unregisterObject name object bound
  | clear => exact .clear key

end Alike

omit [DecidableEq α] in
/-- An operation binds a key, or unbinds it, or leaves it alone. -/
theorem binds_or_unbinds_or_spares (registry : Registry α) (key : Text) (operation : Operation α) :
    (∃ object, Binds registry key operation object) ∨ Unbinds registry key operation ∨
      Spares registry key operation := by
  by_cases hbinds : ∃ object, Binds registry key operation object
  · exact .inl hbinds
  · by_cases hunbinds : Unbinds registry key operation
    · exact .inr (.inl hunbinds)
    · exact .inr (.inr ⟨fun object hobject => hbinds ⟨object, hobject⟩, hunbinds⟩)

/-- On two registries in which a key is bound alike, an operation leaves it bound alike. -/
theorem lookup_apply_of_alike {other : Registry α}
    (hcase : registry.caseSensitive = other.caseSensitive)
    (hlookup : registry.bindings.lookup key = other.bindings.lookup key) (operation : Operation α) :
    (operation.apply registry).bindings.lookup key
      = (operation.apply other).bindings.lookup key := by
  rcases binds_or_unbinds_or_spares registry key operation with
    ⟨object, hbinds⟩ | hunbinds | hspares
  · rw [hbinds.lookup_apply, (hbinds.of_alike hcase hlookup).lookup_apply]
  · rw [hunbinds.lookup_apply, (hunbinds.of_alike hcase hlookup).lookup_apply]
  · have hspares' : Spares other key operation :=
      ⟨fun object hbinds => hspares.not_binds object (hbinds.of_alike hcase.symm hlookup.symm),
        fun hunbinds => hspares.not_unbinds (hunbinds.of_alike hcase.symm hlookup.symm)⟩
    rw [hspares.lookup_apply, hspares'.lookup_apply, hlookup]

omit [DecidableEq α] in
theorem spares_of_not_concerns (h : operation.concerns registry key = false) :
    Spares registry key operation := by
  constructor
  · rintro object hbinds
    cases hbinds <;> simp [Operation.concerns] at h
  · intro hunbinds
    cases hunbinds <;> simp [Operation.concerns] at h

end

/-! ### Many operations -/

section

variable {caseSensitive : Bool} {history : List (Operation α)}
    {operation : Operation α} {key : Text}

theorem after_concat (caseSensitive : Bool) (history : List (Operation α))
    (operation : Operation α) :
    after caseSensitive (history ++ [operation])
      = operation.apply (after caseSensitive history) := by
  unfold after
  rw [List.foldl_append]
  rfl

@[simp] theorem caseSensitive_after (caseSensitive : Bool) (history : List (Operation α)) :
    (after caseSensitive history).caseSensitive = caseSensitive :=
  List.foldlRecOn (motive := fun registry : Registry α => registry.caseSensitive = caseSensitive)
    history _ rfl fun registry hregistry operation _ =>
      (operation.caseSensitive_apply registry).trans hregistry

/-- A key was last bound by the last operation, or before and the last operation leaves it alone. -/
theorem lastBound_concat {object : Option α} :
    LastBound caseSensitive (history ++ [operation]) key object ↔
      Binds (after caseSensitive history) key operation object ∨
        (LastBound caseSensitive history key object ∧
          Spares (after caseSensitive history) key operation) := by
  constructor
  · rintro ⟨earlier, binding, later, hsplit, hbinds, hspares⟩
    rcases List.eq_nil_or_concat' later with rfl | ⟨later, last, rfl⟩
    · obtain ⟨rfl, hlast⟩ := List.append_inj' hsplit rfl
      obtain rfl := List.head_eq_of_cons_eq hlast
      exact .inl hbinds
    · rw [← List.cons_append, ← List.append_assoc] at hsplit
      obtain ⟨rfl, hlast⟩ := List.append_inj' hsplit rfl
      obtain rfl := List.head_eq_of_cons_eq hlast
      refine .inr ⟨⟨earlier, binding, later, rfl, hbinds, ?_⟩, hspares later operation [] rfl⟩
      rintro near next far rfl
      exact hspares near next (far ++ [operation]) (by simp)
  · rintro (hbinds | ⟨⟨earlier, binding, later, rfl, hbinds, hspares⟩, hlast⟩)
    · exact ⟨history, operation, [], rfl, hbinds, fun near next far hsplit =>
        absurd hsplit (by simp)⟩
    · refine ⟨earlier, binding, later ++ [operation], by simp, hbinds, ?_⟩
      intro near next far hsplit
      rcases List.eq_nil_or_concat' far with rfl | ⟨far, last, rfl⟩
      · obtain ⟨rfl, hnext⟩ := List.append_inj' hsplit rfl
        obtain rfl := List.head_eq_of_cons_eq hnext
        exact hlast
      · rw [← List.cons_append, ← List.append_assoc] at hsplit
        obtain ⟨rfl, -⟩ := List.append_inj' hsplit rfl
        exact hspares near next far rfl

/-- **A key is bound to what it was last bound to.** -/
theorem lookup_after_eq_some_iff (caseSensitive : Bool) (history : List (Operation α)) (key : Text)
    (object : Option α) :
    (after caseSensitive history).bindings.lookup key = some object ↔
      LastBound caseSensitive history key object := by
  induction history using List.reverseRecOn with
  | nil =>
      constructor
      · intro hnone
        exact absurd hnone (by simp [after])
      · rintro ⟨earlier, operation, later, hsplit, -⟩
        exact absurd hsplit (by simp)
  | append_singleton history operation ih =>
      rw [after_concat, lastBound_concat, ← ih]
      rcases binds_or_unbinds_or_spares (after caseSensitive history) key operation with
        ⟨bound, hbinds⟩ | hunbinds | hspares
      · rw [hbinds.lookup_apply, Option.some_inj]
        constructor
        · rintro rfl
          exact .inl hbinds
        · rintro (hother | ⟨-, hspares⟩)
          · exact Option.some_inj.mp (hbinds.lookup_apply.symm.trans hother.lookup_apply)
          · exact absurd hbinds (hspares.not_binds bound)
      · rw [hunbinds.lookup_apply]
        constructor
        · intro hnone
          exact absurd hnone.symm (Option.some_ne_none object)
        · rintro (hbinds | ⟨-, hspares⟩)
          · exact absurd (hunbinds.lookup_apply.symm.trans hbinds.lookup_apply).symm
              (Option.some_ne_none object)
          · exact absurd hunbinds hspares.not_unbinds
      · rw [hspares.lookup_apply]
        constructor
        · intro hold
          exact .inr ⟨hold, hspares⟩
        · rintro (hbinds | ⟨hold, -⟩)
          · exact absurd hbinds (hspares.not_binds object)
          · exact hold

/-- For what a key is bound to, only the operations matter that have to do with it. -/
theorem lookup_after_filter (registry : Registry α) (hcase : registry.caseSensitive = caseSensitive)
    (history : List (Operation α)) (key : Text) :
    (after caseSensitive (history.filter (Operation.concerns registry key))).bindings.lookup key
      = (after caseSensitive history).bindings.lookup key := by
  induction history using List.reverseRecOn with
  | nil => rfl
  | append_singleton history operation ih =>
      rw [List.filter_append, after_concat]
      cases hconcerns : operation.concerns registry key with
      | true =>
          rw [List.filter_singleton, hconcerns, cond_true, after_concat]
          exact lookup_apply_of_alike (by simp) ih operation
      | false =>
          rw [List.filter_singleton, hconcerns, cond_false, List.append_nil, ih]
          have hsame : operation.concerns (after caseSensitive history) key = false := by
            rw [← hconcerns]
            have hkey : ∀ name, (after caseSensitive history).key name = registry.key name :=
              fun name => key_eq_of_caseSensitive (by simp [hcase]) name
            cases operation <;> simp [Operation.concerns, hkey]
          exact (spares_of_not_concerns hsame).lookup_apply.symm

theorem nodup_keys_after (caseSensitive : Bool) (history : List (Operation α)) :
    (after caseSensitive history).keys.Nodup := by
  refine List.foldlRecOn (motive := fun registry : Registry α => registry.keys.Nodup) history _
    List.nodup_nil ?_
  intro registry hnodup operation _
  rcases operation.keys_apply registry with ⟨keep, hkeys⟩ | ⟨key, hfree, hkeys⟩
  · rw [hkeys]
    exact hnodup.filter keep
  · rw [hkeys]
    rw [← List.concat_eq_append]
    exact hnodup.concat hfree

/-! ### The order of the bindings -/

theorem BoundSince.concat {place : Nat} (h : BoundSince caseSensitive history key place)
    (hbound : key ∈ (after caseSensitive (history ++ [operation])).keys) :
    BoundSince caseSensitive (history ++ [operation]) key place := by
  refine ⟨?_, ?_, ?_⟩
  · rw [List.length_append]
    exact Nat.lt_add_right _ h.done
  · rw [List.take_append_of_le_length h.done.le]
    exact h.unbound
  · intro later hplace hlater
    rw [List.length_append, List.length_singleton] at hlater
    rcases Nat.lt_or_eq_of_le hlater with hlt | rfl
    · rw [List.take_append_of_le_length (Nat.lt_succ_iff.mp hlt)]
      exact h.bound later hplace (Nat.lt_succ_iff.mp hlt)
    · rwa [List.take_of_length_le (by simp)]

theorem boundSince_last (hfree : key ∉ (after caseSensitive history).keys)
    (hbound : key ∈ (after caseSensitive (history ++ [operation])).keys) :
    BoundSince caseSensitive (history ++ [operation]) key history.length := by
  refine ⟨by simp, by simpa using hfree, ?_⟩
  intro later hplace hlater
  rw [List.take_of_length_le]
  · exact hbound
  · simpa using hplace

/-- A key that was bound already was bound anew before the last operation. -/
theorem BoundSince.of_concat {place : Nat}
    (h : BoundSince caseSensitive (history ++ [operation]) key place)
    (hold : key ∈ (after caseSensitive history).keys) :
    BoundSince caseSensitive history key place := by
  have hplace : place < history.length := by
    refine Nat.lt_of_le_of_ne ?_ ?_
    · simpa [Nat.lt_succ_iff] using h.done
    · rintro rfl
      exact h.unbound (by simpa using hold)
  refine ⟨hplace, ?_, ?_⟩
  · rw [← List.take_append_of_le_length hplace.le]
    exact h.unbound
  · intro later hlt hle
    rw [← List.take_append_of_le_length hle]
    exact h.bound later hlt (by rw [List.length_append]; exact Nat.le_add_right_of_le hle)

/-- A key that was not bound before was bound anew by the last operation. -/
theorem BoundSince.eq_length {place : Nat}
    (h : BoundSince caseSensitive (history ++ [operation]) key place)
    (hfree : key ∉ (after caseSensitive history).keys) : place = history.length := by
  have hdone := h.done
  rw [List.length_append, List.length_singleton] at hdone
  rcases Nat.lt_or_eq_of_le (Nat.lt_succ_iff.mp hdone) with hlt | heq
  · exact absurd (by simpa using h.bound history.length hlt (by simp)) hfree
  · exact heq

theorem exists_boundSince (caseSensitive : Bool) (history : List (Operation α)) :
    ∀ key ∈ (after caseSensitive history).keys, ∃ place,
      BoundSince caseSensitive history key place := by
  induction history using List.reverseRecOn with
  | nil => exact List.forall_mem_nil _
  | append_singleton history operation ih =>
      intro key hkey
      by_cases hold : key ∈ (after caseSensitive history).keys
      · obtain ⟨place, hplace⟩ := ih key hold
        exact ⟨place, hplace.concat hkey⟩
      · exact ⟨history.length, boundSince_last hold hkey⟩

/-- **Keys stand in the order in which they were bound anew.** -/
theorem pairwise_boundSince (caseSensitive : Bool) (history : List (Operation α)) :
    (after caseSensitive history).keys.Pairwise fun first second =>
      ∀ place other, BoundSince caseSensitive history first place →
        BoundSince caseSensitive history second other → place < other := by
  induction history using List.reverseRecOn with
  | nil => exact .nil
  | append_singleton history operation ih =>
      have hold : (after caseSensitive history).keys.Pairwise fun first second =>
          ∀ place other, BoundSince caseSensitive (history ++ [operation]) first place →
            BoundSince caseSensitive (history ++ [operation]) second other → place < other := by
        refine ih.imp_of_mem ?_
        intro first second hfirst hsecond hordered place other hplace hother
        exact hordered place other (hplace.of_concat hfirst) (hother.of_concat hsecond)
      rw [after_concat]
      rcases operation.keys_apply (after caseSensitive history) with
        ⟨keep, hkeys⟩ | ⟨added, hfree, hkeys⟩
      · rw [hkeys]
        exact hold.filter keep
      · rw [hkeys, List.pairwise_append]
        refine ⟨hold, List.pairwise_singleton _ _, ?_⟩
        intro first hfirst second hsecond place other hplace hother
        obtain rfl := List.mem_singleton.mp hsecond
        rw [hother.eq_length hfree]
        exact (hplace.of_concat hfirst).done

/-! ### What a registry tells -/

theorem get?_after_eq_some_iff (name : Text) (object : α) :
    (after caseSensitive history).get? name = some object ↔
      LastBound caseSensitive history ((after caseSensitive history).key name) (some object) := by
  rw [← lookup_after_eq_some_iff, Registry.get?, Option.join_eq_some_iff]
  rfl

/-- What a name is bound to depends on the operations that have to do with its key. -/
theorem binding?_after_filter (name : Text) :
    (after caseSensitive history).binding? name = (after caseSensitive (history.filter
      (Operation.concerns (after caseSensitive history)
        ((after caseSensitive history).key name)))).binding? name := by
  have hlookup := lookup_after_filter (after caseSensitive history) (caseSensitive_after _ _)
    history ((after caseSensitive history).key name)
  unfold Registry.binding?
  rw [← hlookup]
  congr 1
  exact key_eq_of_caseSensitive (by simp) name

theorem size_after (caseSensitive : Bool) (history : List (Operation α)) :
    (after caseSensitive history).size
      = {key | ∃ object, LastBound caseSensitive history key object}.ncard := by
  have hdistinct := nodup_keys_after caseSensitive history
  have hset : {key | ∃ object, LastBound caseSensitive history key object}
      = ((after caseSensitive history).keys.toFinset : Set Text) := by
    ext key
    rw [List.coe_toFinset]
    simp only [Set.mem_ofPred_eq, mem_keys_iff, lookup_after_eq_some_iff]
  rw [hset, Set.ncard_coe_finset, List.toFinset_card_of_nodup hdistinct, Registry.keys,
    List.length_map]
  rfl

/-- A key that is unbound and bound again goes to the end. -/
theorem keys_after_renewed (name : Text) (object : Option α) :
    (after caseSensitive (history ++ [.unregister name none, .register name object])).keys
      = (after caseSensitive history).keys.erase ((after caseSensitive history).key name)
        ++ [(after caseSensitive history).key name] := by
  have hsplit : history ++ [Operation.unregister name none, Operation.register name object]
      = (history ++ [.unregister name none]) ++ [.register name object] := by simp
  have hkeys := keys_unregister_none (after caseSensitive history) name
  rw [hsplit, after_concat, after_concat,
    (nodup_keys_after caseSensitive history).erase_eq_filter]
  show (((after caseSensitive history).unregister name none).register name object).keys = _
  rw [keys_register_of_free, hkeys, key_unregister]
  · congr 1
    exact List.filter_congr fun key _ => by simp [bne, beq_eq_decide]
  · rw [hkeys, key_unregister]
    simp

end

/-- **A registry tells its history.**  What it answers for a name is what the name's key was last
bound to, and its objects are in the order in which their keys were last bound anew. -/
theorem tells_after (caseSensitive : Bool) (history : List (Operation α)) :
    Tells caseSensitive history := by
  have hdistinct := nodup_keys_after caseSensitive history
  have hbindings : ∀ key object, (key, object) ∈ (after caseSensitive history).bindings ↔
      LastBound caseSensitive history key object := by
    intro key object
    rw [mem_bindings_iff hdistinct, lookup_after_eq_some_iff]
  refine ⟨hdistinct, hbindings, get?_after_eq_some_iff, ?_, ?_, ?_,
    exists_boundSince caseSensitive history, pairwise_boundSince caseSensitive history, ?_,
    size_after caseSensitive history, ?_, keys_after_renewed⟩
  · intro name
    simp only [← lookup_after_eq_some_iff, ← Option.isSome_iff_exists]
    rfl
  · intro name make object created
    simp only [← get?_after_eq_some_iff]
    cases hget : (after caseSensitive history).get? name with
    | some found =>
        rw [resolveOrStub_of_found hget]
        simp [eq_comm, and_comm]
    | none =>
        rw [resolveOrStub_of_missing hget]
        simp [eq_comm, and_comm]
  · intro name relevant
    have hbinding : (after caseSensitive history).binding? name
        = (after caseSensitive relevant).binding? name := binding?_after_filter name
    have hget : (after caseSensitive history).get? name
        = (after caseSensitive relevant).get? name :=
      congrArg Option.join hbinding
    refine ⟨hget, congrArg Option.isSome hbinding, ?_⟩
    intro make
    unfold resolveOrStub
    rw [hget]
    cases (after caseSensitive relevant).get? name <;> rfl
  · unfold Registry.keys Registry.objects
    rw [List.forall₂_map_left_iff, List.forall₂_map_right_iff, List.forall₂_same]
    intro binding hbinding
    exact (hbindings binding.1 binding.2).mp hbinding
  · intro name object hbound
    rw [after_concat]
    exact keys_register_of_bound ((contains_iff _ name).mp hbound) object

end

end Diagrams.Registry
