import LibWorkflow.Core.Context
import Mathlib.Data.String.Basic
import Mathlib.Logic.Function.Basic

/-!
# Property sets as typed maps

The accessors of `tools/property_set.cpp`: five families of functions written out by hand, each over a
map of its own, with one guard. They are to be five finite maps, each of which gives back what was written
last. The reads of the unsigned integers ask the custom properties whether the key is there
(`getUintProperty`), and so are right where a key has both or neither (`reads_last_write_iff`).
-/

namespace LibWorkflow

open Ordered

/-- `EPropertyType`. -/
inductive PropertyType where
  | uint | bool | string | double | custom
  deriving DecidableEq

/-- The values of the properties of a type, over the type of the contexts. -/
abbrev PropertyType.Value (κ : Type) : PropertyType → Type
  | .uint => UInt32
  | .bool => Bool
  | .string => String
  | .double => Float
  | .custom => Option κ

/-! ### One map -/

namespace Property

variable {α : Type}

/-- `store.count(key) > 0`. -/
def counted (store : List (String × Property α)) (key : String) : Bool := (lookupEntry key store).isSome

/-- What the `define` functions do to their map. -/
def define (store : List (String × Property α)) (key : String) (value : α) (description : String)
    (exposed : Bool) : List (String × Property α) :=
  insertEntry key ⟨key, description, exposed, value⟩ store

/-- What the `set` functions do that are given a value, and what they return. `store[key]` makes a new
property, without key or description, where there is none. -/
def set (guarded : Bool) (store : List (String × Property α)) (key : String) (value : α) :
    List (String × Property α) × Bool :=
  if !guarded || (guarded && counted store key) then
    let property := (lookupEntry key store).getD ⟨"", "", false, value⟩
    (insertEntry key { property with value := value } store, true)
  else (store, false)

/-- What the `set` functions do that are given a property. -/
def put (store : List (String × Property α)) (p : Property α) : List (String × Property α) :=
  insertEntry p.key p store

/-- What the `get` functions return, with `is_present`, once the key was found to be there or not: `at`
throws on a key that is not there. -/
def get (present : Bool) (store : List (String × Property α)) (key : String) (default : α) :
    Option (α × Bool) :=
  if present then (lookupEntry key store).map fun p => (p.value, true) else some (default, false)

end Property

namespace PropertySetOf

variable {κ : Type}

/-! ### The accessors -/

/-- `hasProperty`. -/
def hasProperty (set : PropertySetOf κ) (key : String) : Bool :=
  Property.counted set.boolValues key || Property.counted set.doubleValues key ||
    Property.counted set.uintValues key || Property.counted set.stringValues key ||
    Property.counted set.customValues key

def setGuarded (set : PropertySetOf κ) (b : Bool) : PropertySetOf κ := { set with guarded := b }

/-- `clear`, which leaves the guard. -/
def clear (set : PropertySetOf κ) : PropertySetOf κ := ⟨set.guarded, [], [], [], [], []⟩

def getBoolProperty (set : PropertySetOf κ) (key : String) (default : Bool) : Option (Bool × Bool) :=
  Property.get (Property.counted set.boolValues key) set.boolValues key default

def getDoubleProperty (set : PropertySetOf κ) (key : String) (default : Float) : Option (Float × Bool) :=
  Property.get (Property.counted set.doubleValues key) set.doubleValues key default

/-- The key is looked for among the custom properties. -/
def getUintProperty (set : PropertySetOf κ) (key : String) (default : UInt32) : Option (UInt32 × Bool) :=
  Property.get (Property.counted set.customValues key) set.uintValues key default

def getStringProperty (set : PropertySetOf κ) (key : String) (default : String) : Option (String × Bool) :=
  Property.get (Property.counted set.stringValues key) set.stringValues key default

def getCustomProperty (set : PropertySetOf κ) (key : String) (default : Option κ) :
    Option (Option κ × Bool) :=
  Property.get (Property.counted set.customValues key) set.customValues key default

def store (set : PropertySetOf κ) : (t : PropertyType) → List (String × Property (t.Value κ))
  | .uint => set.uintValues
  | .bool => set.boolValues
  | .string => set.stringValues
  | .double => set.doubleValues
  | .custom => set.customValues

def withStore (set : PropertySetOf κ) : (t : PropertyType) → List (String × Property (t.Value κ)) →
    PropertySetOf κ
  | .uint, store => { set with uintValues := store }
  | .bool, store => { set with boolValues := store }
  | .string, store => { set with stringValues := store }
  | .double, store => { set with doubleValues := store }
  | .custom, store => { set with customValues := store }

/-- The `define` functions, by the type of the property. -/
def defineProperty (set : PropertySetOf κ) (t : PropertyType) (key : String) (value : t.Value κ)
    (description : String) (exposed : Bool) : PropertySetOf κ :=
  set.withStore t (Property.define (set.store t) key value description exposed)

def defineUintProperty (set : PropertySetOf κ) := set.defineProperty .uint

def defineBoolProperty (set : PropertySetOf κ) := set.defineProperty .bool

def defineStringProperty (set : PropertySetOf κ) := set.defineProperty .string

def defineDoubleProperty (set : PropertySetOf κ) := set.defineProperty .double

def defineCustomProperty (set : PropertySetOf κ) := set.defineProperty .custom

/-- The `set` functions that are given a value: what is left of the set, and what is returned. -/
def setProperty (set : PropertySetOf κ) (t : PropertyType) (key : String) (value : t.Value κ) :
    PropertySetOf κ × Bool :=
  let written := Property.set set.guarded (set.store t) key value
  (set.withStore t written.1, written.2)

def setUintProperty (set : PropertySetOf κ) := set.setProperty .uint

def setBoolProperty (set : PropertySetOf κ) := set.setProperty .bool

def setStringProperty (set : PropertySetOf κ) := set.setProperty .string

def setDoubleProperty (set : PropertySetOf κ) := set.setProperty .double

def setCustomProperty (set : PropertySetOf κ) := set.setProperty .custom

/-- The `set` functions that are given a property. -/
def putProperty (set : PropertySetOf κ) (t : PropertyType) (p : Property (t.Value κ)) : PropertySetOf κ :=
  set.withStore t (Property.put (set.store t) p)

/-- `getUintProperty(key, default, is_present)` and the functions of the other types. -/
def getProperty (set : PropertySetOf κ) : (t : PropertyType) → String → t.Value κ → Option (t.Value κ × Bool)
  | .uint => set.getUintProperty
  | .bool => set.getBoolProperty
  | .string => set.getStringProperty
  | .double => set.getDoubleProperty
  | .custom => set.getCustomProperty

/-! ### The maps under the updates -/

@[simp] theorem store_withStore_self (set : PropertySetOf κ) (t : PropertyType)
    (entries : List (String × Property (t.Value κ))) : (set.withStore t entries).store t = entries := by
  cases t <;> rfl

theorem store_withStore_of_ne (set : PropertySetOf κ) {t t' : PropertyType} (h : t' ≠ t)
    (entries : List (String × Property (t.Value κ))) : (set.withStore t entries).store t' = set.store t' := by
  cases t <;> cases t' <;> first | rfl | exact absurd rfl h

@[simp] theorem withStore_store (set : PropertySetOf κ) (t : PropertyType) :
    set.withStore t (set.store t) = set := by
  cases t <;> rfl

@[simp] theorem store_setGuarded (set : PropertySetOf κ) (b : Bool) (t : PropertyType) :
    (set.setGuarded b).store t = set.store t := by
  cases t <;> rfl

@[simp] theorem store_clear (set : PropertySetOf κ) (t : PropertyType) : set.clear.store t = [] := by
  cases t <;> rfl

abbrev Values (κ : Type) := (t : PropertyType) → String → Option (t.Value κ)

def Values.write (values : Values κ) (t : PropertyType) (key : String) (value : t.Value κ) : Values κ :=
  Function.update values t (Function.update (values t) key (some value))

def values (set : PropertySetOf κ) : Values κ := fun t key => (lookupEntry key (set.store t)).map Property.value

theorem values_withStore_insertEntry (set : PropertySetOf κ) (t : PropertyType) (key : String)
    (p : Property (t.Value κ)) :
    (set.withStore t (insertEntry key p (set.store t))).values = set.values.write t key p.value := by
  funext t' key'
  unfold values Values.write
  by_cases ht : t' = t
  · subst ht
    rw [store_withStore_self, lookupEntry_insertEntry, Function.update_self, Function.update_apply]
    split_ifs <;> rfl
  · rw [store_withStore_of_ne set ht, Function.update_of_ne ht]

/-! ### Operations -/

/-- The calls that change a set. -/
inductive Operation (κ : Type) where
  | define (t : PropertyType) (key : String) (value : t.Value κ) (description : String) (exposed : Bool)
  | set (t : PropertyType) (key : String) (value : t.Value κ)
  | put (t : PropertyType) (p : Property (t.Value κ))
  | setGuarded (b : Bool)
  | clear

/-- What a call leaves of the set, and whether it succeeded: only the `set` functions that are given a value
can fail. -/
def apply (set : PropertySetOf κ) : Operation κ → PropertySetOf κ × Bool
  | .define t key value description exposed => (set.defineProperty t key value description exposed, true)
  | .set t key value => set.setProperty t key value
  | .put t p => (set.putProperty t p, true)
  | .setGuarded b => (set.setGuarded b, true)
  | .clear => (set.clear, true)

def applyAll (set : PropertySetOf κ) (ops : List (Operation κ)) : PropertySetOf κ :=
  ops.foldl (fun set op => (set.apply op).1) set

def history : PropertySetOf κ → List (Operation κ) → List (Operation κ × Bool)
  | _, [] => []
  | set, op :: ops => (op, (set.apply op).2) :: history (set.apply op).1 ops

/-! ### The values written last -/

namespace Values

def record (values : Values κ) : Operation κ × Bool → Values κ
  | (.define t key value _ _, _) => values.write t key value
  | (.set t key value, true) => values.write t key value
  | (.set _ _ _, false) => values
  | (.put t p, _) => values.write t p.key p.value
  | (.setGuarded _, _) => values
  | (.clear, _) => fun _ _ => none

end Values

/-- For each type and key the value of the last write that succeeded, unless the set was cleared since. -/
def lastWritten (calls : List (Operation κ × Bool)) : Values κ := calls.foldl Values.record fun _ _ => none

/-- What a call that is given a value returns: it is refused on a guarded set that has no property of this
type under the key. -/
theorem setProperty_eq (set : PropertySetOf κ) (t : PropertyType) (key : String) (value : t.Value κ) :
    (set.guarded = true ∧ set.values t key = none ∧ set.setProperty t key value = (set, false)) ∨
      ((set.setProperty t key value).2 = true ∧
        (set.setProperty t key value).1.values = set.values.write t key value) := by
  unfold setProperty Property.set
  by_cases h : set.guarded = true ∧ set.values t key = none
  · left
    have hcounted : Property.counted (set.store t) key = false := by
      simpa [values, Property.counted] using h.2
    simp [h.1, h.2, hcounted]
  · right
    have hfree : (!set.guarded || (set.guarded && Property.counted (set.store t) key)) = true := by
      cases hguarded : set.guarded with
      | false => rfl
      | true =>
        have hvalue : set.values t key ≠ none := fun hnone => h ⟨hguarded, hnone⟩
        simpa [values, Property.counted, Option.isSome_iff_ne_none] using hvalue
    simp only [hfree, if_true, true_and]
    exact set.values_withStore_insertEntry t key _

theorem values_apply (set : PropertySetOf κ) (op : Operation κ) :
    (set.apply op).1.values = set.values.record (op, (set.apply op).2) := by
  cases op with
  | define t key value description exposed => exact set.values_withStore_insertEntry t key _
  | set t key value =>
    simp only [apply]
    rcases set.setProperty_eq t key value with ⟨-, -, hrefused⟩ | ⟨hdone, hvalues⟩
    · rw [hrefused]
      rfl
    · rw [hdone, hvalues]
      rfl
  | put t p => exact set.values_withStore_insertEntry t p.key _
  | setGuarded b =>
    funext t key
    simp [apply, Values.record, values]
  | clear =>
    funext t key
    simp [apply, Values.record, values, lookupEntry]

theorem values_applyAll (set : PropertySetOf κ) (ops : List (Operation κ)) :
    (set.applyAll ops).values = (set.history ops).foldl Values.record set.values := by
  induction ops generalizing set with
  | nil => rfl
  | cons op ops ih =>
    rw [history, List.foldl_cons, ← values_apply]
    exact ih (set.apply op).1

/-- The set holds what was written last. -/
theorem values_eq_lastWritten (ops : List (Operation κ)) :
    ((⟨false, [], [], [], [], []⟩ : PropertySetOf κ).applyAll ops).values =
      lastWritten ((⟨false, [], [], [], [], []⟩ : PropertySetOf κ).history ops) := by
  rw [values_applyAll]
  unfold lastWritten
  congr 1
  funext t key
  cases t <;> rfl

/-! ### Reads -/

/-- The types whose maps a read looks at: where it looks for the key, and where it takes the value. -/
def countedType : PropertyType → PropertyType
  | .uint => .custom
  | t => t

theorem counted_eq (set : PropertySetOf κ) (t : PropertyType) (key : String) :
    Property.counted (set.store t) key = (set.values t key).isSome := by
  simp [Property.counted, values]

theorem getProperty_eq (set : PropertySetOf κ) (t : PropertyType) (key : String) (default : t.Value κ) :
    set.getProperty t key default =
      if (set.values (countedType t) key).isSome then (set.values t key).map fun v => (v, true)
      else some (default, false) := by
  have hget : ∀ (store : List (String × Property (t.Value κ))) (present : Bool),
      Property.get present store key default =
        if present then ((lookupEntry key store).map Property.value).map fun v => (v, true)
        else some (default, false) := by
    intro store present
    simp [Property.get, Function.comp_def]
  rw [← counted_eq]
  cases t <;> exact hget _ _

section Read

variable {α β : Type} (value : Option α) (present : Option β) (default : α)

/-- What a read gives whose key is looked for in one map and whose value is taken from another. -/
theorem read_eq_iff : (if present.isSome then value.map fun v => (v, true) else some (default, false)) =
      some (value.getD default, value.isSome) ↔ (value.isSome = true ↔ present.isSome = true) := by
  cases value <;> cases present <;> simp

/-- Where the key was not there, a read of another map does not stay what it was once the key is. -/
theorem read_changes_iff : (value.map fun v => (v, true)) =
      (if present.isSome then value.map fun v => (v, true) else some (default, false)) ↔ present ≠ none := by
  cases value <;> cases present <;> simp

end Read

/-- A read gives what is there, unless a key is that of an unsigned integer or of a custom property, and not
of both. -/
theorem getProperty_eq_values_iff (set : PropertySetOf κ) (t : PropertyType) (key : String) (default : t.Value κ) :
    set.getProperty t key default = some ((set.values t key).getD default, (set.values t key).isSome) ↔
      (t = .uint → ((set.values .uint key).isSome = true ↔ (set.values .custom key).isSome = true)) := by
  rw [getProperty_eq]
  by_cases ht : t = .uint
  · subst ht
    simp only [true_implies]
    exact read_eq_iff _ _ _
  · have hcounted : countedType t = t := by cases t <;> first | rfl | exact absurd rfl ht
    rw [hcounted, read_eq_iff]
    simp [ht]

def Operation.target : Operation κ → Option (PropertyType × String)
  | .define t key _ _ _ => some (t, key)
  | .set t key _ => some (t, key)
  | .put t p => some (t, p.key)
  | .setGuarded _ => none
  | .clear => none

def Refused (set : PropertySetOf κ) (t : PropertyType) (key : String) (op : Operation κ) : Prop :=
  set.guarded = true ∧ set.values t key = none ∧ ∃ value, op = .set t key value

theorem apply_of_target {set : PropertySetOf κ} {op : Operation κ} {t : PropertyType} {key : String}
    (h : op.target = some (t, key)) :
    (Refused set t key op ∧ set.apply op = (set, false)) ∨
      (¬Refused set t key op ∧ ∃ value, (set.apply op).1.values = set.values.write t key value) := by
  cases op with
  | define t' key' value description exposed =>
    cases h
    refine Or.inr ⟨?_, value, values_apply set (.define t key value description exposed)⟩
    rintro ⟨-, -, value', heq⟩
    cases heq
  | set t' key' value =>
    cases h
    rcases set.setProperty_eq t key value with ⟨hguarded, hnone, hrefused⟩ | ⟨hdone, hvalues⟩
    · exact Or.inl ⟨⟨hguarded, hnone, value, rfl⟩, hrefused⟩
    · refine Or.inr ⟨?_, value, hvalues⟩
      rintro ⟨hguarded, hnone, -⟩
      have hcounted : Property.counted (set.store t) key = false := by
        simpa [values, Property.counted] using hnone
      simp [setProperty, Property.set, hguarded, hcounted] at hdone
  | put t' p =>
    cases h
    refine Or.inr ⟨?_, p.value, values_apply set (.put t p)⟩
    rintro ⟨-, -, value', heq⟩
    cases heq
  | setGuarded b => cases h
  | clear => cases h

theorem write_of_ne {values : Values κ} {t t' : PropertyType} {key key' : String} (value : t'.Value κ)
    (h : ¬(t' = t ∧ key' = key)) : values.write t' key' value t key = values t key := by
  unfold Values.write
  by_cases ht : t = t'
  · subst ht
    rw [Function.update_self, Function.update_of_ne]
    rintro rfl
    exact h ⟨rfl, rfl⟩
  · rw [Function.update_of_ne ht]

theorem write_self {values : Values κ} {t : PropertyType} {key : String} (value : t.Value κ) :
    values.write t key value t key = some value := by
  unfold Values.write
  rw [Function.update_self, Function.update_self]

/-- A call that writes another property does not change what is read, unless it makes a custom property under
the key of an unsigned integer that is read. -/
theorem getProperty_apply_iff {set : PropertySetOf κ} {op : Operation κ} {t t' : PropertyType} {key key' : String}
    (default : t.Value κ) (htarget : op.target = some (t', key')) (hother : ¬(t' = t ∧ key' = key)) :
    (set.apply op).1.getProperty t key default = set.getProperty t key default ↔
      ¬(t = .uint ∧ t' = .custom ∧ key' = key ∧ set.values .custom key = none ∧ ¬Refused set t' key' op) := by
  rcases apply_of_target htarget with ⟨hrefused, heq⟩ | ⟨hdone, value, hvalues⟩
  · rw [heq]
    simp [hrefused]
  · rw [getProperty_eq, getProperty_eq, hvalues, write_of_ne value hother]
    by_cases hcustom : t' = countedType t ∧ key' = key
    · obtain ⟨rfl, rfl⟩ := hcustom
      have ht : t = .uint := by
        by_contra hne
        exact hother ⟨by cases t <;> first | rfl | exact absurd rfl hne, rfl⟩
      subst ht
      rw [write_self]
      rw [Option.isSome_some, if_pos rfl]
      refine (read_changes_iff _ (set.values .custom key') _).trans ⟨?_, ?_⟩
      · rintro hpresent ⟨-, -, -, hnone, -⟩
        exact hpresent hnone
      · intro hnot hnone
        exact hnot ⟨rfl, rfl, rfl, hnone, hdone⟩
    · rw [write_of_ne value hcustom]
      refine ⟨fun _ => ?_, fun _ => rfl⟩
      rintro ⟨rfl, rfl, rfl, -⟩
      exact hcustom ⟨rfl, rfl⟩

/-- The set after any calls, as a map for each type. A read gives the value written last, or the default where
there is none, if and only if its type is not that of the unsigned integers or the key has an unsigned integer
and a custom property, or neither. A call that writes another property does not change it, unless it makes a
custom property under the key of an unsigned integer. A guarded set refuses a value for a key that has none
of its type. -/
theorem reads_last_write_iff (ops : List (Operation Context)) (t : PropertyType) (key : String)
    (default : t.Value Context) :
    let set := PropertySet.new.applyAll ops
    let last := lastWritten (PropertySet.new.history ops)
    (set.getProperty t key default = some ((last t key).getD default, (last t key).isSome) ↔
        (t = .uint → ((last .uint key).isSome = true ↔ (last .custom key).isSome = true))) ∧
      (∀ op t' key', op.target = some (t', key') → ¬(t' = t ∧ key' = key) →
        ((set.apply op).1.getProperty t key default = set.getProperty t key default ↔
          ¬(t = .uint ∧ t' = .custom ∧ key' = key ∧ last .custom key = none ∧ ¬Refused set t' key' op))) ∧
      ∀ value, set.guarded = true → last t key = none → set.apply (.set t key value) = (set, false) := by
  intro set last
  have hlast : set.values = last := values_eq_lastWritten ops
  rw [← hlast]
  refine ⟨getProperty_eq_values_iff set t key default, fun op t' key' htarget hother => ?_, ?_⟩
  · exact getProperty_apply_iff default htarget hother
  · intro value hguarded hnone
    rcases set.setProperty_eq t key value with ⟨-, -, hrefused⟩ | ⟨hdone, -⟩
    · exact hrefused
    · have hcounted : Property.counted (set.store t) key = false := by
        simpa [values, Property.counted] using hnone
      simp [setProperty, Property.set, hguarded, hcounted] at hdone

/-- An unsigned integer that was defined is not found, and a custom property under another key makes the read
of an unsigned integer throw. -/
theorem uint_not_read :
    let set := PropertySet.new.applyAll
      [.define .uint "count" 1 "" false, .define .custom "context" none "" false]
    set.getProperty .uint "count" 0 = some (0, false) ∧ set.getProperty .uint "context" 0 = none ∧
      lastWritten (PropertySet.new.history
        [.define .uint "count" 1 "" false, .define .custom "context" none "" false]) .uint "count" = some 1 := by
  refine ⟨rfl, rfl, rfl⟩

end PropertySetOf

end LibWorkflow
