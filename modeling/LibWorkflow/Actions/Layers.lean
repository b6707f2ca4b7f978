import LibWorkflow.Actions.ExecuteWorkflow
import LibWorkflow.Engine.Samples

/-!
# Layered properties

The property accessors of `core/action.cpp` look for a key in three sets: the one the session has for the
action, the one of the session, and the action's own. They ask each set whether it has the key under any type,
and read the first that does with the type they return. So a set that has the key under another type hides
the sets below it, and what is read is the first value of the type exactly where none is hidden
(`layers_found_iff`).
-/

namespace LibWorkflow

open Ordered

/-! ### Looking through layers -/

section Layers

variable {α β : Type} {present : α → Bool} {value : α → Option β} {layers : List α} {default : β}

/-- The first layer that is present has no value, and a later one has one, which is not the default. -/
def Hides (present : α → Bool) (value : α → Option β) (layers : List α) (default : β) : Prop :=
  ∃ before layer after found, layers = before ++ layer :: after ∧ (∀ upper ∈ before, present upper = false) ∧
    present layer = true ∧ value layer = none ∧ after.findSome? value = some found ∧ found ≠ default

def readFirst (present : α → Bool) (value : α → Option β) (layers : List α) (default : β) : β :=
  ((layers.find? present).bind value).getD default

theorem hides_cons_of_absent {layer : α} (h : present layer = false) :
    Hides present value (layer :: layers) default ↔ Hides present value layers default := by
  constructor
  · rintro ⟨before, found, after, b, heq, hbefore, hpresent, hrest⟩
    cases before with
    | nil =>
      obtain ⟨rfl, -⟩ := List.cons.inj heq
      rw [h] at hpresent
      cases hpresent
    | cons upper before =>
      obtain ⟨rfl, rfl⟩ := List.cons.inj heq
      exact ⟨before, found, after, b, rfl, fun a ha => hbefore a (List.mem_cons_of_mem _ ha), hpresent, hrest⟩
  · rintro ⟨before, found, after, b, rfl, hbefore, hrest⟩
    exact ⟨layer :: before, found, after, b, rfl, List.forall_mem_cons.mpr ⟨h, hbefore⟩, hrest⟩

theorem hides_cons_of_present {layer : α} (h : present layer = true) :
    Hides present value (layer :: layers) default ↔
      value layer = none ∧ ∃ found, layers.findSome? value = some found ∧ found ≠ default := by
  constructor
  · rintro ⟨before, found, after, b, heq, hbefore, -, hnone, hlater⟩
    cases before with
    | nil =>
      obtain ⟨rfl, rfl⟩ := List.cons.inj heq
      exact ⟨hnone, b, hlater⟩
    | cons upper before =>
      obtain ⟨rfl, -⟩ := List.cons.inj heq
      have habsent := hbefore layer List.mem_cons_self
      rw [h] at habsent
      cases habsent
  · rintro ⟨hnone, b, hlater⟩
    exact ⟨[], layer, layers, b, rfl, fun a ha => absurd ha List.not_mem_nil, h, hnone, hlater⟩

/-- The first layer that is present gives the first value there is, or the default, if and only if it hides
none. -/
theorem readFirst_eq_iff (hvalue : ∀ layer, (value layer).isSome = true → present layer = true) :
    readFirst present value layers default = (layers.findSome? value).getD default ↔
      ¬Hides present value layers default := by
  unfold readFirst
  induction layers with
  | nil =>
    refine iff_of_true rfl ?_
    rintro ⟨before, layer, after, found, heq, -⟩
    simp at heq
  | cons layer layers ih =>
    cases hpresent : present layer with
    | false =>
      have hnone : value layer = none := by
        cases hlayer : value layer with
        | none => rfl
        | some b =>
          have hcontra := hvalue layer (by rw [hlayer]; rfl)
          rw [hpresent] at hcontra
          cases hcontra
      rw [hides_cons_of_absent hpresent, List.find?_cons_of_neg (by simp [hpresent]), List.findSome?_cons, hnone]
      exact ih
    | true =>
      rw [hides_cons_of_present hpresent, List.find?_cons_of_pos hpresent, List.findSome?_cons, Option.bind_some]
      cases value layer with
      | some b => simp
      | none =>
        cases layers.findSome? value with
        | none => simp
        | some b => simp [eq_comm]

end Layers

/-! ### The accessors -/

namespace Action

/-- The sets an action asks, the first one first. Without a session it has its own. -/
def layers (session : Option Session) (id : ℤ) (own : PropertySet) : List PropertySet :=
  (session.elim [] fun s => [s.getBypass id, s.bypass]) ++ [own]

/-- `doubleProperty`. -/
def doubleProperty (session : Option Session) (id : ℤ) (own : PropertySet) (key : String) (default : Float) :
    Float :=
  (((propertySource session id own key).bind (·.getDoubleProperty key default)).map Prod.fst).getD default

/-- `uintProperty`, which throws where the read does. -/
def uintProperty (session : Option Session) (id : ℤ) (own : PropertySet) (key : String) (default : UInt32) :
    Option UInt32 :=
  match propertySource session id own key with
  | some set => (set.getUintProperty key default).map Prod.fst
  | none => some default

/-- `uintProperty(session, key, default)` and the functions of the other types. -/
def property (session : Option Session) (id : ℤ) (own : PropertySet) :
    (t : PropertyType) → String → t.Value Context → Option (t.Value Context)
  | .uint => uintProperty session id own
  | .bool => fun key default => some (boolProperty session id own key default)
  | .string => fun key default => some (stringProperty session id own key default)
  | .double => fun key default => some (doubleProperty session id own key default)
  | .custom => fun key default => some (customProperty session id own key default)

/-- The accessor with what it logs about a key that no set has: the fingerprint of the session, if there is
one, is that of the machine of the action. -/
def propertyLogged {ω : Type} (stateMachine : Option (StateMachine ω)) (session : Option Session) (id : ℤ)
    (own : PropertySet) (t : PropertyType) (key : String) (default : t.Value Context) : Option (t.Value Context) :=
  if (propertySource session id own key).isNone && session.isSome && stateMachine.isNone then none
  else property session id own t key default

end Action

namespace PropertySetOf

variable {κ : Type}

theorem hasProperty_eq (set : PropertySetOf κ) (key : String) :
    set.hasProperty key = ((set.values .bool key).isSome || (set.values .double key).isSome ||
      (set.values .uint key).isSome || (set.values .string key).isSome || (set.values .custom key).isSome) := by
  rw [← counted_eq set .bool, ← counted_eq set .double, ← counted_eq set .uint, ← counted_eq set .string,
    ← counted_eq set .custom]
  rfl

theorem hasProperty_of_value {set : PropertySetOf κ} {t : PropertyType} {key : String}
    (h : (set.values t key).isSome = true) : set.hasProperty key = true := by
  rw [hasProperty_eq]
  cases t <;> simp [h]

theorem getD_getProperty (set : PropertySetOf κ) {t : PropertyType} (ht : t ≠ .uint) (key : String)
    (default : t.Value κ) :
    (((set.getProperty t key default).map Prod.fst).getD default) = (set.values t key).getD default := by
  rw [(getProperty_eq_values_iff set t key default).mpr fun h => absurd h ht]
  rfl

end PropertySetOf

namespace Action

variable {session : Option Session} {id : ℤ} {own : PropertySet}

theorem property_eq {t : PropertyType} (ht : t ≠ .uint) (key : String) (default : t.Value Context) :
    property session id own t key default =
      some (readFirst (·.hasProperty key) (·.values t key) (layers session id own) default) := by
  have hread : ∀ source : Option PropertySet,
      ((source.bind (·.getProperty t key default)).map Prod.fst).getD default =
        (source.bind (·.values t key)).getD default := by
    intro source
    cases source with
    | none => rfl
    | some set => exact set.getD_getProperty ht key default
  have hsource := hread (propertySource session id own key)
  cases t with
  | uint => exact absurd rfl ht
  | bool | string | double | custom => exact congrArg some hsource

/-- The first value of the type among the sets that an action asks. -/
def firstValue (session : Option Session) (id : ℤ) (own : PropertySet) (t : PropertyType) (key : String) :
    Option (t.Value Context) :=
  (layers session id own).findSome? (·.values t key)

/-- The set that an action asks first hides a value: it has the key, not with this type, and one of those
below has it with this type and another value than the default. -/
def Hidden (session : Option Session) (id : ℤ) (own : PropertySet) (t : PropertyType) (key : String)
    (default : t.Value Context) : Prop :=
  Hides (·.hasProperty key) (·.values t key) (layers session id own) default

theorem propertyLogged_eq_some_iff {ω : Type} {stateMachine : Option (StateMachine ω)} {t : PropertyType}
    {key : String} {default value : t.Value Context} :
    propertyLogged stateMachine session id own t key default = some value ↔
      ((∃ set ∈ layers session id own, set.hasProperty key = true) ∨
          (session.isSome = true → stateMachine.isSome = true)) ∧
        property session id own t key default = some value := by
  have hknown : (∃ set ∈ layers session id own, set.hasProperty key = true) ↔
      (propertySource session id own key).isSome = true := List.find?_isSome.symm
  rw [hknown]
  unfold propertyLogged
  cases propertySource session id own key <;> cases session <;> cases stateMachine <;> simp

/-- The accessors of the types other than the unsigned integers return the first value there is of the type, and
the default where there is none, if and only if none is hidden, and a key that no set has is not asked for in a
session by an action without a machine. -/
theorem layers_found_iff {ω : Type} (stateMachine : Option (StateMachine ω)) (session : Option Session) (id : ℤ)
    (own : PropertySet) {t : PropertyType} (ht : t ≠ .uint) (key : String) (default : t.Value Context) :
    propertyLogged stateMachine session id own t key default =
        some ((firstValue session id own t key).getD default) ↔
      ((∃ set ∈ layers session id own, set.hasProperty key = true) ∨
          (session.isSome = true → stateMachine.isSome = true)) ∧
        ¬Hidden session id own t key default := by
  rw [propertyLogged_eq_some_iff, property_eq ht, Option.some_inj]
  exact and_congr_right fun _ => readFirst_eq_iff fun _ h => PropertySetOf.hasProperty_of_value h

def logging : PropertySet := PropertySet.new.defineStringProperty "log" "Hello" "" false

def flagged : Session :=
  { Session.ofRequest (Sample.request .defaultAction 0 0) with
    bypass := PropertySet.new.defineBoolProperty "log" true "" false }

def titled : Session :=
  { flagged with
    actionBypasses := flagged.actionBypasses.insert 0 (PropertySet.new.defineStringProperty "log" "Mine" "" false) }

theorem flagged_hides : Hidden (some flagged) 0 logging .string "log" "" :=
  ⟨[PropertySet.new], flagged.bypass, [logging], "Hello", rfl, by decide +kernel, rfl, rfl, rfl, by decide⟩

theorem titled_not_hides : ¬Hidden (some titled) 0 logging .string "log" "" := by
  intro h
  obtain ⟨hnone, -⟩ := (@hides_cons_of_present PropertySet String (·.hasProperty "log") (·.values .string "log")
    [titled.bypass, logging] "" (titled.getBypass 0) rfl).mp h
  cases hnone

/-- The text for the action is found, and without it the flag of the session hides the text of the action. -/
theorem text_found :
    propertyLogged (some Sample.chain) (some titled) 0 logging .string "log" "" = some "Mine" ∧
      propertyLogged (some Sample.chain) (some flagged) 0 logging .string "log" "" ≠ some "Hello" := by
  refine ⟨(layers_found_iff (some Sample.chain) (some titled) 0 logging (t := .string) (by decide) "log" "").mpr
    ⟨.inr fun _ => rfl, titled_not_hides⟩, fun h => ?_⟩
  obtain ⟨-, hhidden⟩ := (layers_found_iff (some Sample.chain) (some flagged) 0 logging (t := .string) (by decide)
    "log" "").mp h
  exact hhidden flagged_hides

/-- The flag of the session hides the text of the action. -/
theorem flag_hides_text : propertyLogged (some Sample.chain) (some flagged) 0 logging .string "log" "" = some "" ∧
    firstValue (some flagged) 0 logging .string "log" = some "Hello" := ⟨rfl, rfl⟩

end Action

end LibWorkflow
