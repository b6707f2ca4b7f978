import LibWorkflow.Actions.Interface
import LibWorkflow.Lib.Cells

/-!
# Exposed properties across the boundary

`expose` gives a property of an action an alias (`core/state_machine.h`: "expose action's property key and
gives it alias"), and `ExecuteWorkflow::prepare` takes what its target exposes over. It looks the property up
by the key and hands it as it is to `setBoolProperty` and its siblings, which store it under the key the
property itself has: the alias is never used, and equal keys of different actions meet.
`exposed_across_iff` says which property there is under an alias, and which entries take each other's place.
-/

namespace LibWorkflow

open Ordered Fallible StateMachine Cells

/-! ### What a target exposes -/

/-- An entry of `exposed_properties`: the property of an action, under an alias. -/
structure Exposure where
  id : ℤ
  aliasName : String
  key : String

def StateMachine.exposures {ω : Type} (m : StateMachine ω) : List Exposure :=
  m.exposedProperties.entries.flatMap fun kv => kv.2.entries.map fun ka => ⟨kv.1, ka.1, ka.2⟩

/-- The first type that has the key, in the order of `prepare`. -/
def PropertySetOf.firstType? (set : PropertySet) (key : String) : Option PropertyType :=
  [PropertyType.bool, .double, .string, .uint, .custom].find? fun t => Property.counted (set.store t) key

namespace Exposure

variable {ω : Type} (m : StateMachine ω)

def property? (t : PropertyType) (e : Exposure) : Option (Property (t.Value Context)) :=
  (m.actions.find? e.id).bind fun act =>
    if act.action.properties.firstType? e.key = some t then lookupEntry e.key (act.action.properties.store t)
    else none

/-- The turn of `prepare` for one entry. -/
def transfer (e : Exposure) (own : PropertySet) : PropertySet :=
  match m.actions.find? e.id with
  | some act => ExecuteWorkflow.expose act.action.properties own e.key
  | none => own

/-- The turn of `e'` takes away the property that the turn of `e` has set. -/
def Overwrites (e' e : Exposure) : Prop :=
  ∃ t p own, e.property? m t = some p ∧ lookupEntry p.key (PropertySetOf.store own t) = some p ∧
    lookupEntry p.key ((e'.transfer m own).store t) ≠ some p

end Exposure

namespace ExecuteWorkflow

variable {ω : Type} {m : StateMachine ω}

/-- The properties of this type that are exposed, each as it is written: under its own key. -/
def exposedWrites (m : StateMachine ω) (t : PropertyType) : List (String × Option (Property (t.Value Context))) :=
  m.exposures.filterMap fun e => (e.property? m t).map fun p => (p.key, some p)

/-- Those that a call of `prepare` writes: an action that is still prepared is left as it is. -/
def preparedWrites (a : ExecuteWorkflow) (session : Option Session) (m : StateMachine ω) (t : PropertyType) :
    List (String × Option (Property (t.Value Context))) :=
  if a.stillPrepared session then [] else exposedWrites m t

/-! ### One turn -/

/-- The first type that has the key is the one that is set. -/
theorem expose_eq (prop own : PropertySet) (key : String) :
    expose prop own key = (prop.firstType? key).elim own fun t =>
      (lookupEntry key (prop.store t)).elim own (own.putProperty t) := by
  unfold expose PropertySetOf.firstType?
  simp only [List.find?_cons, PropertySetOf.store]
  split_ifs with hbool hdouble hstring huint hcustom
  · simp [hbool]
  · simp [hbool, hdouble]
  · simp [hbool, hdouble, hstring]
  · simp [hbool, hdouble, hstring, huint]
  · simp [hbool, hdouble, hstring, huint, hcustom]
  · simp [hbool, hdouble, hstring, huint, hcustom]

theorem lookupEntry_putProperty (own : PropertySet) {t t' : PropertyType} (p : Property (t'.Value Context))
    (k : String) (ht : t' ≠ t) : lookupEntry k ((own.putProperty t' p).store t) = lookupEntry k (own.store t) := by
  rw [PropertySetOf.putProperty, PropertySetOf.store_withStore_of_ne own ht.symm]

/-- A turn sets the property it leads to under the key of that property, and nothing else. -/
theorem lookupEntry_transfer (e : Exposure) (own : PropertySet) (t : PropertyType) (k : String) :
    lookupEntry k ((e.transfer m own).store t) =
      ((e.property? m t).filter fun p => p.key = k).or (lookupEntry k (own.store t)) := by
  unfold Exposure.transfer Exposure.property?
  cases m.actions.find? e.id with
  | none => rfl
  | some act =>
    simp only [Option.bind_some]
    rw [expose_eq]
    cases hfirst : act.action.properties.firstType? e.key with
    | none => rfl
    | some t' =>
      by_cases ht : t' = t
      · subst ht
        rw [if_pos rfl, Option.elim_some]
        cases lookupEntry e.key (act.action.properties.store t') with
        | none => rfl
        | some p =>
          rw [Option.elim_some, PropertySetOf.putProperty, PropertySetOf.store_withStore_self, Property.put,
            lookupEntry_insertEntry]
          by_cases hk : p.key = k
          · rw [if_pos hk.symm, Option.filter_some, if_pos (decide_eq_true hk), Option.some_or]
          · rw [if_neg (Ne.symm hk), Option.filter_some, if_neg (by simpa using hk), Option.none_or]
      · rw [if_neg fun h => ht (Option.some.inj h), Option.elim_some]
        cases lookupEntry e.key (act.action.properties.store t') with
        | none => rfl
        | some p => exact lookupEntry_putProperty own p k ht

/-! ### All turns -/

theorem foldlM_addExposed {own own' : PropertySet} {entries : List (ℤ × OrdMap String String)}
    (h : entries.foldlM (addExposed m) own = .ok own') :
    own' = (entries.flatMap fun kv => kv.2.entries.map fun ka => (⟨kv.1, ka.1, ka.2⟩ : Exposure)).foldl
      (fun own e => e.transfer m own) own := by
  induction entries generalizing own with
  | nil =>
    cases h
    rfl
  | cons kv rest ih =>
    obtain ⟨next, hturn, h⟩ := bind_eq_ok.mp h
    have hnext : next = (kv.2.entries.map fun ka => (⟨kv.1, ka.1, ka.2⟩ : Exposure)).foldl
        (fun own e => e.transfer m own) own := by
      unfold addExposed at hturn
      cases hact : m.actions.find? kv.1 with
      | none =>
        rw [hact] at hturn
        cases hturn
      | some act =>
        rw [hact] at hturn
        cases hturn
        simp only [List.foldl_map, Exposure.transfer, hact]
    rw [List.flatMap_cons, List.foldl_append, ← hnext]
    exact ih h

/-- After the turns a key has what was set last under it, or what was there before. -/
theorem lookupEntry_transfers (entries : List Exposure) (own : PropertySet) (t : PropertyType) (k : String) :
    lookupEntry k ((entries.foldl (fun own e => e.transfer m own) own).store t) =
      (latest (entries.filterMap fun e => (e.property? m t).map fun p => (p.key, some p)) k).or
        (lookupEntry k (own.store t)) := by
  induction entries using List.reverseRecOn with
  | nil => rfl
  | append_singleton entries e ih =>
    rw [List.foldl_append, List.foldl_cons, List.foldl_nil, lookupEntry_transfer, ih, List.filterMap_append]
    cases hp : e.property? m t with
    | none => simp [hp]
    | some p =>
      have hone : [e].filterMap (fun e => (e.property? m t).map fun p => (p.key, some p)) = [(p.key, some p)] := by
        simp [hp]
      rw [hone, latest_append_singleton]
      by_cases hk : p.key = k
      · rw [Option.filter_some, if_pos (decide_eq_true hk), if_pos hk, Option.some_or, Option.some_or, Option.some_or]
      · rw [Option.filter_some, if_neg (by simpa using hk), if_neg hk, Option.none_or]

theorem lookupEntry_prepare {controllers : Controllers ω} {a a' : ExecuteWorkflow}
    {session session' : Option Session} (htarget : a.target? controllers session = some m)
    (h : a.prepare controllers session = .ok (a', session', true)) (t : PropertyType) (k : String) :
    lookupEntry k (a'.properties.store t) =
      (latest (a.preparedWrites session m t) k).or (lookupEntry k (a.properties.store t)) := by
  unfold preparedWrites
  by_cases hstill : a.stillPrepared session = true
  · rw [prepare, if_pos hstill] at h
    cases h
    rw [if_pos hstill]
    rfl
  · rw [if_neg hstill]
    rw [prepare_of_target hstill htarget] at h
    obtain ⟨configured, hconfigured, hresult⟩ := bind_eq_ok.mp h
    cases hresult
    unfold configure at hconfigured
    obtain ⟨interface, -, hrest⟩ := bind_eq_ok.mp hconfigured
    obtain ⟨properties, hproperties, hconfigured⟩ := bind_eq_ok.mp hrest
    cases hconfigured
    rw [foldlM_addExposed hproperties]
    exact lookupEntry_transfers m.exposures a.properties t k

/-- An entry takes away what another one has set where it leads to another property of the same type and own
key. -/
theorem overwrites_iff {e e' : Exposure} : e'.Overwrites m e ↔
    ∃ t p q, e.property? m t = some p ∧ e'.property? m t = some q ∧ q.key = p.key ∧ q ≠ p := by
  constructor
  · rintro ⟨t, p, own, hp, hown, hlost⟩
    rw [lookupEntry_transfer, hown] at hlost
    cases hq : e'.property? m t with
    | none => simp [hq] at hlost
    | some q =>
      rw [hq] at hlost
      by_cases hk : q.key = p.key
      · rw [Option.filter_some, if_pos (decide_eq_true hk), Option.some_or] at hlost
        exact ⟨t, p, q, hp, hq, hk, fun heq => hlost (congrArg some heq)⟩
      · rw [Option.filter_some, if_neg (by simpa using hk), Option.none_or] at hlost
        exact absurd rfl hlost
  · rintro ⟨t, p, q, hp, hq, hk, hne⟩
    refine ⟨t, p, PropertySet.new.putProperty t p, hp, ?_, ?_⟩
    · rw [PropertySetOf.putProperty, PropertySetOf.store_withStore_self, Property.put, lookupEntry_insertEntry,
        if_pos rfl]
    · rw [lookupEntry_transfer, hq, Option.filter_some, if_pos (decide_eq_true hk), Option.some_or]
      exact fun heq => hne (Option.some.inj heq)

/-- Where `prepare` succeeds on a target, the action has the property an entry of the target leads to under
its alias, with its value and description, if and only if the last property of this type that this call
takes over and that has the alias as its own key, or else the property the action had there, has them; and
of two entries with different aliases one takes the place of the other if and only if they lead to different
properties of one type and own key. -/
theorem exposed_across_iff {controllers : Controllers ω} {a a' : ExecuteWorkflow}
    {session session' : Option Session} (htarget : a.target? controllers session = some m)
    (h : a.prepare controllers session = .ok (a', session', true)) :
    (∀ e ∈ m.exposures, ∀ t p, e.property? m t = some p →
      ((∃ q, lookupEntry e.aliasName (a'.properties.store t) = some q ∧ q.value = p.value ∧
          q.description = p.description) ↔
        ∃ q, (latest (a.preparedWrites session m t) e.aliasName).or
            (lookupEntry e.aliasName (a.properties.store t)) = some q ∧ q.value = p.value ∧
          q.description = p.description)) ∧
    ∀ e ∈ m.exposures, ∀ e' ∈ m.exposures, e.aliasName ≠ e'.aliasName →
      (¬e'.Overwrites m e ↔
        ¬∃ t p q, e.property? m t = some p ∧ e'.property? m t = some q ∧ q.key = p.key ∧ q ≠ p) := by
  refine ⟨fun e _ t p _ => ?_, fun e _ e' _ _ => overwrites_iff.not⟩
  rw [lookupEntry_prepare htarget h]

def locating (url : String) : Action Unit :=
  { Sample.returning .done with properties := PropertySet.new.defineStringProperty "url" url "Where to look" false }

/-- Two actions with a property of the same key, exposed under two aliases. -/
def mirrored : StateMachine Unit :=
  (((((StateMachine.new.init.addAction 0 (locating "left") [Sample.leadTo 1]).addAction 1 (locating "right")
    [Sample.leadTo 2]).addAction 2 Sample.skipping [bindingTo 2 "skip" Step.finish.id "skip"]).addInput
      ⟨"", 0, ""⟩).expose 0 "url" "source").expose 1 "url" "target"

theorem mirrored_exposures :
    (∀ e ∈ mirrored.exposures, ∀ t p, e.property? mirrored t = some p →
      ((∃ q, lookupEntry e.aliasName ((adapted mirrored).properties.store t) = some q ∧ q.value = p.value ∧
          q.description = p.description) ↔
        ∃ q, (latest (calling.preparedWrites none mirrored t) e.aliasName).or
            (lookupEntry e.aliasName (calling.properties.store t)) = some q ∧ q.value = p.value ∧
          q.description = p.description)) ∧
    ∀ e ∈ mirrored.exposures, ∀ e' ∈ mirrored.exposures, e.aliasName ≠ e'.aliasName →
      (¬e'.Overwrites mirrored e ↔ ¬∃ t p q, e.property? mirrored t = some p ∧ e'.property? mirrored t = some q ∧
        q.key = p.key ∧ q ≠ p) := by
  have hprepare : calling.prepare (serving mirrored) none = .ok (adapted mirrored, none, true) := rfl
  exact exposed_across_iff rfl hprepare

/-- Neither alias is there after `prepare`, and one property has taken the place of the other. -/
theorem aliases_lost : mirrored.validate = none ∧
    (∃ session', calling.prepare (serving mirrored) none = .ok (adapted mirrored, session', true)) ∧
    mirrored.exposures = [⟨0, "source", "url"⟩, ⟨1, "target", "url"⟩] ∧
    (adapted mirrored).properties.hasProperty "source" = false ∧
    (adapted mirrored).properties.hasProperty "target" = false ∧
    (adapted mirrored).stringProperty none "url" = "right" ∧
    Exposure.Overwrites mirrored ⟨1, "target", "url"⟩ ⟨0, "source", "url"⟩ := by
  refine ⟨by decide +kernel, ⟨none, rfl⟩, rfl, by decide +kernel, by decide +kernel, by decide +kernel, ?_⟩
  refine overwrites_iff.mpr ⟨.string, _, _, rfl, rfl, rfl, fun h => ?_⟩
  have hvalue : "right" = "left" := congrArg Property.value h
  exact absurd hvalue (by decide)

end ExecuteWorkflow

end LibWorkflow
