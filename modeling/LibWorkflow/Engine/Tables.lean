import LibWorkflow.Core.PropertySet
import LibWorkflow.Engine.Samples
import Mathlib.Data.List.Induction

/-!
# The tables of a state machine

Three tables of `StateMachine` follow from the actions: the bindings (`outputs`), the predecessors
(`inputs_map`) and the properties each action exposes (`exposed_properties`). `addAction` clears the first
and rebuilds the second for the action that is added, "as one may replace an action by another", and only
adds to the third. `tables_exact_iff`: after any calls of `addAction` the first two are exact, and the third
is unless an action was replaced by one that does not expose all it did. A replacement takes place as soon as
an action is added at one of the ids of `init`.
-/

namespace LibWorkflow

open Ordered

namespace StateMachine

variable {ω : Type}

/-- A call of `addAction`. -/
structure Addition (ω : Type) where
  id : ℤ
  action : Action ω
  bindings : List OutputBinding

/-- The machine after some calls of `addAction`. -/
def build (calls : List (Addition ω)) : StateMachine ω :=
  calls.foldl (fun m call => m.addAction call.id call.action call.bindings) new

theorem build_append (calls : List (Addition ω)) (call : Addition ω) :
    build (calls ++ [call]) = (build calls).addAction call.id call.action call.bindings := by
  rw [build, List.foldl_append]
  rfl

/-- The default layout is built by four calls. -/
def defaultLayout (ω : Type) : List (Addition ω) :=
  [⟨Step.initialisation.id, .unimplemented ω, [bindingTo Step.initialisation.id "" Step.finish.id ""]⟩,
    ⟨Step.error.id, .defaultNext ω, [bindingTo Step.error.id "" Step.cleanup.id ""]⟩,
    ⟨Step.finish.id, .defaultNext ω, [bindingTo Step.finish.id "" Step.cleanup.id ""]⟩,
    ⟨Step.cleanup.id, .defaultNext ω, [bindingTo Step.cleanup.id "" Step.die.id ""]⟩]

theorem build_defaultLayout : build (defaultLayout ω) = new.init := rfl

/-- The calls that are not rejected and add an action under this id. -/
def additionsAt (calls : List (Addition ω)) (a : ℤ) : List (Addition ω) :=
  calls.filter fun call => call.id = a ∧ Accepts call.id

theorem additionsAt_append (calls : List (Addition ω)) (call : Addition ω) (a : ℤ) :
    additionsAt (calls ++ [call]) a =
      if call.id = a ∧ Accepts call.id then additionsAt calls a ++ [call] else additionsAt calls a := by
  rw [additionsAt, List.filter_append, additionsAt, List.filter_cons, List.filter_nil]
  by_cases h : call.id = a ∧ Accepts call.id
  · rw [if_pos h, if_pos (decide_eq_true h)]
  · rw [if_neg h, if_neg (by rw [decide_eq_true_eq]; exact h), List.append_nil]

/-- What a machine has under an id follows from the calls that add an action there, one after another. -/
theorem build_eq_foldl {β : Type} {a : ℤ} (f : StateMachine ω → β) (step : β → Addition ω → β)
    (hadd : ∀ m call, Accepts call.id →
      f (m.addAction call.id call.action call.bindings) = if a = call.id then step (f m) call else f m)
    (calls : List (Addition ω)) : f (build calls) = (additionsAt calls a).foldl step (f new) := by
  induction calls using List.reverseRecOn with
  | nil => rfl
  | append_singleton calls call ih =>
    rw [build_append, additionsAt_append]
    by_cases haccepts : Accepts call.id
    · rw [hadd _ _ haccepts, ih]
      by_cases ha : call.id = a
      · rw [if_pos ha.symm, if_pos ⟨ha, haccepts⟩, List.foldl_append]
        rfl
      · rw [if_neg (Ne.symm ha), if_neg fun h => ha h.1]
    · rw [addAction_of_not_accepts haccepts, if_neg fun h => haccepts h.2, ih]

/-! ### What the last action decides -/

theorem foldl_last {α β : Type} (g : α → β) (b : β) (l : List α) :
    l.foldl (fun _ x => g x) b = (l.getLast?.map g).getD b := by
  induction l using List.reverseRecOn with
  | nil => rfl
  | append_singleton l x _ => simp

theorem find?_build (calls : List (Addition ω)) (a : ℤ) : (build calls).actions.find? a =
    (additionsAt calls a).getLast?.map fun call => ActionPtr.setActionId ⟨wrapperOf a, call.action⟩ a := by
  have hadd : ∀ (m : StateMachine ω) (call : Addition ω), Accepts call.id →
      (m.addAction call.id call.action call.bindings).actions.find? a =
        if a = call.id then some (ActionPtr.setActionId ⟨wrapperOf a, call.action⟩ a) else m.actions.find? a := by
    intro m call haccepts
    rw [find?_addAction haccepts]
    split_ifs with ha
    · rw [ha]
    · rfl
  rw [build_eq_foldl (·.actions.find? a)
    (fun _ call => some (ActionPtr.setActionId ⟨wrapperOf a, call.action⟩ a)) hadd, foldl_last]
  cases (additionsAt calls a).getLast? <;> rfl

theorem bindings_build (calls : List (Addition ω)) (a : ℤ) : (build calls).bindings a =
    ((additionsAt calls a).getLast?.map fun call =>
      call.bindings.map fun ob => { ob with fromActionId := a }).getD [] := by
  have hadd : ∀ (m : StateMachine ω) (call : Addition ω), Accepts call.id →
      (m.addAction call.id call.action call.bindings).bindings a =
        if a = call.id then call.bindings.map fun ob => { ob with fromActionId := a } else m.bindings a := by
    intro m call haccepts
    rw [bindings_addAction haccepts]
    split_ifs with ha
    · rw [ha]
    · rfl
  rw [build_eq_foldl (·.bindings a)
    (fun _ call => call.bindings.map fun ob => { ob with fromActionId := a }) hadd, foldl_last]
  rfl

theorem mem_outputs_keys (calls : List (Addition ω)) (a : ℤ) :
    a ∈ (build calls).outputs.keys ↔ (build calls).Registered a := by
  rw [OrdMap.mem_keys]
  induction calls using List.reverseRecOn with
  | nil => exact iff_of_false (fun ⟨_, h⟩ => nomatch h) fun ⟨_, h⟩ => nomatch h
  | append_singleton calls call ih =>
    rw [build_append]
    by_cases haccepts : Accepts call.id
    · obtain ⟨exposed, heq⟩ := addAction_of_accepts haccepts (build calls) call.action call.bindings
      rw [heq]
      unfold Registered at ih ⊢
      simp only [OrdMap.find?_insert]
      by_cases ha : a = call.id
      · simp [ha]
      · simpa [ha] using ih
    · rw [addAction_of_not_accepts haccepts, ih]

theorem laidOut_build (calls : List (Addition ω)) : (build calls : StateMachine ω).LaidOut := by
  induction calls using List.reverseRecOn with
  | nil => exact laidOut_new
  | append_singleton calls call ih =>
    rw [build_append]
    exact ih.addAction _ _ _

/-! ### What is exposed -/

def exposedAt (m : StateMachine ω) (a : ℤ) : OrdMap String String := (m.exposedProperties.find? a).getD ∅

theorem find?_exposedAt_expose (m : StateMachine ω) (id a : ℤ) (key aliasName name : String) :
    ((m.expose id key aliasName).exposedAt a).find? name =
      if a = id ∧ name = aliasName then some key else (m.exposedAt a).find? name := by
  unfold exposedAt expose
  simp only [OrdMap.find?_insert]
  by_cases ha : a = id
  · subst ha
    by_cases hname : name = aliasName <;> simp [hname, OrdMap.find?_insert]
  · simp [ha]

theorem find?_exposedAt_foldl (m : StateMachine ω) (id a : ℤ) (keys : List String) (name : String) :
    ((keys.foldl (fun m key => m.expose id key key) m).exposedAt a).find? name =
      if a = id ∧ name ∈ keys then some name else (m.exposedAt a).find? name := by
  induction keys generalizing m with
  | nil => simp
  | cons key keys ih =>
    rw [List.foldl_cons, ih, find?_exposedAt_expose]
    by_cases ha : a = id
    · by_cases hkeys : name ∈ keys
      · simp [ha, hkeys]
      · by_cases hkey : name = key <;> simp [ha, hkeys, hkey]
    · simp [ha]

theorem find?_exposedAt_addAction {id : ℤ} (h : Accepts id) (m : StateMachine ω) (action : Action ω)
    (bs : List OutputBinding) (a : ℤ) (name : String) : ((m.addAction id action bs).exposedAt a).find? name =
      if a = id ∧ name ∈ action.properties.exposedKeys then some name else (m.exposedAt a).find? name := by
  have hnot : ¬(wrapperOf id = none ∧ id < 0) := fun ⟨hw, hlt⟩ => h.elim (fun h => h hw) (not_le.mpr hlt)
  rw [addAction, if_neg hnot]
  exact find?_exposedAt_foldl _ id a action.properties.exposedKeys name

theorem foldl_exposed (name : String) (shown : Option String) (calls : List (Addition ω)) :
    calls.foldl (fun b call => if name ∈ call.action.properties.exposedKeys then some name else b) shown =
      if ∃ call ∈ calls, name ∈ call.action.properties.exposedKeys then some name else shown := by
  induction calls generalizing shown with
  | nil => simp
  | cons call calls ih =>
    rw [List.foldl_cons, ih]
    by_cases hname : name ∈ call.action.properties.exposedKeys <;> simp [hname]

/-- The table has what any of the actions added under the id exposed. -/
theorem find?_exposedAt_build (calls : List (Addition ω)) (a : ℤ) (name : String) :
    ((build calls).exposedAt a).find? name =
      if ∃ call ∈ additionsAt calls a, name ∈ call.action.properties.exposedKeys then some name else none := by
  have hadd : ∀ (m : StateMachine ω) (call : Addition ω), Accepts call.id →
      ((m.addAction call.id call.action call.bindings).exposedAt a).find? name =
        if a = call.id then if name ∈ call.action.properties.exposedKeys then some name
          else (m.exposedAt a).find? name
        else (m.exposedAt a).find? name := by
    intro m call haccepts
    rw [find?_exposedAt_addAction haccepts, ite_and]
  rw [build_eq_foldl (fun m => (m.exposedAt a).find? name)
    (fun b call => if name ∈ call.action.properties.exposedKeys then some name else b) hadd, foldl_exposed]
  rfl

/-! ### Exactness -/

/-- The table of exposed properties has, for each id, what the action registered there exposes. -/
def ExposesExactly (m : StateMachine ω) : Prop :=
  ∀ a name key, (m.exposedAt a).find? name = some key ↔
    key = name ∧ ∃ ptr, m.actions.find? a = some ptr ∧ name ∈ ptr.action.properties.exposedKeys

/-- After any calls of `addAction` the table of bindings has the registered ids, each with the bindings of the
last action added there, which start at it; and the table of predecessors has an id under another exactly if
there is a binding. The table of exposed properties is exact if and only if the last action added under each
id exposes all that any action added there did. -/
theorem tables_exact_iff (calls : List (Addition ω)) :
    (∀ a, a ∈ (build calls).outputs.keys ↔ (build calls).Registered a) ∧
    (∀ a, ∀ output ∈ (build calls).bindings a, output.fromActionId = a) ∧
    (∀ a, (build calls).bindings a = ((additionsAt calls a).getLast?.map fun call =>
      call.bindings.map fun ob => { ob with fromActionId := a }).getD []) ∧
    (∀ a b, a ∈ ((build calls).inputsMap.find? b).getD ∅ ↔ ∃ output ∈ (build calls).bindings a, output.toActionId = b) ∧
    ((build calls).ExposesExactly ↔
      ∀ a, ∀ call ∈ additionsAt calls a, ∀ last ∈ (additionsAt calls a).getLast?,
        ∀ key ∈ call.action.properties.exposedKeys, key ∈ last.action.properties.exposedKeys) := by
  refine ⟨mem_outputs_keys calls, (laidOut_build calls).ownBindings, bindings_build calls,
    fun a b => (laidOut_build calls).inputs, ?_⟩
  have hregistered : ∀ a name, (∃ ptr, (build calls).actions.find? a = some ptr ∧
      name ∈ ptr.action.properties.exposedKeys) ↔
        ∃ last ∈ (additionsAt calls a).getLast?, name ∈ last.action.properties.exposedKeys := by
    intro a name
    rw [find?_build]
    cases (additionsAt calls a).getLast? with
    | none => simp
    | some last => simp [ActionPtr.setActionId]
  unfold ExposesExactly
  simp only [hregistered, find?_exposedAt_build]
  constructor
  · intro hexact a call hcall last hlast key hkey
    have hshown := ((hexact a key key).mp (if_pos ⟨call, hcall, hkey⟩)).2
    obtain ⟨last', hlast', hkey'⟩ := hshown
    rw [hlast] at hlast'
    cases hlast'
    exact hkey'
  · intro hkept a name key
    rw [Option.ite_none_right_eq_some]
    constructor
    · rintro ⟨⟨call, hcall, hname⟩, heq⟩
      cases heq
      obtain ⟨last, hlast⟩ : ∃ last, (additionsAt calls a).getLast? = some last :=
        ⟨_, List.getLast?_eq_some_getLast (List.ne_nil_of_mem hcall)⟩
      exact ⟨rfl, last, hlast, hkept a call hcall last hlast name hname⟩
    · rintro ⟨rfl, last, hlast, hname⟩
      exact ⟨⟨last, List.mem_of_getLast? hlast, hname⟩, rfl⟩

end StateMachine

namespace Sample

open StateMachine

def disclosing : Action Unit :=
  { returning .done with properties := PropertySet.new.defineStringProperty "url" "here" "Where to look" true }

def replaced : List (Addition Unit) := [⟨0, disclosing, [leadTo Step.finish.id]⟩, ⟨0, returning .done, []⟩]

/-- The property is listed still, and no action has it. -/
theorem exposure_outlives_action : (∃ ptr, (build replaced).actions.find? 0 = some ptr ∧
      ptr.action.properties.exposedKeys = [] ∧ ptr.action.properties.hasProperty "url" = false) ∧
    ((build replaced).exposedAt 0).find? "url" = some "url" ∧ (build replaced).bindings 0 = [] ∧
    ¬(build replaced).ExposesExactly := by
  have hlisted : ((build replaced).exposedAt 0).find? "url" = some "url" := by decide
  refine ⟨⟨_, rfl, rfl, rfl⟩, hlisted, rfl, fun hexact => ?_⟩
  obtain ⟨-, ptr, hptr, hkey⟩ := (hexact 0 "url" "url").mp hlisted
  cases hptr
  cases hkey

end Sample

end LibWorkflow
