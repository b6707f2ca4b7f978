import LibWorkflow.Codec.Properties
import LibWorkflow.Core.Action

/-!
# What an action gets back

`save` and `load` of `core/bindings.cpp` and `core/action.cpp`. Bindings come back. An action is made
anew by the factory and its properties are loaded over the defaults of its type, so they come back as far
as a property set does (`PropertySet.Survives`); those of a wrapped action are not saved at all, since a
wrapper saves a property set of its own.
-/

namespace LibWorkflow

open Ordered PropertyTree

variable {ω : Type} (p : Platform)

/-! ### Bindings -/

namespace InputBinding

/-- `InputBinding::save`. -/
def save (input : InputBinding) : Option PTree :=
  PTree.empty.putAll
    [("workflow_input", input.workflowInput), ("action_id", p.int32.write input.actionId),
      ("action_input", input.actionInput)]

/-- `InputBinding::load`, into a new binding. -/
def load (root : PTree) : InputBinding :=
  { workflowInput := (root.get? "workflow_input").getD ""
    actionId := ((root.get? "action_id").bind p.int32.read).getD p.garbage.int32
    actionInput := (root.get? "action_input").getD "" }

end InputBinding

namespace OutputBinding

/-- `OutputBinding::save`. -/
def save (output : OutputBinding) : Option PTree :=
  PTree.empty.putAll
    [("from_action_id", p.int32.write output.fromActionId), ("from_action_output", output.fromActionOutput),
      ("to_action_id", p.int32.write output.toActionId), ("to_action_input", output.toActionInput)]

/-- `OutputBinding::load`, into a new binding. -/
def load (root : PTree) : OutputBinding :=
  { fromActionId := ((root.get? "from_action_id").bind p.int32.read).getD p.garbage.int32
    fromActionOutput := (root.get? "from_action_output").getD ""
    toActionId := ((root.get? "to_action_id").bind p.int32.read).getD p.garbage.int32
    toActionInput := (root.get? "to_action_input").getD "" }

end OutputBinding

/-! ### Actions -/

/-- `PutDefinition::save`; its `load` does nothing. -/
def PutDefinition.save (put : PutDefinition) : Option PTree :=
  PTree.empty.putAll
    [("name", put.putName), ("description", put.description), ("type", put.type),
      ("mandatory", p.bool.write put.mandatory), ("ignoreEmpty", p.bool.write put.ignoreEmpty),
      ("allowSkip", p.bool.write put.allowSkip)]

namespace Action

/-- `Action::save`. The puts are stored for information: `load` leaves them. -/
def save (action : Action ω) : Option PTree := do
  let root ← PTree.empty.putAll [("name", action.name), ("action_id", p.int32.write action.actionId)]
  let pprop ← action.properties.save p
  let pinputs ← PTree.ofList (PutDefinition.save p) (action.inputs.entries.map Prod.snd)
  let poutputs ← PTree.ofList (PutDefinition.save p) (action.outputs.entries.map Prod.snd)
  root.addAll [("properties", pprop), ("inputs", pinputs), ("outputs", poutputs)]

/-- `Action::load`. -/
def load (action : Action ω) (root : PTree) : Option (Action ω) := do
  let properties ← (match root.getChild? "properties" with
    | some oprop => action.properties.load p oprop
    | none => some action.properties)
  return { action with
    name := (root.get? "name").getD action.name
    actionId := ((root.get? "action_id").bind p.int32.read).getD action.actionId
    properties := properties }

end Action

namespace ActionPtr

/-- The object behind the pointer by its own members. A wrapper is an action with the name of the one it
wraps; the constructor of `Action` leaves it without puts, and with a guarded property set. -/
def own (ptr : ActionPtr ω) : Action ω :=
  match ptr.wrapper with
  | none => ptr.action
  | some _ => { ptr.action with
    actionId := 0
    inputs := ∅
    outputs := ∅
    properties := { PropertySet.new with guarded := true } }

/-- `Action::save`, which saves the members themselves and is not overridden by the wrappers. -/
def save (ptr : ActionPtr ω) : Option PTree := ptr.own.save p

end ActionPtr

/-! ### What it is to come back -/

/-- The same class of object, with the same id, type and property values. -/
structure ActionPtr.Same (a b : ActionPtr ω) : Prop where
  wrapper : a.wrapper = b.wrapper
  name : a.action.name = b.action.name
  actionId : a.getActionId = b.getActionId
  values : a.action.properties.SameValues b.action.properties

/-- The property values of the action come back when they are loaded over those of a new instance of its
type. Those of a wrapped action are not saved, and have to be there already. -/
def ActionPtr.Survives (fresh : Action ω) (ptr : ActionPtr ω) : Prop :=
  if ptr.wrapper = none then ptr.action.properties.Survives p fresh.properties
  else fresh.properties.SameValues ptr.action.properties

variable {p}

/-! ### Trees of bindings -/

def InputBinding.tree (p : Platform) (input : InputBinding) : PTree :=
  .node "" [("workflow_input", .leaf input.workflowInput), ("action_id", .leaf (p.int32.write input.actionId)),
    ("action_input", .leaf input.actionInput)]

theorem InputBinding.save_eq (input : InputBinding) : input.save p = some (input.tree p) := by
  refine PTree.putAll_of_plain ?_ _ ?_
  · show ∀ k ∈ ["workflow_input", "action_id", "action_input"], Plain k
    decide
  · show ["workflow_input", "action_id", "action_input"].Nodup
    decide

theorem InputBinding.load_tree (input : InputBinding) : load p (input.tree p) = input := by
  simp (disch := decide) [load, tree, PTree.get?_of_plain, List.lookup_cons]

def OutputBinding.tree (p : Platform) (output : OutputBinding) : PTree :=
  .node "" [("from_action_id", .leaf (p.int32.write output.fromActionId)),
    ("from_action_output", .leaf output.fromActionOutput),
    ("to_action_id", .leaf (p.int32.write output.toActionId)), ("to_action_input", .leaf output.toActionInput)]

theorem OutputBinding.save_eq (output : OutputBinding) : output.save p = some (output.tree p) := by
  refine PTree.putAll_of_plain ?_ _ ?_
  · show ∀ k ∈ ["from_action_id", "from_action_output", "to_action_id", "to_action_input"], Plain k
    decide
  · show ["from_action_id", "from_action_output", "to_action_id", "to_action_input"].Nodup
    decide

theorem OutputBinding.load_tree (output : OutputBinding) : load p (output.tree p) = output := by
  simp (disch := decide) [load, tree, PTree.get?_of_plain, List.lookup_cons]

/-! ### Actions -/

/-- What `PutDefinition::save` writes. -/
def PutDefinition.tree (p : Platform) (put : PutDefinition) : PTree :=
  .node "" [("name", .leaf put.putName), ("description", .leaf put.description), ("type", .leaf put.type),
    ("mandatory", .leaf (p.bool.write put.mandatory)), ("ignoreEmpty", .leaf (p.bool.write put.ignoreEmpty)),
    ("allowSkip", .leaf (p.bool.write put.allowSkip))]

theorem PutDefinition.save_eq (put : PutDefinition) : put.save p = some (put.tree p) := by
  refine PTree.putAll_of_plain ?_ _ ?_
  · show ∀ k ∈ ["name", "description", "type", "mandatory", "ignoreEmpty", "allowSkip"], Plain k
    decide
  · show ["name", "description", "type", "mandatory", "ignoreEmpty", "allowSkip"].Nodup
    decide

namespace Action

/-- What `Action::save` writes, given what its properties are saved as. -/
def tree (p : Platform) (action : Action ω) (pprop : PTree) : PTree :=
  .node "" [("name", .leaf action.name), ("action_id", .leaf (p.int32.write action.actionId)),
    ("properties", pprop),
    ("inputs", .node "" ((action.inputs.entries.map Prod.snd).map fun put => ("", put.tree p))),
    ("outputs", .node "" ((action.outputs.entries.map Prod.snd).map fun put => ("", put.tree p)))]

theorem save_eq (action : Action ω) : action.save p = (action.properties.save p).map (action.tree p) := by
  have hput : PTree.empty.putAll [("name", action.name), ("action_id", p.int32.write action.actionId)] =
      some (.node "" [("name", .leaf action.name), ("action_id", .leaf (p.int32.write action.actionId))]) := by
    refine PTree.putAll_of_plain ?_ _ ?_
    · show ∀ k ∈ ["name", "action_id"], Plain k
      decide
    · show ["name", "action_id"].Nodup
      decide
  have hadd : ∀ pprop pinputs poutputs root : PTree,
      root.addAll [("properties", pprop), ("inputs", pinputs), ("outputs", poutputs)] =
        some (.node root.data
          (root.children ++ [("properties", pprop), ("inputs", pinputs), ("outputs", poutputs)])) := by
    intro pprop pinputs poutputs root
    refine PTree.addAll_of_plain ?_ _
    show ∀ k ∈ ["properties", "inputs", "outputs"], Plain k
    decide
  rw [save, hput]
  cases action.properties.save p with
  | none => rfl
  | some pprop =>
    simp only [Option.bind_eq_bind, Option.bind_some, PTree.ofList_of_save PutDefinition.save_eq, hadd]
    rfl

theorem get?_tree (action : Action ω) (pprop : PTree) : (action.tree p pprop).get? "name" = some action.name := by
  simp (disch := decide) [tree, PTree.get?_of_plain]

theorem load_tree (fresh action : Action ω) (pprop : PTree) :
    fresh.load p (action.tree p pprop) = (fresh.properties.load p pprop).map fun properties =>
      { fresh with name := action.name, actionId := action.actionId, properties := properties } := by
  have hname := action.get?_tree (p := p) pprop
  have hid : (action.tree p pprop).get? "action_id" = some (p.int32.write action.actionId) := by
    simp (disch := decide) [tree, PTree.get?_of_plain, List.lookup_cons]
  have hprop : (action.tree p pprop).getChild? "properties" = some pprop := by
    simp (disch := decide) [tree, PTree.getChild?_of_plain, PTree.child?, List.lookup_cons]
  simp only [load, hname, hid, hprop, Option.bind_some, Translator.read_write, Option.getD_some]
  cases fresh.properties.load p pprop <;> rfl

end Action

namespace ActionPtr

/-- A new instance of the type of the action becomes `act` by loading what is saved. -/
def Reloads (p : Platform) (fresh : Action ω) (ptr : ActionPtr ω) (act : Action ω) : Prop :=
  ∃ root, ptr.save p = some root ∧ fresh.load p root = some act

/-- A new instance of its type becomes `act`. -/
def Remade (p : Platform) (create : String → Option (Action ω)) (ptr : ActionPtr ω) (act : Action ω) : Prop :=
  ∃ fresh, create ptr.action.name = some fresh ∧ ptr.Reloads p fresh act

/-- It becomes `act`, with the property values it had. -/
def Returns (p : Platform) (create : String → Option (Action ω)) (ptr : ActionPtr ω) (act : Action ω) : Prop :=
  ptr.Remade p create act ∧ act.properties.SameValues ptr.action.properties

variable {fresh act : Action ω} {ptr : ActionPtr ω}

theorem own_name (ptr : ActionPtr ω) : ptr.own.name = ptr.action.name := by
  unfold own
  split <;> rfl

theorem reloads_iff : ptr.Reloads p fresh act ↔ ∃ pprop properties,
    ptr.own.properties.save p = some pprop ∧ fresh.properties.load p pprop = some properties ∧
      act = { fresh with name := ptr.action.name, actionId := ptr.own.actionId, properties := properties } := by
  unfold Reloads save
  simp only [Action.save_eq, Option.map_eq_some_iff]
  constructor
  · rintro ⟨root, ⟨pprop, hsave, rfl⟩, hload⟩
    rw [Action.load_tree, own_name] at hload
    obtain ⟨properties, hproperties, rfl⟩ := Option.map_eq_some_iff.mp hload
    exact ⟨pprop, properties, hsave, hproperties, rfl⟩
  · rintro ⟨pprop, properties, hsave, hproperties, rfl⟩
    refine ⟨_, ⟨pprop, hsave, rfl⟩, ?_⟩
    rw [Action.load_tree, own_name, hproperties, Option.map_some]

theorem own_of_wrapper_none (h : ptr.wrapper = none) : ptr.own = ptr.action := by
  rw [own, h]

theorem own_properties_of_wrapper (h : ptr.wrapper ≠ none) :
    ptr.own.properties = { PropertySet.new with guarded := true } := by
  unfold own
  split
  · next hnone => exact absurd hnone h
  · rfl

/-- Nothing is loaded of a wrapped action but its name. -/
theorem reloads_iff_of_wrapper (h : ptr.wrapper ≠ none) : ptr.Reloads p fresh act ↔
    act = { fresh with
      name := ptr.action.name
      actionId := ptr.own.actionId
      properties := { fresh.properties with guarded := true } } := by
  rw [reloads_iff, own_properties_of_wrapper h, PropertySet.save_guarded]
  constructor
  · rintro ⟨pprop, properties, hsave, hload, rfl⟩
    cases hsave
    cases PropertySet.load_guarded.symm.trans hload
    rfl
  · rintro rfl
    exact ⟨_, _, rfl, PropertySet.load_guarded, rfl⟩

theorem Survives.reloads (h : ptr.Survives p fresh) (hsorted : ptr.action.properties.Sorted) :
    ∃ act, ptr.Reloads p fresh act ∧ act.properties.SameValues ptr.action.properties := by
  by_cases hwrapper : ptr.wrapper = none
  · rw [Survives, if_pos hwrapper] at h
    obtain ⟨pprop, properties, hsave, hload, hsame⟩ := h.restored hsorted
    rw [← own_of_wrapper_none hwrapper] at hsave
    exact ⟨_, reloads_iff.mpr ⟨pprop, properties, hsave, hload, rfl⟩, hsame⟩
  · rw [Survives, if_neg hwrapper] at h
    exact ⟨_, (reloads_iff_of_wrapper hwrapper).mpr rfl, h.uints, h.doubles, h.bools, h.strings, h.customs⟩

theorem Remade.name_eq {create : String → Option (Action ω)} (h : ptr.Remade p create act) :
    act.name = ptr.action.name := by
  obtain ⟨fresh, -, hreloads⟩ := h
  obtain ⟨pprop, properties, -, -, rfl⟩ := reloads_iff.mp hreloads
  rfl

theorem survives_of_reloads (hreloads : ptr.Reloads p fresh act)
    (hsame : act.properties.SameValues ptr.action.properties) (hsorted : ptr.action.properties.Sorted)
    (hdefaults : ∀ key ∈ fresh.properties.keys, Clean key) : ptr.Survives p fresh := by
  by_cases hwrapper : ptr.wrapper = none
  · obtain ⟨pprop, properties, hsave, hload, rfl⟩ := reloads_iff.mp hreloads
    rw [Survives, if_pos hwrapper]
    rw [own_of_wrapper_none hwrapper] at hsave
    exact PropertySet.survives_of_sameValues hsorted hdefaults hsave hload hsame
  · cases (reloads_iff_of_wrapper hwrapper).mp hreloads
    rw [Survives, if_neg hwrapper]
    exact ⟨hsame.uints, hsame.doubles, hsame.bools, hsame.strings, hsame.customs⟩

end ActionPtr

end LibWorkflow
