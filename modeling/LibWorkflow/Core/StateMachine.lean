import LibWorkflow.Core.Action

/-!
# State machines

The layout of a workflow: `core/state_machine.h`, with `init`, `addAction`, `addInput`, `expose`,
`unexpose` and `validate` of `core/state_machine.cpp`. `Constructed` are the machines these calls can
make; `Initialised` those on which `init` came first, as in the constructor of `Workflow`, where the
state machines of the library come from.
-/

namespace LibWorkflow

open Ordered

/-- `StateMachine`. -/
structure StateMachine (ω : Type) where
  actions : OrdMap ℤ (ActionPtr ω)
  outputs : OrdMap ℤ (List OutputBinding)
  inputsMap : OrdMap ℤ (OrdSet ℤ)
  exposedProperties : OrdMap ℤ (OrdMap String String)
  starters : List InputBinding

namespace StateMachine

variable {ω : Type}

/-- `StateMachine::StateMachine`. -/
def new : StateMachine ω := ⟨∅, ∅, ∅, ∅, []⟩

/-- `expose(action, key, alias)`. -/
def expose (m : StateMachine ω) (id : ℤ) (key aliasName : String) : StateMachine ω :=
  let aliases := ((m.exposedProperties.find? id).getD ∅).insert aliasName key
  { m with exposedProperties := m.exposedProperties.insert id aliases }

/-- `unexpose(action)`. -/
def unexpose (m : StateMachine ω) (id : ℤ) : StateMachine ω :=
  { m with exposedProperties := m.exposedProperties.erase id }

/-- `unexpose(action, alias)`. -/
def unexposeAlias (m : StateMachine ω) (id : ℤ) (aliasName : String) : StateMachine ω :=
  let aliases := ((m.exposedProperties.find? id).getD ∅).erase aliasName
  { m with exposedProperties := m.exposedProperties.insert id aliases }

/-- The wrapper `addAction` puts around the action of a reserved step. -/
def wrapperOf (id : ℤ) : Option Wrapper :=
  if id = Step.interrupt.id then some .interrupt
  else if id = Step.error.id then some .error
  else if id = Step.finish.id then some .finish
  else if id = Step.cleanup.id then some .cleanup
  else none

/-- One step of the rebuilding of `inputs_map`: the source of a binding among those of its target. -/
def addInputsMap (inputsMap : OrdMap ℤ (OrdSet ℤ)) (output : OutputBinding) : OrdMap ℤ (OrdSet ℤ) :=
  inputsMap.insert output.toActionId
    (((inputsMap.find? output.toActionId).getD ∅).insert output.fromActionId)

/-- The rebuilding of `inputs_map` from `outputs`. -/
def buildInputsMap (outputs : OrdMap ℤ (List OutputBinding)) : OrdMap ℤ (OrdSet ℤ) :=
  (outputs.entries.flatMap Prod.snd).foldl addInputsMap ∅

/-- `addAction`. A negative id that is not one of the wrapped steps is rejected. -/
def addAction (m : StateMachine ω) (id : ℤ) (action : Action ω) (bindings : List OutputBinding) :
    StateMachine ω :=
  if wrapperOf id = none ∧ id < 0 then m
  else
    let ptr : ActionPtr ω := ActionPtr.setActionId ⟨wrapperOf id, action⟩ id
    let outputs := m.outputs.insert id (bindings.map fun ob => { ob with fromActionId := id })
    let m := { m with
      actions := m.actions.insert id ptr
      outputs := outputs
      inputsMap := buildInputsMap outputs }
    ptr.action.properties.exposedKeys.foldl (fun m key => m.expose id key key) m

/-- `addInput`. -/
def addInput (m : StateMachine ω) (input : InputBinding) : StateMachine ω :=
  { m with starters := m.starters ++ [input] }

/-- `OutputBinding(from, output, to, input)`. -/
def bindingTo (source : ℤ) (output : String) (target : ℤ) (input : String) : OutputBinding :=
  ⟨source, output, target, input⟩

/-- `init`: the default layout. -/
def init (m : StateMachine ω) : StateMachine ω :=
  ((((m.addAction Step.initialisation.id (.unimplemented ω)
        [bindingTo Step.initialisation.id "" Step.finish.id ""]).addAction
      Step.error.id (.defaultNext ω) [bindingTo Step.error.id "" Step.cleanup.id ""]).addAction
      Step.finish.id (.defaultNext ω) [bindingTo Step.finish.id "" Step.cleanup.id ""]).addAction
      Step.cleanup.id (.defaultNext ω) [bindingTo Step.cleanup.id "" Step.die.id ""])

/-- `getExpectedOutput`. -/
def getExpectedOutput (m : StateMachine ω) : List String :=
  (m.outputs.entries.flatMap Prod.snd).filterMap fun output =>
    if output.toActionId = Step.finish.id then some output.toActionInput else none

def bindings (m : StateMachine ω) (id : ℤ) : List OutputBinding := (m.outputs.find? id).getD []

/-! ### `validate` -/

/-- `operator<<` of `InputBinding`. -/
def showInput (input : InputBinding) : String :=
  "[Input] \x7b , workflow_input: " ++ input.workflowInput ++ ", action_id: " ++ toString input.actionId ++
    ", input: " ++ input.actionInput ++ " \x7d"

/-- `operator<<` of `OutputBinding`. -/
def showOutput (output : OutputBinding) : String :=
  "[Output] \x7b from_action_id: " ++ toString output.fromActionId ++
    ", from_action_output: " ++ output.fromActionOutput ++
    ", to_action_id: " ++ toString output.toActionId ++
    ", to_action_input: " ++ output.toActionInput ++ " \x7d"

/-- What `validate` writes about a starter. -/
def validateStarter (m : StateMachine ω) (input : InputBinding) : String :=
  if m.actions.contains input.actionId then ""
  else showInput input ++ " is invalid, targeted action doesn't exist\n"

/-- What `validate` writes about a binding. -/
def validateOutput (m : StateMachine ω) (output : OutputBinding) : String :=
  match m.actions.find? output.fromActionId with
  | none => showOutput output ++ " is invalid, origin action doesn't exist\n"
  | some source =>
    if !m.actions.contains output.toActionId && output.toActionId ≠ Step.die.id then
      showOutput output ++ " is invalid, targeted action doesn't exist\n"
    else
      match source.expectOutput output.fromActionOutput with
      | some message => showOutput output ++ " " ++ message ++ "\n"
      | none =>
        if output.toActionId = Step.die.id ∨ output.toActionId = Step.finish.id then ""
        else
          match m.actions.find? output.toActionId with
          | none => ""
          | some target =>
            match target.expectInput output.toActionInput with
            | some message => showOutput output ++ " " ++ message ++ "\n"
            | none => ""

/-- The text `validate` reports, over the starters and then the bindings. -/
def validateText (m : StateMachine ω) : String :=
  (m.starters.map m.validateStarter ++ (m.outputs.entries.flatMap Prod.snd).map m.validateOutput).foldl
    (· ++ ·) ""

/-- `validate`: the key and message of the report it returns, if it is set. -/
def validate (m : StateMachine ω) : Option (String × String) :=
  if m.validateText.isEmpty then none else some ("workflow.structure.invalid", m.validateText)

/-! ### The machines that can be made -/

/-- What can be called on a state machine to lay it out. -/
inductive Extends (m : StateMachine ω) : StateMachine ω → Prop
  | refl : Extends m m
  | addAction {n : StateMachine ω} (h : Extends m n) (id : ℤ) (action : Action ω)
      (bindings : List OutputBinding) : Extends m (n.addAction id action bindings)
  | addInput {n : StateMachine ω} (h : Extends m n) (input : InputBinding) : Extends m (n.addInput input)
  | expose {n : StateMachine ω} (h : Extends m n) (id : ℤ) (key aliasName : String) :
      Extends m (n.expose id key aliasName)
  | unexpose {n : StateMachine ω} (h : Extends m n) (id : ℤ) : Extends m (n.unexpose id)
  | unexposeAlias {n : StateMachine ω} (h : Extends m n) (id : ℤ) (aliasName : String) :
      Extends m (n.unexposeAlias id aliasName)

def Constructed (m : StateMachine ω) : Prop := Extends new m

/-- Laid out after `init`. -/
def Initialised (m : StateMachine ω) : Prop := Extends new.init m

/-- Laid out after `init` with the default steps at the reserved ids: only ordinary ids are given to
`addAction`. -/
inductive Ordinary : StateMachine ω → Prop
  | init : Ordinary new.init
  | addAction {m : StateMachine ω} (h : Ordinary m) (id : ℤ) (hid : 0 ≤ id) (action : Action ω)
      (bindings : List OutputBinding) : Ordinary (m.addAction id action bindings)
  | addInput {m : StateMachine ω} (h : Ordinary m) (input : InputBinding) : Ordinary (m.addInput input)

end StateMachine

end LibWorkflow
