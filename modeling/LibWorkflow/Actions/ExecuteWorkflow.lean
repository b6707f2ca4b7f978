import LibWorkflow.Actions.Contract
import LibWorkflow.Core.PropertySet

/-!
# The action that executes a workflow

`actions/communication/execute_workflow.cpp`. The action calls another workflow, its target, which its
properties select by the names of a controller and of a workflow. `prepare` takes the inputs, the outputs and
the exposed properties of the target over into the action, which all sessions share; the name of the target
is kept in the property set the session has for the action. A map lookup that throws, and a null action that
is dereferenced, end the process: they are the errors of the computations here. `getBypass` makes the set of
an action that has none; an action without set and one with an empty set are the same here.
-/

namespace LibWorkflow

open Ordered

/-- `PutDefinition::PutDefinition`. It has no checker; what a check would do is not said. -/
def PutDefinition.empty : PutDefinition := ⟨"", "", "", fun _ => false, true, false, false⟩

def PutDefinition.strictest (ours put : PutDefinition) : PutDefinition :=
  { ours with
    mandatory := ours.mandatory || put.mandatory
    allowSkip := ours.allowSkip || put.allowSkip
    ignoreEmpty := ours.ignoreEmpty || put.ignoreEmpty }

/-- `getBypass(action_id)`. -/
def Session.getBypass (s : Session) (id : ℤ) : PropertySet := (s.actionBypasses.find? id).getD PropertySet.new

/-- `getEnders`. -/
def StateMachine.getEnders {ω : Type} (m : StateMachine ω) : List OutputBinding :=
  (m.outputs.entries.flatMap Prod.snd).filter (·.toActionId = Step.finish.id)

/-! ### Properties of an action -/

namespace Action

/-- The property set an action asks for a key: that of the session for the action, that of the session or its
own, the first that has the key under any type. Without a session it is its own. -/
def propertySource (session : Option Session) (id : ℤ) (own : PropertySet) (key : String) : Option PropertySet :=
  ((session.elim [] fun s => [s.getBypass id, s.bypass]) ++ [own]).find? (·.hasProperty key)

/-- `boolProperty`. -/
def boolProperty (session : Option Session) (id : ℤ) (own : PropertySet) (key : String) (default : Bool) : Bool :=
  (((propertySource session id own key).bind (·.getBoolProperty key default)).map Prod.fst).getD default

/-- `stringProperty`. -/
def stringProperty (session : Option Session) (id : ℤ) (own : PropertySet) (key : String) (default : String) :
    String :=
  (((propertySource session id own key).bind (·.getStringProperty key default)).map Prod.fst).getD default

/-- `customProperty`. -/
def customProperty (session : Option Session) (id : ℤ) (own : PropertySet) (key : String)
    (default : Option Context) : Option Context :=
  (((propertySource session id own key).bind (·.getCustomProperty key default)).map Prod.fst).getD default

end Action

/-- Where `prepare` fails. -/
inductive FailedLookup where
  /-- `actions.at(id)`. -/
  | action (id : ℤ)
  /-- `getInputs().at(name)`. -/
  | input (id : ℤ) (name : String)
  /-- `getOutputs().at(name)`. -/
  | output (id : ℤ) (name : String)
  /-- `actions[id]->properties()`, of an action that is not there. -/
  | properties (id : ℤ)
  /-- `getStateMachine().lock()->fingerprint(session)`, of an action that has no machine. -/
  | fingerprint

/-- The workflows of each controller, as the controller manager finds them by their names. -/
abbrev Controllers (ω : Type) := OrdMap String (OrdMap String (StateMachine ω))

/-- `ExecuteWorkflow`. -/
structure ExecuteWorkflow where
  actionId : ℤ
  inputs : OrdMap String PutDefinition
  outputs : OrdMap String PutDefinition
  properties : PropertySet
  prepared : Bool

namespace ExecuteWorkflow

variable {ω : Type}

/-- What both constructors do. -/
def ofSelection (actionId : ℤ) (dynamic : Bool) (controller workflow : String) : ExecuteWorkflow :=
  { actionId := actionId
    inputs := ∅
    outputs := ∅
    properties := (((((({ PropertySet.new with guarded := true } : PropertySet).defineBoolProperty "dynamic"
      dynamic ("If set to true, will refresh inputs/outputs expectations and property transfert upon " ++
        "checkInputs.") false).defineStringProperty "controller" controller
      "Targeted controller" false).defineStringProperty "workflow" workflow
      (if dynamic then "Targeted Workflow" else "Targeted workflow") false).defineCustomProperty "customization"
      (some (.propertySet PropertySet.new)) "Will be provided as general customization to the request"
      false).defineBoolProperty "sync" true " Tell whether the call should be synchroneous, or not."
      false).defineBoolProperty "allow_error" false
      "When set to true, if targeted sync workflow fails, this one won't fail." false
    prepared := false }

/-- `ExecuteWorkflow()`. -/
def new (actionId : ℤ) : ExecuteWorkflow := ofSelection actionId true "default" ""

/-- `ExecuteWorkflow(controller, workflow)`. -/
def ofTarget (actionId : ℤ) (controller workflow : String) : ExecuteWorkflow :=
  ofSelection actionId false controller workflow

def boolProperty (a : ExecuteWorkflow) (session : Option Session) (key : String) : Bool :=
  Action.boolProperty session a.actionId a.properties key false

def stringProperty (a : ExecuteWorkflow) (session : Option Session) (key : String) : String :=
  Action.stringProperty session a.actionId a.properties key ""

def customProperty (a : ExecuteWorkflow) (session : Option Session) (key : String) : Option Context :=
  Action.customProperty session a.actionId a.properties key none

/-- `customCastedProperty<PropertySet>`. -/
def propertySetProperty (a : ExecuteWorkflow) (session : Option Session) (key : String) : Option PropertySet :=
  match a.customProperty session key with
  | some (.propertySet set) => some set
  | _ => none

/-! ### `prepare` -/

/-- The loop of `prepare` over the starters, given the inputs defined so far: one turn. The definition is
looked for under the name the starter has outside, and made or merged under the name of the input inside. -/
def addStarter (m : StateMachine ω) (inputs : OrdMap String PutDefinition) (start : InputBinding) :
    Except FailedLookup (OrdMap String PutDefinition) :=
  match m.actions.find? start.actionId with
  | none => .error (.action start.actionId)
  | some act =>
    if !inputs.contains start.workflowInput && start.actionInput.isEmpty then .ok inputs
    else
      match act.getInputs.find? start.actionInput with
      | none => .error (.input start.actionId start.actionInput)
      | some input =>
        if !inputs.contains start.workflowInput then .ok (inputs.insert input.putName input)
        else
          let ours := (inputs.find? start.actionInput).getD PutDefinition.empty
          .ok (inputs.insert start.actionInput (ours.strictest input))

/-- The loop over the bindings to Finish: one turn. -/
def addEnder (m : StateMachine ω) (outputs : OrdMap String PutDefinition) (ender : OutputBinding) :
    Except FailedLookup (OrdMap String PutDefinition) :=
  match m.actions.find? ender.fromActionId with
  | none => .error (.action ender.fromActionId)
  | some act =>
    match act.getOutputs.find? ender.fromActionOutput with
    | none => .error (.output ender.fromActionId ender.fromActionOutput)
    | some output =>
      if !outputs.contains ender.fromActionOutput then .ok (outputs.insert output.putName output)
      else
        let ours := (outputs.find? ender.fromActionOutput).getD PutDefinition.empty
        .ok (outputs.insert ender.fromActionOutput (ours.strictest output))

/-- One exposed property: the first type that has the key is set, under the key the property itself has. -/
def expose (prop own : PropertySet) (property : String) : PropertySet :=
  if Property.counted prop.boolValues property then
    (lookupEntry property prop.boolValues).elim own (own.putProperty .bool)
  else if Property.counted prop.doubleValues property then
    (lookupEntry property prop.doubleValues).elim own (own.putProperty .double)
  else if Property.counted prop.stringValues property then
    (lookupEntry property prop.stringValues).elim own (own.putProperty .string)
  else if Property.counted prop.uintValues property then
    (lookupEntry property prop.uintValues).elim own (own.putProperty .uint)
  else if Property.counted prop.customValues property then
    (lookupEntry property prop.customValues).elim own (own.putProperty .custom)
  else own

/-- The loop over the exposed properties: the turn of one action. -/
def addExposed (m : StateMachine ω) (own : PropertySet) (kv : ℤ × OrdMap String String) :
    Except FailedLookup PropertySet :=
  match m.actions.find? kv.1 with
  | none => .error (.properties kv.1)
  | some act => .ok (kv.2.entries.foldl (fun own ka => expose act.action.properties own ka.2) own)

/-- The inputs and the outputs `prepare` declares for a target. -/
def interface (m : StateMachine ω) :
    Except FailedLookup (OrdMap String PutDefinition × OrdMap String PutDefinition) := do
  let inputs ← m.starters.foldlM (addStarter m) ∅
  let outputs ← m.getEnders.foldlM (addEnder m) ∅
  return (inputs, outputs)

/-- `prepare` for a target: what it does to the action. -/
def configure (m : StateMachine ω) (a : ExecuteWorkflow) : Except FailedLookup ExecuteWorkflow := do
  let (inputs, outputs) ← interface m
  let properties ← m.exposedProperties.entries.foldlM (addExposed m) a.properties
  return { a with inputs := inputs, outputs := outputs, properties := properties }

/-- The session's own property set names this target. -/
def remembers (a : ExecuteWorkflow) (s : Session) (controller workflow : String) : Bool :=
  (((s.getBypass a.actionId).getStringProperty "__local_workflow" "").map Prod.fst = some workflow : Bool) &&
    ((s.getBypass a.actionId).getStringProperty "__local_controller" "").map Prod.fst = some controller

/-- The session's own property set is to name the target. -/
def remember (a : ExecuteWorkflow) (s : Session) (controller workflow : String) : Session :=
  let set := ((s.getBypass a.actionId).setStringProperty "__local_workflow" workflow).1
  let set := (set.setStringProperty "__local_controller" controller).1
  { s with actionBypasses := s.actionBypasses.insert a.actionId set }

/-- `prepare` finds the action prepared. -/
def stillPrepared (a : ExecuteWorkflow) (session : Option Session) : Bool :=
  match session with
  | some s =>
    if a.prepared && a.boolProperty (some s) "dynamic" then
      a.remembers s (a.stringProperty (some s) "controller") (a.stringProperty (some s) "workflow")
    else a.prepared
  | none => a.prepared

def target? (controllers : Controllers ω) (a : ExecuteWorkflow) (session : Option Session) :
    Option (StateMachine ω) :=
  (controllers.find? (a.stringProperty session "controller")).bind (·.find? (a.stringProperty session "workflow"))

/-- `prepare` of an action that can take the fingerprint of the session: the action, the session, and what is
returned. -/
def prepare (controllers : Controllers ω) (a : ExecuteWorkflow) (session : Option Session) :
    Except FailedLookup (ExecuteWorkflow × Option Session × Bool) :=
  if a.stillPrepared session then .ok (a, session, true)
  else
    match a.target? controllers session with
    | none => .ok ({ a with prepared := false }, session, false)
    | some m => do
      let configured ← configure m { a with prepared := false }
      let session := session.map fun s =>
        a.remember s (a.stringProperty session "controller") (a.stringProperty session "workflow")
      return ({ configured with prepared := true }, session, true)

/-- `prepare` with what it logs where it does not find the action prepared: the fingerprint of the session, if
there is one, is that of the machine of the action. An action that is wrapped, at a reserved step, has none. -/
def prepareLogged (stateMachine : Option (StateMachine ω)) (controllers : Controllers ω) (a : ExecuteWorkflow)
    (session : Option Session) : Except FailedLookup (ExecuteWorkflow × Option Session × Bool) :=
  if !a.stillPrepared session && session.isSome && stateMachine.isNone then .error .fingerprint
  else a.prepare controllers session

/-! ### The members -/

def asAction (a : ExecuteWorkflow) : Action Unit :=
  { Action.ofPerform "ExecuteWorkflow" a.inputs a.outputs fun id env s => .ofResult env s ⟨id, .done, none⟩ with
    actionId := a.actionId }

/-- `checkInputs`: the action, the session, what is returned, and the report it was given. -/
def checkInputs (controllers : Controllers ω) (fingerprint : String) (a : ExecuteWorkflow) (s : Session)
    (er : ErrorReport) : Except FailedLookup (ExecuteWorkflow × Session × Bool × ErrorReport) :=
  if a.boolProperty (some s) "dynamic" || !a.prepared then do
    let (a, session, res) ← a.prepare controllers (some s)
    let s := session.getD s
    if res then
      let checked := Contract.checkInputs fingerprint a.asAction s er
      return (a, s, checked.1, checked.2)
    else
      return (a, s, false, er.setError "execute.unknown.workflow"
        "Can't execute this action, as requested workflow to execute is unknown")
  else
    let checked := Contract.checkInputs fingerprint a.asAction s er
    .ok (a, s, checked.1, checked.2)

/-- What `expectInput` and `expectOutput` do for the puts of one kind: the action, and the message of the report
they return, if it is set. -/
def expectPut (controllers : Controllers ω) (a : ExecuteWorkflow)
    (puts : ExecuteWorkflow → OrdMap String PutDefinition) (key invalid : String) :
    Except FailedLookup (ExecuteWorkflow × Option String) :=
  let prepared := if a.prepared then .ok (a, none, true) else a.prepare controllers none
  prepared >>= fun (a, _, res) =>
    if !res then .ok (a, some "Can't execute this action, as requested workflow to execute is unknown")
    else if a.boolProperty none "dynamic" || (puts a).contains key || key.isEmpty then .ok (a, none)
    else .ok (a, some (key ++ invalid))

def expectInput (controllers : Controllers ω) (a : ExecuteWorkflow) (key : String) :
    Except FailedLookup (ExecuteWorkflow × Option String) :=
  a.expectPut controllers inputs key " is invalid, targeted input doesn't exist"

def expectOutput (controllers : Controllers ω) (a : ExecuteWorkflow) (key : String) :
    Except FailedLookup (ExecuteWorkflow × Option String) :=
  a.expectPut controllers outputs key " is invalid, targeted output doesn't exist"

/-- A request that is sent, with the property set it was given in place of its own, which may be null. -/
structure Call where
  request : Request
  bypass : Option PropertySet

/-- `perform`: the result, and the requests that are sent. `fresh` is what `Request()` makes. -/
def perform (a : ExecuteWorkflow) (s : Session) (fresh : Request) : Result × List Call :=
  let select : Request → Request := fun req =>
    { req with
      target := { req.target with
        controller := a.stringProperty (some s) "controller"
        workflow := a.stringProperty (some s) "workflow"
        target := .defaultAction } }
  if a.boolProperty (some s) "sync" then
    let req := select (Action.prepareSyncRequest a.actionId s none fresh)
    let bypass := a.propertySetProperty (some s) "customization"
    (⟨a.actionId, .wait, none⟩, [⟨Action.prepareSyncRequest a.actionId s (some req) fresh, bypass⟩])
  else
    -- a request is made here too, and dropped
    (⟨a.actionId, .done, none⟩, [])

/-- `Action::setOutput` takes a context under this name. -/
def takesOutput (a : ExecuteWorkflow) (name : String) : Bool := name.isEmpty || a.outputs.contains name

/-- `replyReceived`: the result, and the `setOutput` calls. `generate` is that of the checker of a put. -/
def replyReceived (generate : PutDefinition → Context) (a : ExecuteWorkflow) (s : Session) (reply : Request) :
    Result × List (String × Option Context) :=
  if !a.boolProperty (some s) "sync" then (⟨a.actionId, .done, none⟩, [])
  else
    match reply.report with
    | none => (⟨a.actionId, .done, none⟩, reply.context.entries.map fun kv => (kv.1, some kv.2))
    | some report =>
      if report.isSet then
        if a.boolProperty (some s) "allow_error" then
          (⟨a.actionId, .done, none⟩, a.outputs.entries.map fun kv => (kv.1, some (generate kv.2)))
        else
          (⟨a.actionId, .error, some { ErrorReportOf.rethrow reply.target (some report) with
            original := some s.request }⟩, [])
      else (⟨a.actionId, .done, none⟩, reply.context.entries.map fun kv => (kv.1, some kv.2))

end ExecuteWorkflow

end LibWorkflow
