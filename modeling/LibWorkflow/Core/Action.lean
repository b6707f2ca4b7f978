import LibWorkflow.Core.Session

/-!
# Actions and their wrappers

`core/action.h` is an interface: the author of a workflow derives classes from `Action` and overrides
its virtual members. An action of the model is the record of these members. Each is given the object's
own `getActionId()`, the session, and an environment `ω` that stands for everything else the author's
code can see (its hidden state, other threads, the outside world), so that every behaviour is some
function over some `ω`. What a `perform` does to the session goes through the interface of `Action`:
it stores outputs with `setOutput`, edits the property sets of the session and its list of sub-queries,
and hands requests to the controller manager.

`core/action_wrappers.h`: the actions registered at the reserved steps are wrapped, and the wrapper
acts before them.
-/

namespace LibWorkflow

open Ordered

/-- `InputBinding`. -/
structure InputBinding where
  workflowInput : String
  actionId : ℤ
  actionInput : String
  deriving DecidableEq

/-- `OutputBinding`. -/
structure OutputBinding where
  fromActionId : ℤ
  fromActionOutput : String
  toActionId : ℤ
  toActionInput : String
  deriving DecidableEq

/-- `EType`. -/
inductive ResultType where
  | done | wait | error | finish | async
  deriving DecidableEq

/-- `Result`. -/
structure Result where
  actionId : ℤ
  type : ResultType
  error : Option ErrorReport

/-- `PutDefinition`, with the `check` of its `TypeChecker` and the type of what the checker generates. -/
structure PutDefinition where
  putName : String
  description : String
  type : String
  check : Context → Bool
  mandatory : Bool
  ignoreEmpty : Bool
  allowSkip : Bool

/-- What one `perform` or `replyReceived` returns and leaves behind. -/
structure Outcome (ω : Type) where
  result : Result
  /-- The `setOutput` calls, in order. -/
  outputs : List (String × Option Context)
  /-- The requests handed to the controller manager, in order. -/
  requests : List Request
  bypass : PropertySet
  actionBypasses : OrdMap ℤ PropertySet
  subqueries : OrdMap UUID Target
  env : ω

def Outcome.ofResult {ω : Type} (env : ω) (s : Session) (result : Result) : Outcome ω :=
  { result := result
    outputs := []
    requests := []
    bypass := s.bypass
    actionBypasses := s.actionBypasses
    subqueries := s.subqueries
    env := env }

/-- `Action`: its data, and its virtual members, which take the action's own id first. -/
structure Action (ω : Type) where
  name : String
  actionId : ℤ
  inputs : OrdMap String PutDefinition
  outputs : OrdMap String PutDefinition
  properties : PropertySet
  checkInputs : ℤ → ω → Session → Bool
  checkOutputs : ℤ → ω → Session → Bool
  canPerform : ℤ → ω → Session → Bool
  canHandleError : ℤ → ω → Session → Bool
  perform : ℤ → ω → Session → Outcome ω
  replyReceived : ℤ → ω → Session → Request → Outcome ω

namespace Action

/-- `Action::checkInputs`, over the declared inputs. -/
def checkDeclaredInputs (inputs : OrdMap String PutDefinition) (id : ℤ) (s : Session) : Bool :=
  inputs.entries.all fun entry =>
    match s.getInput id entry.2.putName with
    | none => !entry.2.mandatory
    | some ctx => entry.2.check ctx && !(entry.2.ignoreEmpty && ctx.isEmptyList)

/-- The loop of `Action::checkOutputs` over the declared outputs that are left. -/
def checkDeclaredOutputs (id : ℤ) (s : Session) : List (String × PutDefinition) → Bool
  | [] => true
  | (_, put) :: rest =>
    match s.getOutput id put.putName with
    | none => if put.mandatory then false else checkDeclaredOutputs id s rest
    | some ctx =>
      if put.check ctx then true
      else if ctx.isSkip && put.allowSkip then checkDeclaredOutputs id s rest
      else false

/-- An action with the members of the base class, but for what it declares and performs. -/
def ofPerform {ω : Type} (name : String) (inputs outputs : OrdMap String PutDefinition)
    (perform : ℤ → ω → Session → Outcome ω) : Action ω :=
  { name := name
    actionId := 0
    inputs := inputs
    outputs := outputs
    properties := { PropertySet.new with guarded := true }
    checkInputs := fun id _ s => checkDeclaredInputs inputs id s
    checkOutputs := fun id _ s => checkDeclaredOutputs id s outputs.entries
    canPerform := fun _ _ _ => true
    canHandleError := fun _ _ _ => false
    perform := perform
    replyReceived := fun id env s _ => .ofResult env s
      ⟨id, .error, some (.ofError s.request.target "action.reply.unimplemented"
        "Didn't expect a reply to this action.")⟩ }

/-- `Action("Action")`, which `init` registers at `Step::Initialisation`: `perform` is not
implemented. -/
def unimplemented (ω : Type) : Action ω :=
  ofPerform "Action" ∅ ∅ fun id env s => .ofResult env s
    ⟨id, .error, some (.ofError s.request.target "action.perform.unimplemented"
      "Can't execute this action as Perform function wasn't implemented.")⟩

/-- `prepareSyncRequest`, of the action `id`: the answer is to come back to this action of the session.
`fresh` is what `Request()` makes where there is no request. -/
def prepareSyncRequest (id : ℤ) (s : Session) (req : Option Request) (fresh : Request) : Request :=
  { req.getD fresh with
    reply := { s.request.target with
      executionLevel := s.currentExecutionLevel
      action := id
      target := .reply }
    requestId := s.request.requestId }

/-- The code `return executeSyncRequest(session, req)`. -/
def executeSyncRequest {ω : Type} (id : ℤ) (env : ω) (s : Session) (req : Option Request) (fresh : Request) :
    Outcome ω :=
  { Outcome.ofResult env s ⟨id, .wait, none⟩ with requests := [prepareSyncRequest id s req fresh] }

/-- `DefaultNextAction`. -/
def defaultNext (ω : Type) : Action ω :=
  ofPerform "Next" ∅ ∅ fun id env s => .ofResult env s ⟨id, .done, none⟩

end Action

/-- The wrapper classes of the reserved steps. -/
inductive Wrapper where
  | interrupt | error | finish | cleanup
  deriving DecidableEq

/-- An action as the state machine holds it: wrapped or not. The members of a wrapper are those of the
action it wraps, but for `getInputs`, `getOutputs`, `expectInput` and `expectOutput`, which it inherits
from `Action` and which look at put maps of its own that stay empty. -/
structure ActionPtr (ω : Type) where
  wrapper : Option Wrapper
  action : Action ω

namespace ActionPtr

variable {ω : Type} (ptr : ActionPtr ω)

def getActionId : ℤ := ptr.action.actionId

def setActionId (id : ℤ) : ActionPtr ω := { ptr with action := { ptr.action with actionId := id } }

def checkInputs (env : ω) (s : Session) : Bool := ptr.action.checkInputs ptr.getActionId env s

def checkOutputs (env : ω) (s : Session) : Bool := ptr.action.checkOutputs ptr.getActionId env s

def canPerform (env : ω) (s : Session) : Bool := ptr.action.canPerform ptr.getActionId env s

def canHandleError (env : ω) (s : Session) : Bool := ptr.action.canHandleError ptr.getActionId env s

def getInputs : OrdMap String PutDefinition := if ptr.wrapper.isNone then ptr.action.inputs else ∅

def getOutputs : OrdMap String PutDefinition := if ptr.wrapper.isNone then ptr.action.outputs else ∅

/-- `expectInput`: the message of the report it returns, if it is set. -/
def expectInput (key : String) : Option String :=
  if ptr.getInputs.contains key || key.isEmpty then none
  else some (key ++ " is invalid, targeted input doesn't exist")

/-- `expectOutput`: the message of the report it returns, if it is set. -/
def expectOutput (key : String) : Option String :=
  if ptr.getOutputs.contains key || key.isEmpty then none
  else some (key ++ " is invalid, targeted output doesn't exist")

end ActionPtr

/-- What is seen of a run from outside a session: members called on actions, requests handed to the
controller manager, and the end of the request. -/
inductive Event where
  /-- `perform` of the action, called in this session. -/
  | performed (id : ℤ) (session : Session)
  /-- `replyReceived` of the action. -/
  | replyReceived (id : ℤ) (request : Request)
  /-- A request an action sends. -/
  | sent (request : Request)
  /-- The reply of `FinishWrapper::wrapPerform`. -/
  | finishReply (reply : Request)
  /-- The reply of `ErrorWrapper::wrapPerform`. -/
  | errorReply (reply : Request)
  /-- `Controller::requestFinished`, called when the session executes `Step::Die`. -/
  | requestFinished (request : Request)

/-- A session being executed, its environment, and what happened so far, the oldest first. -/
structure World (ω : Type) where
  session : Session
  env : ω
  trace : List Event

namespace World

variable {ω : Type} (w : World ω)

def emit (event : Event) : World ω := { w with trace := w.trace ++ [event] }

/-- `Action::setOutput` in a row: an output that is neither declared nor the empty name is refused. -/
def setOutputs (id : ℤ) (declared : OrdMap String PutDefinition) (s : Session) :
    List (String × Option Context) → Session
  | [] => s
  | (name, ctx) :: rest =>
    if name.isEmpty || declared.contains name then setOutputs id declared (s.setOutput id name ctx) rest
    else setOutputs id declared s rest

/-- The world after the code of `action` has run. -/
def applyOutcome (action : Action ω) (outcome : Outcome ω) : World ω :=
  { session := { setOutputs action.actionId action.outputs w.session outcome.outputs with
      bypass := outcome.bypass
      actionBypasses := outcome.actionBypasses
      subqueries := outcome.subqueries }
    env := outcome.env
    trace := w.trace ++ outcome.requests.map Event.sent }

end World

namespace ActionPtr

variable {ω : Type} (ptr : ActionPtr ω)

/-- The reply of `FinishWrapper::wrapPerform`: the inputs of the action named by the bindings to
Finish. -/
def finishReply (expectedOutput : List String) (s : Session) : Request :=
  expectedOutput.foldl (fun reply output => reply.setContext output (s.getInput ptr.getActionId output))
    (Request.createReply s.request)

/-- The reply of `ErrorWrapper::wrapPerform`: the report of the last request, rethrown. -/
def errorReply (s : Session) : Request :=
  let reply := Request.createReply s.request
  { reply with
    report := some (.rethrow s.request.target s.lastRequest.report)
    target := { reply.target with target := .error } }

/-- `wrapPerform` of the wrapper. `InterruptWrapper::wrapPerform`, which the others call first, raises
the level and builds an Interrupt request for each sub-query; it drops them unsent. -/
def wrapPerform (expectedOutput : List String) (w : World ω) : World ω :=
  match ptr.wrapper with
  | none => w
  | some .interrupt | some .cleanup => { w with session := w.session.upCurrentExecutionLevel }
  | some .finish =>
    let w := { w with session := w.session.upCurrentExecutionLevel }
    w.emit (.finishReply (ptr.finishReply expectedOutput w.session))
  | some .error =>
    let w := { w with session := w.session.upCurrentExecutionLevel }
    w.emit (.errorReply (errorReply w.session))

/-- `perform`. -/
def perform (expectedOutput : List String) (w : World ω) : World ω × Result :=
  let w := ptr.wrapPerform expectedOutput (w.emit (.performed ptr.getActionId w.session))
  let outcome := ptr.action.perform ptr.getActionId w.env w.session
  (w.applyOutcome ptr.action outcome, outcome.result)

/-- `replyReceived`; the wrappers add nothing to it. -/
def replyReceived (w : World ω) (request : Request) : World ω × Result :=
  let w := w.emit (.replyReceived ptr.getActionId request)
  let outcome := ptr.action.replyReceived ptr.getActionId w.env w.session request
  (w.applyOutcome ptr.action outcome, outcome.result)

end ActionPtr

end LibWorkflow
