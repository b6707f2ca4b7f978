import LibWorkflow.Codec.Embedding
import LibWorkflow.Engine.Samples
import LibWorkflow.Service.Client

/-!
# The way of a request

`core/controller.cpp`, `service/client_manager.cpp` and `service/controller_manager.cpp`. The manager of
the controllers is where every request starts: it goes on to a client, or to a controller, which posts it
to one of its workflows; the controller "temporary" makes a workflow of the text a request carries. What a
`perform` does with a request is a list of dispatches. A reply among them is the next request of the
manager, which takes it at once. Workflows are held by pointers, whose type `α` is open.
-/

namespace LibWorkflow

open Ordered

/-- What is done with a request. -/
inductive Dispatch (α : Type) where
  /-- `Workflow::perform` is posted with the request. -/
  | posted (workflow : α) (request : Request)
  /-- The client has sent the request. -/
  | sent (client : UUID) (request : Request)
  /-- `ControllerManager::perform` is called with a reply to the request. -/
  | replied (reply : Request)

/-- What a `perform` takes from outside: the random identifier of the target of a new report, the random
uuid a prefix is made of, the pointer to a new workflow, and the report of a client that refuses. -/
structure Draws (α : Type) where
  identifier : UUID
  uuid : UUID
  workflow : α
  refusal : ErrorReport

/-- `Controller`, or a `TemporaryController`, with its workflows by name. -/
structure Controller (α : Type) where
  temporary : Bool
  workflows : OrdMap String α

/-- What `perform` of a controller leaves: the controller, its result, and what it did. -/
structure Performed (α : Type) where
  controller : Controller α
  able : Bool
  dispatches : List (Dispatch α)

/-- The controllers of the `ControllerManager` by name, and the clients of the `ClientManager` by id. -/
structure Managers (α : Type) where
  controllers : OrdMap String (Controller α)
  clients : OrdMap UUID Client

/-- `shortId`. -/
def shortId (p : Platform) (uid : UUID) (length : ℕ) : String := .ofList ((p.uuid.write uid).toList.take length)

variable {ω α : Type}

namespace Controller

/-- `Controller::perform`. -/
def perform (c : Controller α) (request : Request) : Performed α :=
  match c.workflows.find? request.target.workflow with
  | some workflow => ⟨c, true, [.posted workflow request]⟩
  | none => ⟨c, false, []⟩

/-- `addWorkflow`: a workflow that is not valid is not added. -/
def addWorkflow (c : Controller α) (workflow : ProvidedWorkflow ω) (pointer : α) : Controller α :=
  if workflow.stateMachine.validate.isSome then c
  else { c with workflows := c.workflows.insert workflow.name pointer }

def dropWorkflow (c : Controller α) (key : String) : Controller α := { c with workflows := c.workflows.erase key }

/-- `requestFinished`, which does nothing but in a `TemporaryController`. -/
def requestFinished (c : Controller α) (req : Request) : Controller α :=
  if c.temporary then c.dropWorkflow req.target.workflow else c

end Controller

namespace TemporaryController

def errorReply (p : Platform) (identifier : UUID) (key message : String) (req : Request) : Request :=
  { req.createReply with
    report := some { ErrorReport.new p identifier with errorKey := key, errorMessage := message } }

/-- The workflow that is made of the text of a request, under the name it gets. -/
def makeWorkflow (host : Host ω) (uuid : UUID) (workflowJson : String) : ProvidedWorkflow ω :=
  let workflow := (ProvidedWorkflow.new ω).strLoad host workflowJson
  { workflow with name := shortId host.platform uuid 3 ++ workflow.name }

def retarget (req : Request) (workflow : String) : Request :=
  { req with target := { req.target with workflow := workflow, controller := "temporary" } }

/-- `TemporaryController::perform`. After the reply for a text that is not valid it goes on as for any
other. -/
def perform (host : Host ω) (draws : Draws α) (c : Controller α) (req : Request) : Performed α :=
  if req.workflowJson.isEmpty then
    if req.target.target = .reply then c.perform req
    else ⟨c, false, [.replied (errorReply host.platform draws.identifier "temporary.empty.workflow"
      "Empty workflow provided, can't execute request." req)]⟩
  else
    let workflow := makeWorkflow host draws.uuid req.workflowJson
    let replies := workflow.stateMachine.validate.toList.map fun (key, message) =>
      .replied (errorReply host.platform draws.identifier key message req)
    let performed := (c.addWorkflow workflow draws.workflow).perform (retarget req workflow.name)
    { performed with dispatches := replies ++ performed.dispatches }

end TemporaryController

/-- The virtual `perform`. -/
def Controller.virtualPerform (host : Host ω) (draws : Draws α) (c : Controller α) (req : Request) : Performed α :=
  if c.temporary then TemporaryController.perform host draws c req else c.perform req

/-- `ClientManager::perform`: the clients, the result, and what is done. -/
def ClientManager.perform (clients : OrdMap UUID Client) (refusal : ErrorReport) (request : Request) :
    OrdMap UUID Client × Bool × List (Dispatch α) :=
  let id := request.target.clientId
  match clients.find? id with
  | some client =>
    match client.sendRequest request with
    | some client => (clients.insert id client, true, [.sent id request])
    | none =>
      let rep := request.createReply
      if rep.target.target ≠ .noReply then
        (clients, false,
          [.replied { rep with target := { rep.target with target := .error }, report := some refusal }])
      else (clients, false, [])
  | none => (clients, false, [])

namespace ControllerManager

/-- The name under which the controller for a request without client is looked up. -/
def controllerName (s : Managers α) (req : Request) : String :=
  if ¬req.workflowJson.isEmpty then "temporary"
  else if s.controllers.contains req.target.controller then req.target.controller
  else "default"

/-- `ControllerManager::perform`; none where it calls a controller that is not there. -/
def perform (host : Host ω) (draws : Draws α) (s : Managers α) (req : Request) :
    Option (Managers α × List (Dispatch α)) :=
  if req.target.target = .noReply then some (s, [])
  else if req.target.clientId ≠ 0 then
    let (clients, _, dispatches) := ClientManager.perform s.clients draws.refusal req
    some ({ s with clients := clients }, dispatches)
  else
    let name := controllerName s req
    (s.controllers.find? name).map fun c =>
      let performed := c.virtualPerform host draws req
      ({ s with controllers := s.controllers.insert name performed.controller }, performed.dispatches)

end ControllerManager

/-! ### What each of them does -/

theorem Controller.perform_of_find? {c : Controller α} {request : Request} {workflow : α}
    (h : c.workflows.find? request.target.workflow = some workflow) :
    c.perform request = ⟨c, true, [.posted workflow request]⟩ := by
  rw [perform, h]

theorem Controller.perform_of_absent {c : Controller α} {request : Request}
    (h : c.workflows.find? request.target.workflow = none) : c.perform request = ⟨c, false, []⟩ := by
  rw [perform, h]

namespace TemporaryController

variable {host : Host ω} {draws : Draws α} {c : Controller α} {req : Request}

theorem perform_of_reply (hjson : req.workflowJson.isEmpty = true) (hkind : req.target.target = .reply) :
    perform host draws c req = c.perform req := by
  rw [perform, if_pos hjson, if_pos hkind]

theorem perform_of_empty (hjson : req.workflowJson.isEmpty = true) (hkind : req.target.target ≠ .reply) :
    perform host draws c req = ⟨c, false, [.replied (errorReply host.platform draws.identifier
      "temporary.empty.workflow" "Empty workflow provided, can't execute request." req)]⟩ := by
  rw [perform, if_pos hjson, if_neg hkind]

theorem perform_of_valid {workflow : ProvidedWorkflow ω} (hjson : req.workflowJson.isEmpty = false)
    (hworkflow : makeWorkflow host draws.uuid req.workflowJson = workflow)
    (hvalid : workflow.stateMachine.validate = none) :
    perform host draws c req = ⟨{ c with workflows := c.workflows.insert workflow.name draws.workflow }, true,
      [.posted draws.workflow (retarget req workflow.name)]⟩ := by
  have hfind : (c.workflows.insert workflow.name draws.workflow).find?
      (retarget req workflow.name).target.workflow = some draws.workflow := OrdMap.find?_insert_self _ _ _
  simp only [perform, hjson, Bool.false_eq_true, if_false, hworkflow, hvalid, Option.toList_none, List.map_nil,
    List.nil_append, Controller.addWorkflow, Option.isSome_none]
  rw [Controller.perform_of_find? hfind]

/-- A workflow that is not valid is not added, and its request looks for one of that name. -/
theorem perform_of_invalid {workflow : ProvidedWorkflow ω} {key message : String}
    (hjson : req.workflowJson.isEmpty = false)
    (hworkflow : makeWorkflow host draws.uuid req.workflowJson = workflow)
    (hinvalid : workflow.stateMachine.validate = some (key, message)) :
    perform host draws c req =
      let performed := c.perform (retarget req workflow.name)
      { performed with
        dispatches :=
          .replied (errorReply host.platform draws.identifier key message req) :: performed.dispatches } := by
  simp only [perform, hjson, Bool.false_eq_true, if_false, hworkflow, hinvalid, Option.toList_some, List.map_cons,
    List.map_nil, List.singleton_append, Controller.addWorkflow, Option.isSome_some, if_true]

end TemporaryController

namespace ClientManager

variable {clients : OrdMap UUID Client} {refusal : ErrorReport} {request : Request}

theorem perform_of_unknown (h : clients.find? request.target.clientId = none) :
    perform (α := α) clients refusal request = (clients, false, []) := by
  simp only [perform, h]

theorem perform_of_sent {client client' : Client} (h : clients.find? request.target.clientId = some client)
    (hsend : client.sendRequest request = some client') : perform (α := α) clients refusal request =
      (clients.insert request.target.clientId client', true, [.sent request.target.clientId request]) := by
  simp only [perform, h, hsend]

def refusedReply (refusal : ErrorReport) (request : Request) : Request :=
  { request.createReply with target := { request.reply with target := .error }, report := some refusal }

theorem perform_of_refused {client : Client} (h : clients.find? request.target.clientId = some client)
    (hsend : client.sendRequest request = none) : perform (α := α) clients refusal request =
      (clients, false,
        if request.reply.target = .noReply then [] else [.replied (refusedReply refusal request)]) := by
  have hkind : request.createReply.target = request.reply := rfl
  simp only [perform, h, hsend, hkind, ne_eq, ite_not]
  split_ifs <;> rfl

end ClientManager

namespace ControllerManager

variable {host : Host ω} {draws : Draws α} {s : Managers α} {req : Request}

theorem perform_of_noReply (hkind : req.target.target = .noReply) : perform host draws s req = some (s, []) := by
  rw [perform, if_pos hkind]

theorem perform_of_client (hkind : req.target.target ≠ .noReply) (hclient : req.target.clientId ≠ 0) :
    perform host draws s req =
      let performed := ClientManager.perform s.clients draws.refusal req
      some ({ s with clients := performed.1 }, performed.2.2) := by
  rw [perform, if_neg hkind, if_pos hclient]

theorem perform_of_controller (hkind : req.target.target ≠ .noReply) (hclient : req.target.clientId = 0) :
    perform host draws s req = (s.controllers.find? (controllerName s req)).map fun c =>
      let performed := c.virtualPerform host draws req
      ({ s with controllers := s.controllers.insert (controllerName s req) performed.controller },
        performed.dispatches) := by
  rw [perform, if_neg hkind, if_neg (not_not.mpr hclient)]

end ControllerManager

namespace Sample

def host : Host Unit := ⟨platform, registry, fun _ => none⟩

def draws : Draws ℕ := ⟨3, 123456, 0, .ofError (target .noReply (-1) 0) "client.cant.send" ""⟩

def managers (workflows : OrdMap String ℕ) : Managers ℕ :=
  ⟨((∅ : OrdMap String (Controller ℕ)).insert "default" ⟨false, workflows⟩).insert "temporary" ⟨true, ∅⟩, ∅⟩

end Sample

end LibWorkflow
