import LibWorkflow.Core.Engine

/-!
# Workflows

`core/workflow.h`: the sessions of a workflow, and `Workflow::perform`, which opens them, hands their
requests to the state machine and is to close them. The mutex of a workflow is recursive: one thread is
in it at a time, and what that thread executes may call `perform` again, so the calls in progress form a
stack. Between two calls of the engine the innermost `perform` may be called again, for the same session
or for another; so may `actionAsyncFinished`, which goes past the workflow to its state machine.

A workflow is bound to its controller, as `Controller::addWorkflow` leaves it; the timer of a session
comes down to a further `perform` with an Interrupt.
-/

namespace LibWorkflow

open Ordered

/-- `StateMachine::finished`, which asks `Session::hasFinished`. -/
def StateMachine.finished (s : Session) : Bool := s.finished

/-- `RunningSession`, without its timer and `original`, the copy of the session's own request. -/
structure RunningSession where
  session : Session
  pendingRequests : List Request
  active : Bool

namespace RunningSession

/-- The entry `perform` makes for a request. The constructor leaves `active` uninitialised: `flag` is what
happens to be there. -/
def ofRequest (request : Request) (flag : Bool) : RunningSession := ⟨.ofRequest request, [], flag⟩

def shouldMakePending (rsession : RunningSession) : Bool := rsession.active

def addToPending (rsession : RunningSession) (request : Request) : RunningSession :=
  { rsession with pendingRequests := rsession.pendingRequests ++ [request] }

end RunningSession

/-- `Workflow`. Its constructor lays out the machine with `init`. -/
structure Workflow (ω : Type) where
  stateMachine : StateMachine ω
  initialised : stateMachine.Initialised
  sessions : OrdMap UUID RunningSession

namespace Workflow

variable {ω : Type}

def new (m : StateMachine ω) (hm : m.Initialised) : Workflow ω := ⟨m, hm, ∅⟩

def canExecuteRequest (w : Workflow ω) (request : Request) : Bool :=
  let count := w.sessions.contains request.getId
  let type := request.target.target
  let okay := type = .interrupt || type = .error || type = .reply || type = .status
  (!count && type = .defaultAction) || (count && okay) || (!count && type = .status)

/-- The reply of `errorReply` to a request that cannot be executed. -/
def errorReply (request : Request) : Request :=
  { request.createReply with
    report := some (.ofError request.target "unable.to.execute" "Can't execute request") }

/-- `sessions[request->getId()]`, made if it is not there. -/
def rsession (w : Workflow ω) (request : Request) (flag : Bool) : RunningSession :=
  (w.sessions.find? request.getId).getD (.ofRequest request flag)

def store (w : Workflow ω) (id : UUID) (rsession : RunningSession) : Workflow ω :=
  { w with sessions := w.sessions.insert id rsession }

def erase (w : Workflow ω) (id : UUID) : Workflow ω := { w with sessions := w.sessions.erase id }

end Workflow

/-- What happens to a workflow: what becomes of the requests it is given, and what its sessions do. -/
inductive Occurrence where
  | accepted (request : Request)
  /-- The request was refused with this reply. -/
  | refused (reply : Request)
  /-- The request was handed to `StateMachine::execute`. -/
  | handed (request : Request)
  | session (id : UUID) (event : Event)

/-- A call in progress on a session: of `perform`, or of `actionAsyncFinished`. `next` is the call the
engine has still to make. -/
structure Execution where
  id : UUID
  performing : Bool
  next : Option Call

/-- A workflow at work. `calls` are the calls in progress, the innermost first; after a `fault` there is
nothing more. -/
structure Working (ω : Type) where
  workflow : Workflow ω
  env : ω
  calls : List Execution
  fault : Option Fault
  history : List Occurrence

/-- What a workflow is given. -/
inductive Arrival where
  /-- A call of `perform`, with what the flag of a new entry would hold. -/
  | perform (request : Request) (flag : Bool)
  /-- A call of `actionAsyncFinished` with a session of the workflow. -/
  | asyncFinished (id : UUID) (result : Result)

namespace Working

variable {ω : Type} (c : Working ω)

/-- A function of the engine, called with the session of an entry. -/
def engage (id : UUID) (performing : Bool) (rsession : RunningSession) (rest : List Execution)
    (f : World ω → Except Fault (Onward ω)) : Working ω :=
  match f ⟨rsession.session, c.env, []⟩ with
  | .ok (w, next) =>
    { c with
      workflow := c.workflow.store id { rsession with session := w.session }
      env := w.env
      calls := ⟨id, performing, next⟩ :: rest
      history := c.history ++ w.trace.map (.session id) }
  | .error fault =>
    { c with
      workflow := c.workflow.store id rsession
      calls := ⟨id, performing, none⟩ :: rest
      fault := some fault }

def record (occurrences : List Occurrence) : Working ω := { c with history := c.history ++ occurrences }

/-- `Workflow::perform`, up to the return of `StateMachine::execute`. -/
def perform (request : Request) (flag : Bool) : Working ω :=
  if c.workflow.canExecuteRequest request then
    let rsession := c.workflow.rsession request flag
    if rsession.shouldMakePending then
      let workflow := c.workflow.store request.getId (rsession.addToPending request)
      { c with workflow := workflow }.record [.accepted request]
    else
      (c.record [.accepted request, .handed request]).engage request.getId true
        { rsession with active := true } c.calls (c.workflow.stateMachine.execute · request)
  else c.record [.refused (Workflow.errorReply request)]

/-- The end of a call, of which `perform` has its last part left. -/
def leave (execution : Execution) (rsession : RunningSession) (rest : List Execution) : Working ω :=
  if execution.performing then
    let workflow := c.workflow.store execution.id { rsession with active := false }
    { c with
      workflow := if StateMachine.finished rsession.session then workflow.erase execution.id else workflow
      calls := rest }
  else { c with calls := rest }

def proceed (execution : Execution) (rsession : RunningSession) (rest : List Execution) : Working ω :=
  match execution.next with
  | some call =>
    c.engage execution.id execution.performing rsession rest (c.workflow.stateMachine.makeCall · call)
  | none => c.leave execution rsession rest

/-- `actionAsyncFinished` with the session of an entry. -/
def asyncFinished (id : UUID) (rsession : RunningSession) (result : Result) : Working ω :=
  c.engage id false rsession c.calls (c.workflow.stateMachine.actionAsyncFinished · result)

end Working

namespace Workflow

variable {ω : Type}

def system (ω : Type) : Reactive.System (Working ω) Arrival where
  next c :=
    match c.fault, c.calls with
    | none, execution :: rest =>
      (c.workflow.sessions.find? execution.id).map (c.proceed execution · rest)
    | _, _ => none
  accept c arrival :=
    match c.fault, arrival with
    | none, .perform request flag => some (c.perform request flag)
    | none, .asyncFinished id result => (c.workflow.sessions.find? id).map (c.asyncFinished id · result)
    | some _, _ => none

def opened (m : StateMachine ω) (hm : m.Initialised) (env : ω) : Working ω := ⟨new m hm, env, [], none, []⟩

end Workflow

end LibWorkflow
