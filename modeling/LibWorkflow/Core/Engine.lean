import LibWorkflow.Lib.Reactive
import LibWorkflow.Core.StateMachine

/-!
# Execution

The functions of `core/state_machine.cpp` that run a session. `executeAction` and `actionExecuted` call
each other, and every call they make is the last thing they do; a function of the model therefore
returns the call to go on with, and `system` makes one call after another. A run of the code that never
returns is a run of `system` that never settles. Where the code throws, or looks up an action that is
not there, the model ends in a `Fault`: the lookups `actions[id]->logAction()` of the log lines count,
since the default log level evaluates them.
-/

namespace LibWorkflow

open Ordered

/-- A call still to be made. -/
inductive Call where
  | executeAction (id : ℤ)
  | actionExecuted (result : Result)

/-- What a function of the engine leaves: the world, and the call it ends with, if it makes one. -/
abbrev Onward (ω : Type) := World ω × Option Call

namespace Session

def removeFromNext (s : Session) (id : ℤ) : Session := { s with nexts := s.nexts.erase id }

def removeFromPending (s : Session) (id : ℤ) : Session := { s with pendings := s.pendings.erase id }

end Session

namespace StateMachine

variable {ω : Type} (m : StateMachine ω)

/-- `actions[id]`. -/
def actionAt (id : ℤ) : Except Fault (ActionPtr ω) :=
  match m.actions.find? id with
  | some ptr => .ok ptr
  | none => .error (.nullAction id)

/-! ### Scheduling -/

/-- The loop of `canExecuteAction` over the predecessors of an action. -/
def allDone (s : Session) : List ℤ → Except Fault Bool
  | [] => .ok true
  | input :: rest => do
    if (← s.getStatus input) = .done then allDone s rest
    else
      let _ ← m.actionAt input
      return false

def canExecuteAction (env : ω) (s : Session) (ptr : ActionPtr ω) : Except Fault Bool :=
  if ptr.checkInputs env s && ptr.canPerform env s then
    match m.inputsMap.find? ptr.getActionId with
    | some inputs => m.allDone s inputs.elems
    | none => .ok true
  else .ok false

def canPendAction (env : ω) (s : Session) (ptr : ActionPtr ω) : Bool := ptr.checkInputs env s

def addToNext (s : Session) (id : ℤ) : Except Fault Session := do
  let s := { s with nexts := s.nexts.insert id }.setStatus id .planned
  if id ≠ Step.die.id then
    let _ ← m.actionAt id
  return s

def addToPending (s : Session) (id : ℤ) : Except Fault Session := do
  let s := { s with pendings := s.pendings.insert id }.setStatus id .pending
  let _ ← m.actionAt id
  return s

/-- The part of `bindResults` after the input is set: a target with a `SkipCtx` among its inputs is
skipped, another is planned, made pending or left unplanned. -/
def scheduleTarget (env : ω) (s : Session) (id : ℤ) (ptr : ActionPtr ω) : Except Fault Session := do
  if s.hasSkipInput id then
    return ((s.removeFromNext id).removeFromPending id).setStatus id .skipped
  else if ← m.canExecuteAction env s ptr then
    m.addToNext (s.removeFromPending id) id
  else if canPendAction env s ptr then
    m.addToPending (s.removeFromNext id) id
  else
    return ((s.removeFromNext id).removeFromPending id).setStatus id .unplanned

/-- The body of the loop of `bindResults`. -/
def bindResult (env : ω) (id : ℤ) (s : Session) (binding : OutputBinding) : Except Fault Session :=
  match m.actions.find? binding.toActionId with
  | some ptr => do
    let _ ← m.actionAt id
    let s := s.setInput binding.toActionId binding.toActionInput (s.getOutput id binding.fromActionOutput)
    m.scheduleTarget env s binding.toActionId ptr
  | none => if binding.toActionId = Step.die.id then m.addToNext s binding.toActionId else .ok s

def bindResults (env : ω) (s : Session) (id : ℤ) : Except Fault Session :=
  (m.bindings id).foldlM (m.bindResult env id) s

/-- Finish, Cleanup and Die: the ids `getNext` and `getNextPending` put off. -/
def isLast (id : ℤ) : Bool := id = Step.finish.id || id = Step.cleanup.id || id = Step.die.id

/-- `getNextPending`; -1 where nothing is pending. -/
def getNextPending (s : Session) : ℤ :=
  match s.pendings.elems with
  | [] => -1
  | [candidate] => candidate
  | candidate :: second :: _ => if isLast candidate then second else candidate

/-- `tryPromotePending`: the session after the promotion, if there was one. -/
def tryPromotePending (s : Session) : Except Fault (Option Session) :=
  let pending := getNextPending s
  if pending ≠ -1 then do
    let _ ← m.actionAt pending
    return some (← m.addToNext (s.removeFromPending pending) pending)
  else .ok none

/-- `getNext` with a bound on its recursion: each call to itself follows the promotion of a pending
action. -/
def getNextWithin : ℕ → Session → Except Fault (ℤ × Session)
  | 0, s => .ok (-1, s)
  | bound + 1, s => do
    match s.nexts.elems with
    | [] =>
      match ← m.tryPromotePending s with
      | some s => getNextWithin bound s
      | none => return (-1, s)
    | [candidate] =>
      if isLast candidate then
        match ← m.tryPromotePending s with
        | some s => getNextWithin bound s
        | none => return (candidate, s)
      else return (candidate, s)
    | candidate :: second :: _ => return (if isLast candidate then second else candidate, s)

/-- `getNext`. -/
def getNext (s : Session) : Except Fault (ℤ × Session) :=
  m.getNextWithin (s.pendings.elems.length + 1) s

/-- The loop of `canExecuteFinish` over the predecessors of Finish. -/
def anyDone (s : Session) : List ℤ → Except Fault Bool
  | [] => .ok false
  | input :: rest => do if (← s.getStatus input) = .done then return true else anyDone s rest

def canExecuteFinish (s : Session) : Except Fault Bool :=
  if s.nexts.elems.isEmpty && s.pendings.elems.isEmpty && s.subqueries.isEmpty then
    match m.inputsMap.find? Step.finish.id with
    | some inputs => anyDone s inputs.elems
    | none => .ok false
  else .ok false

/-! ### Execution of one action -/

/-- The status of every action set to unplanned, and nothing planned or pending. -/
def resetSchedule (s : Session) : Session := s.clearSchedule.setStatuses m.actions.keys .unplanned

/-- `executeAction(session, getNext(session))`, a last call. -/
def executeNext (w : World ω) : Except Fault (Onward ω) := do
  let (next, s) ← m.getNext w.session
  return ({ w with session := s }, some (.executeAction next))

/-- `next != -1 and canExecuteAction(session, actions[next], er)`. -/
def canExecuteNext (env : ω) (s : Session) (next : ℤ) : Except Fault Bool :=
  if next ≠ -1 then do m.canExecuteAction env s (← m.actionAt next) else .ok false

/-- The branch of `executeAction` for -1, no action: Finish if one of its predecessors is done, else
Error. -/
def executeNone (w : World ω) : Except Fault (Onward ω) := do
  let (next, s) ← m.getNext w.session
  if ← m.canExecuteNext w.env s next then
    return ({ w with session := s }, some (.executeAction next))
  else if ← m.canExecuteFinish s then
    m.executeNext { w with session := ← m.addToNext s Step.finish.id }
  else
    let s ← m.addToNext s Step.error.id
    m.executeNext { w with session := s.setLastErrorReport (some (.ofError s.request.target
      "statemachine.unexpected.noend" "No end of workflow available ... aborting")) }

/-- Interrupt, Error and Cleanup: the steps that leave the normal flow. -/
def leavesFlow (id : ℤ) : Bool := id = Step.interrupt.id || id = Step.error.id || id = Step.cleanup.id

/-- What `executeAction` does to the session before it performs the action. -/
def beginAction (s : Session) (id : ℤ) : Session :=
  let s := (s.removeFromNext id).removeFromPending id
  if leavesFlow id then (m.resetSchedule s).setStatus id .planned else s

/-- `executeAction`. -/
def executeAction (w : World ω) (id : ℤ) : Except Fault (Onward ω) :=
  if id = Step.die.id then .ok (w.emit (.requestFinished w.session.request), none)
  else if id = -1 then m.executeNone w
  else
    let w := { w with session := m.beginAction w.session id }
    match m.actions.find? id with
    | some ptr =>
      let (w, result) := ptr.perform m.getExpectedOutput w
      .ok (w, some (.actionExecuted result))
    | none => .ok (w, none)

/-- `actionExecuted`. The `default` of its `switch` is for values that are no `EType`. -/
def actionExecuted (w : World ω) (result : Result) : Except Fault (Onward ω) := do
  let ptr ← m.actionAt result.actionId
  if result.type = .done && !ptr.checkOutputs w.env w.session then
    let report := .ofError w.session.request.target "action.contract.output"
      "Action failed it's outputs contract. Aborting"
    return ({ w with session := w.session.setLastErrorReport (some report) },
      some (.executeAction Step.error.id))
  match result.type with
  | .done =>
    let s ← m.bindResults w.env (w.session.setStatus result.actionId .done) result.actionId
    m.executeNext { w with session := s }
  | .async => return ({ w with session := w.session.setStatus result.actionId .async }, none)
  | .finish =>
    let s ← m.bindResults w.env (w.session.setStatus result.actionId .done) result.actionId
    return ({ w with session := s }, some (.executeAction Step.finish.id))
  | .wait => return ({ w with session := w.session.setStatus result.actionId .waiting }, none)
  | .error =>
    let s := w.session.setLastErrorReport result.error
    return ({ w with session := s.setStatus result.actionId .done }, some (.executeAction Step.error.id))

/-! ### Messages -/

/-- The first loop of `firstCall`: the contexts of the request that the starters name. -/
def setStarterInputs (s : Session) (starters : List InputBinding) : Session :=
  starters.foldl (fun s input =>
    if input.workflowInput.isEmpty || input.actionInput.isEmpty then s
    else s.setInput input.actionId input.actionInput (s.request.getContext input.workflowInput)) s

/-- The second loop of `firstCall`; false where it aborts. -/
def scheduleStarters (env : ω) (s : Session) : List InputBinding → Except Fault (Bool × Session)
  | [] => .ok (true, s)
  | input :: rest =>
    match m.actions.find? input.actionId with
    | none => .ok (false, s)
    | some ptr => do
      if ← m.canExecuteAction env s ptr then
        scheduleStarters env (← m.addToNext s input.actionId) rest
      else if canPendAction env s ptr then
        scheduleStarters env (← m.addToPending s input.actionId) rest
      else scheduleStarters env s rest

def firstCall (w : World ω) : Except Fault (Onward ω) := do
  let s := setStarterInputs (w.session.setStatuses m.actions.keys .unplanned) m.starters
  let (complete, s) ← m.scheduleStarters w.env s m.starters
  if complete then m.executeNext { w with session := s } else return ({ w with session := s }, none)

/-- What `interruptReceived` and, for an error nobody catches, `errorReceived` do. -/
def receiveStep (w : World ω) (step : Step) : Except Fault (Onward ω) := do
  m.executeNext { w with session := ← m.addToNext (m.resetSchedule w.session) step.id }

def interruptReceived (w : World ω) : Except Fault (Onward ω) := m.receiveStep w .interrupt

def errorReceived (w : World ω) (request : Request) : Except Fault (Onward ω) :=
  match m.actions.find? request.target.action with
  | some ptr => do
    if (← w.session.getStatus request.target.action) = .waiting
        && ptr.canHandleError w.env w.session then
      let (w, result) := ptr.replyReceived w request
      return (w, some (.actionExecuted result))
    else m.receiveStep w .error
  | none => m.receiveStep w .error

/-- `statusReceived`: the result of the action is dropped. -/
def statusReceived (w : World ω) : Except Fault (Onward ω) :=
  match m.actions.find? Step.status.id with
  | some ptr => .ok ((ptr.perform m.getExpectedOutput w).1, none)
  | none => .ok (w, none)

def replyReceived (w : World ω) (request : Request) : Except Fault (Onward ω) :=
  match m.actions.find? request.target.action with
  | some ptr => do
    if (← w.session.getStatus request.target.action) = .waiting then
      let (w, result) := ptr.replyReceived w request
      return (w, some (.actionExecuted result))
    else return (w, none)
  | none => .ok (w, none)

/-- `execute`. -/
def execute (w : World ω) (request : Request) : Except Fault (Onward ω) :=
  let w := { w with session := w.session.pushRequest request }
  if w.session.status.isEmpty then m.firstCall w
  else if request.target.target = .error then m.errorReceived w request
  else if request.target.target = .interrupt then m.interruptReceived w
  else if request.target.target = .status then m.statusReceived w
  else if request.target.executionLevel ≠ 0 ∧
      request.target.executionLevel ≠ w.session.currentExecutionLevel then .ok (w, none)
  else if request.target.target = .reply then m.replyReceived w request
  else .ok (w, none)

/-- `actionAsyncFinished`. -/
def actionAsyncFinished (w : World ω) (result : Result) : Except Fault (Onward ω) := m.actionExecuted w result

end StateMachine

/-! ### Runs of one session -/

/-- What a session receives: a request through `execute`, or the completion of an asynchronous action
through `actionAsyncFinished`. -/
inductive Message where
  | request (request : Request)
  | asyncFinished (result : Result)

/-- Where the execution of a session stands. -/
inductive Config (ω : Type) where
  | running (call : Call) (w : World ω)
  | returned (w : World ω)
  | crashed (fault : Fault) (w : World ω)

namespace Config

variable {ω : Type}

/-- The world as it is, or as it was when the code crashed. -/
def world : Config ω → World ω
  | running _ w => w
  | returned w => w
  | crashed _ w => w

/-- Make the call that is left, if there is one. -/
def after : Onward ω → Config ω
  | (w, some call) => running call w
  | (w, none) => returned w

/-- Go on from what a function called in `w` leaves. -/
def ofStep (w : World ω) : Except Fault (Onward ω) → Config ω
  | .ok out => after out
  | .error fault => crashed fault w

end Config

namespace StateMachine

variable {ω : Type} (m : StateMachine ω)

def makeCall (w : World ω) : Call → Except Fault (Onward ω)
  | .executeAction id => m.executeAction w id
  | .actionExecuted result => m.actionExecuted w result

def receive (w : World ω) : Message → Except Fault (Onward ω)
  | .request request => m.execute w request
  | .asyncFinished result => m.actionAsyncFinished w result

/-- The executions of a session: calls while one is to be made, a message when the last has returned. -/
def system : Reactive.System (Config ω) Message where
  next
    | .running call w => some (.ofStep w (m.makeCall w call))
    | _ => none
  accept
    | .returned w, message => some (.ofStep w (m.receive w message))
    | _, _ => none

def opened (request : Request) (env : ω) : Config ω := .returned ⟨Session.ofRequest request, env, []⟩

end StateMachine

end LibWorkflow
