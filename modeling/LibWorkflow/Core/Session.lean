import LibWorkflow.Core.Request

/-!
# Sessions

`core/session.h`: what the state machine keeps about one request while it is executed. A session is
opened with its request (`Session.ofRequest`), as `Workflow::perform` does: the request and the last request
are then never null.
-/

namespace LibWorkflow

open Ordered

/-- `EExecutionStatus`. -/
inductive ExecutionStatus where
  | unplanned | pending | planned | skipped | waiting | async | done
  deriving DecidableEq

/-- Where the execution of the code is lost. -/
inductive Fault where
  /-- `status.at(id)` of an id that has no status throws. -/
  | statusUndefined (id : ℤ)
  /-- `actions[id]` of an id that is not registered inserts a null action, which the code dereferences
  there or where it meets it next. -/
  | nullAction (id : ℤ)

/-- `Session`. `requests` are the requests received before `lastRequest`. -/
structure Session where
  request : Request
  requests : List Request
  lastRequest : Request
  bypass : PropertySet
  actionBypasses : OrdMap ℤ PropertySet
  subqueries : OrdMap UUID Target
  pendings : OrdSet ℤ
  nexts : OrdSet ℤ
  status : OrdMap ℤ ExecutionStatus
  inputs : OrdMap ℤ (OrdMap String (Option Context))
  outputs : OrdMap ℤ (OrdMap String (Option Context))
  currentExecutionLevel : UInt32
  finished : Bool

namespace Session

/-- A new session, given its original request by a first `pushRequest`. -/
def ofRequest (request : Request) : Session :=
  { request := request
    requests := []
    lastRequest := request
    bypass := request.bypass
    actionBypasses := request.actionBypasses
    subqueries := ∅
    pendings := ∅
    nexts := ∅
    status := ∅
    inputs := ∅
    outputs := ∅
    currentExecutionLevel := 1
    finished := false }

/-- `pushRequest`, on a session that has its original request. -/
def pushRequest (s : Session) (request : Request) : Session :=
  { s with requests := s.requests ++ [s.lastRequest], lastRequest := request }

/-- `getLastRequest()->setErrorReport`. -/
def setLastErrorReport (s : Session) (report : Option ErrorReport) : Session :=
  { s with lastRequest := { s.lastRequest with report := report } }

/-- `getStatus`: `std::map::at` throws on an id without status. -/
def getStatus (s : Session) (id : ℤ) : Except Fault ExecutionStatus :=
  match s.status.find? id with
  | some status => .ok status
  | none => .error (.statusUndefined id)

def setStatus (s : Session) (id : ℤ) (status : ExecutionStatus) : Session :=
  { s with status := s.status.insert id status }

/-- One `setStatus` for each id of a list. -/
def setStatuses (s : Session) (ids : List ℤ) (status : ExecutionStatus) : Session :=
  { s with status := s.status.insertAll ids status }

/-- `getStatus().clear()`, `getNexts().clear()`, `getPendings().clear()`. -/
def clearSchedule (s : Session) : Session := { s with status := ∅, nexts := ∅, pendings := ∅ }

/-- The puts stored for an action: what iterating `getInputs()[id]` or `getOutputs()[id]` goes through. -/
def puts (m : OrdMap ℤ (OrdMap String (Option Context))) (id : ℤ) : OrdMap String (Option Context) :=
  (m.find? id).getD ∅

def setOutput (s : Session) (id : ℤ) (output : String) (ctx : Option Context) : Session :=
  { s with outputs := s.outputs.insert id ((puts s.outputs id).insert output ctx) }

def getOutput (s : Session) (id : ℤ) (output : String) : Option Context :=
  ((puts s.outputs id).find? output).join

def setInput (s : Session) (id : ℤ) (input : String) (ctx : Option Context) : Session :=
  { s with inputs := s.inputs.insert id ((puts s.inputs id).insert input ctx) }

def getInput (s : Session) (id : ℤ) (input : String) : Option Context :=
  ((puts s.inputs id).find? input).join

/-- Some context stored as an input of `id` is a `SkipCtx`. -/
def hasSkipInput (s : Session) (id : ℤ) : Bool :=
  (puts s.inputs id).entries.any (fun entry => entry.2.any Context.isSkip)

def upCurrentExecutionLevel (s : Session) : Session :=
  { s with currentExecutionLevel := s.currentExecutionLevel + 1 }

/-! ### Lookups after an update -/

theorem getStatus_eq_ok {s : Session} {id : ℤ} {status : ExecutionStatus} :
    s.getStatus id = .ok status ↔ s.status.find? id = some status := by
  unfold getStatus
  cases s.status.find? id <;> simp

theorem puts_insert (m : OrdMap ℤ (OrdMap String (Option Context))) (id j : ℤ) (name : String)
    (ctx : Option Context) :
    puts (m.insert id ((puts m id).insert name ctx)) j =
      if j = id then (puts m id).insert name ctx else puts m j := by
  unfold puts
  rw [OrdMap.find?_insert]
  split_ifs <;> rfl

theorem getInput_setInput (s : Session) (id j : ℤ) (name other : String) (ctx : Option Context) :
    (s.setInput id name ctx).getInput j other =
      if j = id ∧ other = name then ctx else s.getInput j other := by
  simp only [getInput, setInput, puts_insert]
  by_cases hj : j = id
  · subst hj
    simp only [if_true, true_and, OrdMap.find?_insert]
    split_ifs <;> rfl
  · simp only [hj, false_and, if_false]

theorem getOutput_setOutput (s : Session) (id j : ℤ) (name other : String) (ctx : Option Context) :
    (s.setOutput id name ctx).getOutput j other =
      if j = id ∧ other = name then ctx else s.getOutput j other := by
  simp only [getOutput, setOutput, puts_insert]
  by_cases hj : j = id
  · subst hj
    simp only [if_true, true_and, OrdMap.find?_insert]
    split_ifs <;> rfl
  · simp only [hj, false_and, if_false]

theorem hasSkipInput_iff {s : Session} {id : ℤ} :
    s.hasSkipInput id = true ↔ ∃ name ctx, s.getInput id name = some ctx ∧ ctx.isSkip = true := by
  simp only [hasSkipInput, List.any_eq_true, Option.any_eq_true, getInput, Option.join_eq_some_iff]
  constructor
  · rintro ⟨⟨name, value⟩, hmem, ctx, hctx, hskip⟩
    exact ⟨name, ctx, hctx ▸ OrdMap.find?_eq_some_iff.mpr hmem, hskip⟩
  · rintro ⟨name, ctx, hfind, hskip⟩
    exact ⟨(name, some ctx), OrdMap.find?_eq_some_iff.mp hfind, ctx, rfl, hskip⟩

end Session

end LibWorkflow
