import LibWorkflow.Messages.Answers
import LibWorkflow.Service.Hosting

/-!
# Workflows that call each other

All that a server runs: clients hand requests in, the controller manager routes them to workflows and to clients,
and the sessions of the workflows send requests of their own and wait for the answers. Requests are routed,
performed and answered in any order, by any number of threads. An answer carries nothing but an address; where
the actions send their requests as `Action` has it, an answer still comes to no action and to no client but one
that asked, and it has the id of the request (`answers_come_home`). The controllers have their workflows from
the start; a request that brings a workflow of its own is a matter of `Hosting`.
-/

namespace LibWorkflow

open Ordered

/-! ### Calls -/

/-- Where the answer to a request of the action `id` is to go. -/
def Session.address (s : Session) (id : ℤ) : Target :=
  { s.request.target with
    executionLevel := s.currentExecutionLevel
    action := id
    target := .reply }

theorem Action.reply_prepareSyncRequest (id : ℤ) (s : Session) (req : Option Request) (fresh : Request) :
    (prepareSyncRequest id s req fresh).reply = s.address id := rfl

/-- The action `id` sends the request as `Action` has it: with `executeSyncRequest`, so that the answer comes back
to it, or with `executeAsyncRequest`, and expects none. If it is an answer, it answers the request of the session. -/
structure SentBy (id : ℤ) (s : Session) (r : Request) : Prop where
  plain : r.workflowJson.isEmpty = true
  back : r.reply.target = .reply → r.reply = s.address id
  answer : r.target.target = .reply → r.target = s.request.reply ∧ r.requestId = s.request.requestId

def StateMachine.Asking {ω : Type} (m : StateMachine ω) : Prop :=
  ∀ id ptr, m.actions.find? id = some ptr → ∀ env s,
    (∀ r ∈ (ptr.action.perform id env s).requests, SentBy id s r) ∧
      ∀ p, ∀ r ∈ (ptr.action.replyReceived id env s p).requests, SentBy id s r

namespace StateMachine

variable {ω : Type} {m : StateMachine ω}

theorem Asking.addAction (h : m.Asking) (id : ℤ) {action : Action ω}
    (hperform : ∀ id env s, ∀ r ∈ (action.perform id env s).requests, SentBy id s r)
    (hreply : ∀ id env s p, ∀ r ∈ (action.replyReceived id env s p).requests, SentBy id s r)
    (bindings : List OutputBinding) : (m.addAction id action bindings).Asking :=
  forall_addAction h (fun env s => ⟨hperform id env s, hreply id env s⟩) bindings

theorem asking_init : (new : StateMachine ω).init.Asking := by
  have hnew : (new : StateMachine ω).Asking := fun _ _ h => nomatch h
  have hsilent : ∀ {m : StateMachine ω}, m.Asking → ∀ id {action : Action ω},
      (∀ id env s, (action.perform id env s).requests = []) →
      (∀ id env s p, (action.replyReceived id env s p).requests = []) → ∀ bindings,
      (m.addAction id action bindings).Asking := by
    intro m h id action hperform hreply bindings
    refine h.addAction id (fun id env s r hr => ?_) (fun id env s p r hr => ?_) bindings
    · rw [hperform] at hr
      cases hr
    · rw [hreply] at hr
      cases hr
  exact hsilent (hsilent (hsilent (hsilent hnew _ (fun _ _ _ => rfl) (fun _ _ _ _ => rfl) _) _
    (fun _ _ _ => rfl) (fun _ _ _ _ => rfl) _) _ (fun _ _ _ => rfl) (fun _ _ _ _ => rfl) _) _
    (fun _ _ _ => rfl) (fun _ _ _ _ => rfl) _

end StateMachine

def Occurrence.routed? : Occurrence → Option Request
  | .refused reply => some reply
  | .session _ (.sent request) => some request
  | .session _ (.finishReply reply) => some reply
  | .session _ (.errorReply reply) => some reply
  | _ => none

def Working.inEnv {ω : Type} (c : Working ω) (env : ω) : Working ω := { c with env := env }

/-! ### The network -/

/-- The managers, the workflows by their pointers, the requests the controller manager has still to route, and the
calls of `Workflow::perform` that were posted. `pushed` are the requests the clients have handed in, `delivered`
those they were sent. -/
structure Network (ω : Type) where
  managers : Managers ℕ
  workflows : ℕ → Working ω
  inFlight : List Request
  posted : List (ℕ × Request)
  pushed : List Request
  delivered : List Request

namespace Network

/-- What happens next. -/
inductive Input (ω : Type) where
  /-- `ControllerManager::perform`. -/
  | route (index : ℕ) (draws : Draws ℕ)
  /-- A thread makes one of the posted calls of `Workflow::perform`. -/
  | execute (index : ℕ) (flag : Bool) (env : ω)
  /-- A workflow goes on with its innermost call. -/
  | proceed (pointer : ℕ) (env : ω)
  | asyncFinished (pointer : ℕ) (id : UUID) (result : Result) (env : ω)
  /-- `Workflow::requestTimedOut`. -/
  | timedOut (pointer : ℕ) (id identifier : UUID) (flag : Bool) (env : ω)
  /-- `Client::receiveNewRequest`. -/
  | receive (client : UUID) (req : Request)
  /-- `Client::setStatus`. -/
  | setStatus (client : UUID) (status : ClientStatus) (force : Bool) (fresh : UUID → Target)

variable {ω : Type} (x : Network ω)

/-- What becomes of a dispatch. -/
def dispatch (x : Network ω) : Dispatch ℕ → Network ω
  | .posted workflow request => { x with posted := x.posted ++ [(workflow, request)] }
  | .sent _ request => { x with delivered := x.delivered ++ [request] }
  | .replied reply => { x with inFlight := x.inFlight ++ [reply] }

def route (host : Host ω) (draws : Draws ℕ) (request : Request) : Option (Network ω) :=
  (ControllerManager.perform host draws x.managers request).map fun performed =>
    performed.2.foldl dispatch { x with managers := performed.1 }

/-- A workflow does something; the requests it sends are handed to the controller manager. -/
def work (pointer : ℕ) (label : Option Arrival) (env : ω) : Option (Network ω) :=
  ((Workflow.system ω).step ((x.workflows pointer).inEnv env) label).map fun working =>
    { x with
      workflows := Function.update x.workflows pointer working
      inFlight := x.inFlight ++
        (working.history.drop (x.workflows pointer).history.length).filterMap Occurrence.routed? }

/-- A client has changed, and hands requests to the controller manager. -/
def hand (client : UUID) (c : Client) (requests : List Request) : Network ω :=
  { x with
    managers := { x.managers with clients := x.managers.clients.insert client c }
    inFlight := x.inFlight ++ requests }

def system (host : Host ω) : Reactive.System (Network ω) (Input ω) where
  next _ := none
  accept x
    | .route index draws => do
      let request ← x.inFlight[index]?
      { x with inFlight := x.inFlight.eraseIdx index }.route host draws request
    | .execute index flag env => do
      let (pointer, request) ← x.posted[index]?
      { x with posted := x.posted.eraseIdx index }.work pointer (some (.perform request flag)) env
    | .proceed pointer env => x.work pointer none env
    | .asyncFinished pointer id result env => x.work pointer (some (.asyncFinished id result)) env
    | .timedOut pointer id identifier flag env => do
      let request ← (x.workflows pointer).workflow.requestTimedOut host.platform identifier id
      x.work pointer (some (.perform request flag)) env
    | .receive client req => do
      let c ← x.managers.clients.find? client
      let (c, pushed) ← c.receiveNewRequest req
      return { x.hand client c [pushed] with pushed := x.pushed ++ [pushed] }
    | .setStatus client status force fresh => do
      let c ← x.managers.clients.find? client
      let (c, interrupts) := c.setStatus status force fresh
      return x.hand client c interrupts

/-- A client hands in no workflow, and answers nothing but what was sent to one. -/
def Honest (x : Network ω) (label : Option (Input ω)) : Prop :=
  ∀ client req, label = some (.receive client req) →
    req.workflowJson.isEmpty = true ∧ (req.target.target = .reply →
      ∃ p ∈ x.delivered, req.target = p.reply ∧ req.requestId = p.requestId)

def opened (managers : Managers ℕ) (machines : ℕ → StateMachine ω) (hm : ∀ k, (machines k).Initialised) (env : ω) :
    Network ω :=
  ⟨managers, fun k => Workflow.opened (machines k) (hm k) env, [], [], [], []⟩

end Network

/-! ### What a session sends -/

/-- The message answers the request: it goes where the request says, or is made an Error, with its id. -/
structure Answers (request reply : Request) : Prop where
  target : reply.target.target = .reply → reply.target = request.reply
  swapped : reply.reply = request.target
  requestId : reply.requestId = request.requestId
  plain : reply.workflowJson.isEmpty = true

theorem answers_createReply (request : Request) : Answers request request.createReply :=
  ⟨fun _ => rfl, rfl, rfl, rfl⟩

theorem answers_errorReply (request : Request) : Answers request (Workflow.errorReply request) :=
  ⟨fun _ => rfl, rfl, rfl, rfl⟩

theorem Answers.setContext {request reply : Request} (h : Answers request reply) (key : String)
    (ctx : Option Context) : Answers request (reply.setContext key ctx) := by
  cases ctx with
  | none => exact h
  | some ctx => exact ⟨h.target, h.swapped, h.requestId, h.plain⟩

/-- What is seen of a session `s` in one step that begins with what it received: its answers answer its request,
and its actions send requests as they do. -/
inductive Emits {ω : Type} (m : StateMachine ω) (s : Session) (received : Option Message) : Event → Prop
  | performed (id : ℤ) (session : Session) : Emits m s received (.performed id session)
  | replyReceived {p : Request} (h : received = some (.request p)) :
      Emits m s received (.replyReceived p.target.action p)
  | sent {id : ℤ} {ptr : ActionPtr ω} {env : ω} {s' : Session} {r : Request} (hptr : m.actions.find? id = some ptr)
      (hrequest : s'.request = s.request) (hr : r ∈ (ptr.action.perform id env s').requests ∨
        ∃ p, r ∈ (ptr.action.replyReceived id env s' p).requests) : Emits m s received (.sent r)
  | finishReply {reply : Request} (h : Answers s.request reply) : Emits m s received (.finishReply reply)
  | errorReply {reply : Request} (h : Answers s.request reply) : Emits m s received (.errorReply reply)
  | requestFinished (request : Request) : Emits m s received (.requestFinished request)

namespace ActionPtr

variable {ω : Type} {ptr : ActionPtr ω}

theorem answers_finishReply (ptr : ActionPtr ω) (expectedOutput : List String) (s : Session) :
    Answers s.request (ptr.finishReply expectedOutput s) := by
  have hfold : ∀ (names : List String) (reply : Request), Answers s.request reply → Answers s.request
      (names.foldl (fun reply output => reply.setContext output (s.getInput ptr.getActionId output)) reply) := by
    intro names
    induction names with
    | nil => exact fun _ h => h
    | cons name names ih => exact fun reply h => ih _ (h.setContext name _)
  exact hfold _ _ (answers_createReply s.request)

theorem answers_errorReply (s : Session) : Answers s.request (errorReply s) where
  target h := nomatch h
  swapped := rfl
  requestId := rfl
  plain := rfl

theorem emits_of_perform {m : StateMachine ω} {id : ℤ} (hptr : m.actions.find? id = some ptr)
    (hown : ptr.getActionId = id) {s : Session} {expectedOutput : List String} {w : World ω}
    (hrequest : w.session.request = s.request) (received : Option Message) :
    ∃ events, (ptr.perform expectedOutput w).1.trace = w.trace ++ events ∧ ∀ e ∈ events, Emits m s received e := by
  have hwrapped := ptr.wrapPerform_session expectedOutput (w.emit (.performed ptr.getActionId w.session))
  refine ⟨.performed ptr.getActionId w.session :: (ptr.wrapReplies expectedOutput w.session ++
    (ptr.action.perform id w.env (ptr.wrapped w.session)).requests.map .sent), ?_, ?_⟩
  · unfold perform World.applyOutcome
    dsimp only
    rw [hwrapped, wrapPerform_eq, hown]
    simp [World.emit]
  · intro e he
    rcases List.mem_cons.mp he with rfl | he
    · exact .performed ..
    rcases List.mem_append.mp he with he | he
    · unfold wrapReplies at he
      split at he
      · rw [List.mem_singleton.mp he]
        exact .finishReply (hrequest ▸ ptr.answers_finishReply expectedOutput w.session)
      · rw [List.mem_singleton.mp he]
        exact .errorReply (hrequest ▸ answers_errorReply w.session)
      · cases he
    · obtain ⟨r, hr, rfl⟩ := List.mem_map.mp he
      exact .sent hptr ((ptr.wrapped_request _).trans hrequest) (.inl hr)

theorem emits_of_replyReceived {m : StateMachine ω} {p : Request} (hptr : m.actions.find? p.target.action = some ptr)
    (hown : ptr.getActionId = p.target.action) {s : Session} {w : World ω}
    (hrequest : w.session.request = s.request) :
    ∃ events, (ptr.replyReceived w p).1.trace = w.trace ++ events ∧
      ∀ e ∈ events, Emits m s (some (.request p)) e := by
  refine ⟨.replyReceived p.target.action p ::
    (ptr.action.replyReceived p.target.action w.env w.session p).requests.map .sent, ?_, ?_⟩
  · unfold replyReceived World.applyOutcome
    rw [hown]
    simp [World.emit]
  · intro e he
    rcases List.mem_cons.mp he with rfl | he
    · exact .replyReceived rfl
    · obtain ⟨r, hr, rfl⟩ := List.mem_map.mp he
      exact .sent hptr hrequest (.inr ⟨p, hr⟩)

end ActionPtr

namespace StateMachine

variable {ω : Type} {m : StateMachine ω} {env : ω} {s s' : Session} {events : List Event}

theorem Works.emits (hm : m.Laid) {received : Option Message} (h : m.Works env s received s' events) :
    ∀ e ∈ events, Emits m s received e := by
  have hsame : ∀ {trace : List Event}, trace = [] → ∀ e ∈ trace, Emits m s received e := by
    rintro _ rfl e he
    cases he
  cases h with
  | nothing => exact hsame rfl
  | @call call out h =>
    cases call with
    | executeAction id =>
      cases executeAction_cases h with
      | die =>
        intro e he
        rw [List.mem_singleton.mp he]
        exact .requestFinished _
      | nothing h => exact hsame (executeNone_trace h)
      | @action _ ptr _ _ hptr w' result hperform =>
        obtain ⟨events, htrace, hemits⟩ := ActionPtr.emits_of_perform hptr (hm.own hptr)
          (w := ⟨m.beginAction s id, env, []⟩) (sameHeader_beginAction s id).request none
        rw [hperform] at htrace
        rw [htrace]
        exact hemits
      | absent => exact hsame rfl
    | actionExecuted result =>
      obtain ⟨ptr, -, hconsumed⟩ := actionExecuted_cases h
      cases hconsumed <;> exact hsame rfl
  | @message message out h =>
    cases receive_cases hm h with
    | firstCall _ h =>
      rcases firstCall_cases h with ⟨_, _, -, ⟨-, _, _, -, rfl⟩ | ⟨-, rfl⟩⟩ <;> exact hsame rfl
    | @answered p ptr w' result _ _ hptr _ hreply =>
      obtain ⟨events, htrace, hemits⟩ := ActionPtr.emits_of_replyReceived hptr (hm.own hptr) (s := s)
        (w := ⟨s.pushRequest p, env, []⟩) rfl
      rw [hreply] at htrace
      rw [htrace]
      exact hemits
    | reset => exact hsame rfl
    | ignored => exact hsame rfl
    | finished h =>
      obtain ⟨ptr, -, hconsumed⟩ := actionExecuted_cases h
      cases hconsumed <;> exact hsame rfl

end StateMachine

/-! ### Where a request is routed -/

def Managers.host? {α : Type} (s : Managers α) (t : Target) : Option α :=
  if t.clientId ≠ 0 then none
  else
    (s.controllers.find? (if s.controllers.contains t.controller then t.controller else "default")).bind
      (·.workflows.find? t.workflow)

/-- What the controller manager does with a request that brings no workflow. -/
inductive Routes {α : Type} (s : Managers α) (r : Request) : Managers α → List (Dispatch α) → Prop
  | dropped : Routes s r s []
  | posted {pointer : α} (h : s.host? r.target = some pointer) : Routes s r s [.posted pointer r]
  | sent {client client' : Client} (hclient : r.target.clientId ≠ 0)
      (hfind : s.clients.find? r.target.clientId = some client) (hid : client'.clientId = client.clientId) :
      Routes s r { s with clients := s.clients.insert r.target.clientId client' } [.sent r.target.clientId r]
  | replied {reply : Request} (h : Answers r reply) : Routes s r s [.replied reply]

theorem Client.clientId_of_sendRequest {c c' : Client} {req : Request} (h : c.sendRequest req = some c') :
    c'.clientId = c.clientId := by
  unfold sendRequest at h
  split_ifs at h <;> cases h <;> rfl

theorem routes_of_perform {ω α : Type} {host : Host ω} {draws : Draws α} {s s' : Managers α} {r : Request}
    {dispatches : List (Dispatch α)} (hplain : r.workflowJson.isEmpty = true)
    (h : ControllerManager.perform host draws s r = some (s', dispatches)) : Routes s r s' dispatches := by
  by_cases hkind : r.target.target = .noReply
  · rw [ControllerManager.perform_of_noReply hkind] at h
    cases h
    exact .dropped
  by_cases hclient : r.target.clientId = 0
  · rw [ControllerManager.perform_of_controller hkind hclient] at h
    obtain ⟨c, hfind, h⟩ := Option.map_eq_some_iff.mp h
    have hname : ControllerManager.controllerName s r =
        if s.controllers.contains r.target.controller then r.target.controller else "default" := by
      unfold ControllerManager.controllerName
      rw [if_neg (not_not.mpr hplain)]
    rw [hname] at hfind h
    generalize hsame : (if s.controllers.contains r.target.controller then r.target.controller else "default") = name
      at hfind h
    have hposted : Routes s r { s with controllers := s.controllers.insert name (c.perform r).controller }
        (c.perform r).dispatches := by
      cases hworkflow : c.workflows.find? r.target.workflow with
      | none =>
        rw [Controller.perform_of_absent hworkflow, OrdMap.insert_eq_self_iff.mpr hfind]
        exact .dropped
      | some pointer =>
        rw [Controller.perform_of_find? hworkflow, OrdMap.insert_eq_self_iff.mpr hfind]
        refine .posted ?_
        unfold Managers.host?
        rw [if_neg (not_not.mpr hclient), hsame, hfind]
        exact hworkflow
    -- without a text the temporary controller takes a Reply as `Controller::perform` does,
    -- and refuses everything else
    unfold Controller.virtualPerform at h
    split_ifs at h
    · by_cases hreply : r.target.target = .reply
      · rw [TemporaryController.perform_of_reply hplain hreply] at h
        cases h
        exact hposted
      · rw [TemporaryController.perform_of_empty hplain hreply] at h
        dsimp only at h
        rw [OrdMap.insert_eq_self_iff.mpr hfind] at h
        cases h
        exact .replied ⟨fun _ => rfl, rfl, rfl, rfl⟩
    · cases h
      exact hposted
  · rw [ControllerManager.perform_of_client hkind hclient] at h
    cases hfind : s.clients.find? r.target.clientId with
    | none =>
      rw [ClientManager.perform_of_unknown hfind] at h
      cases h
      exact .dropped
    | some client =>
      cases hsend : client.sendRequest r with
      | some client' =>
        rw [ClientManager.perform_of_sent hfind hsend] at h
        cases h
        exact .sent hclient hfind (Client.clientId_of_sendRequest hsend)
      | none =>
        rw [ClientManager.perform_of_refused hfind hsend] at h
        split_ifs at h <;> cases h
        · exact .dropped
        · exact .replied ⟨fun h => (nomatch h), rfl, rfl, rfl⟩

/-! ### What a workflow sends -/

/-- The session `y` is there with this request, or it is opened by it. -/
inductive Serves {ω : Type} (c : Working ω) (label : Option Arrival) (y : UUID) (request : Request) : Prop
  | entry {rsession : RunningSession} (hfind : c.workflow.sessions.find? y = some rsession)
      (hrequest : rsession.session.request = request)
  | opens {flag : Bool} (hlabel : label = some (.perform request flag)) (hid : request.getId = y)
      (hkind : request.target.target = .defaultAction ∨ request.target.target = .status)

namespace Workflow

variable {ω : Type} {c c' : Working ω} {label : Option Arrival} {y : UUID}

/-- What a transition shows of a session that is there after it. -/
theorem exists_emits (hc : Retained c) (h : (system ω).Trans c label c') {rsession' : RunningSession}
    (hafter : c'.workflow.sessions.find? y = some rsession') :
    ∃ s events, c'.events y = c.events y ++ events ∧
      (∀ e ∈ events, Emits c.workflow.stateMachine s (label.map Arrival.message) e) ∧
      rsession'.session.request = s.request ∧ Serves c label y s.request := by
  have hlaid := c.workflow.initialised.laid
  cases hbefore : c.workflow.sessions.find? y with
  | some rsession =>
    obtain ⟨rs, events, hfind, hevents, hworks⟩ := exists_works h hbefore (hc.live y rsession hbefore)
    cases hafter.symm.trans hfind
    exact ⟨rsession.session, events, hevents, hworks.emits hlaid, (hworks.lasts hlaid).1, .entry hbefore rfl⟩
  | none =>
    obtain ⟨request, flag, rfl, rfl, hcan, rfl⟩ := exists_opening h hbefore hafter
    obtain ⟨rs, events, hfind, hevents, hworks⟩ := perform_works hcan flag
    cases hafter.symm.trans hfind
    rw [rsession_of_absent hbefore] at hworks
    refine ⟨_, events, hevents, hworks.emits hlaid, (hworks.lasts hlaid).1, .opens rfl rfl ?_⟩
    have habsent : c.workflow.sessions.contains request.getId = false := OrdMap.contains_eq_false_iff.mpr hbefore
    unfold canExecuteRequest at hcan
    simp only [habsent, Bool.not_false, Bool.true_and, Bool.false_and, Bool.or_false, Bool.or_eq_true,
      decide_eq_true_eq] at hcan
    exact hcan

/-- What a transition records: events of sessions, and error replies to the request it refuses. -/
theorem exists_history (h : Moved c label c') : ∃ l, c'.history = c.history ++ l ∧
    ∀ reply, .refused reply ∈ l → ∃ request flag, label = some (.perform request flag) ∧
      reply = errorReply request := by
  have hengages : ∀ {b : Working ω} {id performing rsession rest l}, Engages b id performing rsession rest c' →
      b.history = c.history ++ l → (∀ reply, .refused reply ∉ l) → ∃ l, c'.history = c.history ++ l ∧
        ∀ reply, .refused reply ∈ l → ∃ request flag, label = some (.perform request flag) ∧
          reply = errorReply request := by
    intro b id performing rsession rest l h hb hl
    obtain ⟨events, hhistory⟩ := h.history
    refine ⟨l ++ events.map (.session id), by rw [hhistory, hb, List.append_assoc], fun reply hmem => ?_⟩
    refine absurd ((List.mem_append.mp hmem).resolve_right fun hmem => ?_) (hl reply)
    obtain ⟨_, -, heq⟩ := List.mem_map.mp hmem
    cases heq
  cases h with
  | called _ _ _ h => exact hengages h (List.append_nil _).symm (by simp)
  | @returned execution rsession rest =>
    refine ⟨[], ?_, by simp⟩
    unfold Working.leave
    split_ifs <;> exact (List.append_nil _).symm
  | @refused request flag =>
    refine ⟨_, rfl, fun reply hmem => ⟨request, flag, rfl, ?_⟩⟩
    cases List.mem_singleton.mp hmem
    rfl
  | parked => exact ⟨_, rfl, by simp⟩
  | handed _ _ h => exact hengages h rfl (by simp)
  | finishing _ h => exact hengages h (List.append_nil _).symm (by simp)

theorem getId_of_answered (h : (system ω).Trans c label c') {request : Request} {flag : Bool}
    (hlabel : label = some (.perform request flag)) (hevents : c'.events y ≠ c.events y) : request.getId = y := by
  by_contra hne
  subst hlabel
  refine hevents (find?_of_moved (moved_of_trans h) (fun _ _ h => nomatch h) fun arrival harrival => ?_).2
  cases harrival
  exact hne

end Workflow

/-! ### Addresses -/

namespace Network

variable {ω : Type}

/-- An answer is awaited at the address, for a request with the id: a client has handed one in, or the session
that is addressed has sent one. -/
inductive Awaits (x : Network ω) (t : Target) (id : UUID) : Prop
  | client {req : Request} (hpushed : req ∈ x.pushed) (hreply : req.reply = t) (hid : req.requestId = id)
  | session {pointer : ℕ} {r : Request} (hhost : x.managers.host? t = some pointer)
      (hsent : .sent r ∈ (x.workflows pointer).events t.identifier) (hreply : r.reply = t) (hid : r.requestId = id)

/-- An answer is awaited where the message goes, if it is one, and where it asks for one. -/
structure Fair (x : Network ω) (r : Request) : Prop where
  plain : r.workflowJson.isEmpty = true
  target : r.target.target = .reply → x.Awaits r.target r.requestId
  reply : r.reply.target = .reply → x.Awaits r.reply r.requestId

/-- The workflow `pointer` was opened a session `y` for the request. -/
structure Hosts (x : Network ω) (pointer : ℕ) (y : UUID) (request : Request) : Prop where
  fair : x.Fair request
  kind : request.target.target ≠ .reply
  getId : request.getId = y
  host : x.managers.host? request.target = some pointer

/-- The answers the session `y` gave its actions are answers to requests it had sent for them. -/
def Genuine (c : Working ω) (y : UUID) : Prop :=
  ∀ pre a p post, c.events y = pre ++ .replyReceived a p :: post → p.target.target = .reply →
    p.target.action = a ∧ ∃ r, .sent r ∈ pre ∧ r.reply = p.target ∧ r.requestId = p.requestId

/-- What holds of a server at any time. -/
structure Sound (x : Network ω) : Prop where
  clients : x.managers.clients.Keyed Client.clientId
  noClient : x.managers.clients.find? 0 = none
  workflows : ∀ k, Retained (x.workflows k) ∧ (x.workflows k).workflow.stateMachine.Asking
  pushed : ∀ req ∈ x.pushed, req.reply.clientId ≠ 0
  inFlight : ∀ r ∈ x.inFlight, x.Fair r
  posted : ∀ call ∈ x.posted, x.Fair call.2 ∧ x.managers.host? call.2.target = some call.1
  delivered : ∀ r ∈ x.delivered, x.Fair r ∧ r.target.clientId ≠ 0
  sessions : ∀ k y rsession, (x.workflows k).workflow.sessions.find? y = some rsession →
    x.Hosts k y rsession.session.request
  answered : ∀ k y, Genuine (x.workflows k) y

/-- Nothing that was seen or handed in is lost, and the controllers stay as they are. -/
structure Grows (x x' : Network ω) : Prop where
  controllers : x'.managers.controllers = x.managers.controllers
  pushed : x.pushed ⊆ x'.pushed
  events : ∀ k y, (x.workflows k).events y <+: (x'.workflows k).events y

variable {x x' : Network ω} {request reply : Request} {k : ℕ} {y : UUID}

theorem Grows.host? (h : x.Grows x') (t : Target) : x'.managers.host? t = x.managers.host? t := by
  unfold Managers.host?
  rw [h.controllers]

theorem Grows.of_eq (hmanagers : x'.managers = x.managers) (hpushed : x'.pushed = x.pushed)
    (hworkflows : x'.workflows = x.workflows) : x.Grows x' :=
  ⟨by rw [hmanagers], by rw [hpushed]; exact List.Subset.refl _, fun _ _ => by rw [hworkflows]⟩

theorem Awaits.mono {t : Target} {id : UUID} (h : x.Awaits t id) (hgrows : x.Grows x') : x'.Awaits t id := by
  cases h with
  | client hpushed hreply hid => exact .client (hgrows.pushed hpushed) hreply hid
  | @session pointer r hhost hsent hreply hid =>
    exact .session ((hgrows.host? t).trans hhost) ((hgrows.events pointer t.identifier).subset hsent) hreply hid

theorem Fair.mono (h : x.Fair request) (hgrows : x.Grows x') : x'.Fair request :=
  ⟨h.plain, fun hkind => (h.target hkind).mono hgrows, fun hkind => (h.reply hkind).mono hgrows⟩

theorem Hosts.mono (h : x.Hosts k y request) (hgrows : x.Grows x') : x'.Hosts k y request :=
  ⟨h.fair.mono hgrows, h.kind, h.getId, (hgrows.host? _).trans h.host⟩

/-- An answer to a fair request is fair. -/
theorem Fair.answers (h : x.Fair request) (hanswers : Answers request reply) : x.Fair reply where
  plain := hanswers.plain
  target hkind := by
    have hreply := hanswers.target hkind
    rw [hreply, hanswers.requestId]
    exact h.reply (hreply ▸ hkind)
  reply hkind := by
    rw [hanswers.swapped, hanswers.requestId]
    exact h.target (hanswers.swapped ▸ hkind)

theorem clientId_of_host? {α : Type} {s : Managers α} {t : Target} {pointer : α} (h : s.host? t = some pointer) :
    t.clientId = 0 := by
  by_contra hne
  unfold Managers.host? at h
  rw [if_pos hne] at h
  cases h

/-- What a session sends is fair once it is recorded. -/
theorem Hosts.fair_of_sentBy {s : Session} {id : ℤ} {r : Request} (h : x.Hosts k y s.request)
    (hsent : .sent r ∈ (x.workflows k).events y) (hsentBy : SentBy id s r) : x.Fair r where
  plain := hsentBy.plain
  target hkind := by
    obtain ⟨htarget, hid⟩ := hsentBy.answer hkind
    rw [htarget, hid]
    exact h.fair.reply (htarget ▸ hkind)
  reply hkind := by
    have hback := hsentBy.back hkind
    have haddress : (s.address id).identifier = y := h.getId
    have hhost : x.managers.host? (s.address id) = x.managers.host? s.request.target := rfl
    rw [hback]
    exact .session (hhost.trans h.host) (haddress ▸ hsent) hback rfl

/-! ### One step of the server -/

theorem Sound.of_same (hx : x.Sound) (hgrows : x.Grows x') (hworkflows : x'.workflows = x.workflows)
    (hclients : x'.managers.clients.Keyed Client.clientId) (hnoClient : x'.managers.clients.find? 0 = none)
    (hpushed : ∀ req ∈ x'.pushed, req ∈ x.pushed ∨ req.reply.clientId ≠ 0)
    (hinFlight : ∀ r ∈ x'.inFlight, r ∈ x.inFlight ∨ x'.Fair r)
    (hposted : ∀ call ∈ x'.posted, call ∈ x.posted ∨
      x.Fair call.2 ∧ x.managers.host? call.2.target = some call.1)
    (hdelivered : ∀ r ∈ x'.delivered, r ∈ x.delivered ∨ x.Fair r ∧ r.target.clientId ≠ 0) : x'.Sound where
  clients := hclients
  noClient := hnoClient
  workflows k := by
    rw [hworkflows]
    exact hx.workflows k
  pushed req hmem := (hpushed req hmem).elim (hx.pushed req) id
  inFlight r hmem := (hinFlight r hmem).elim (fun h => (hx.inFlight r h).mono hgrows) id
  posted call hmem := by
    obtain ⟨hfair, hhost⟩ := (hposted call hmem).elim (hx.posted call) id
    exact ⟨hfair.mono hgrows, (hgrows.host? _).trans hhost⟩
  delivered r hmem := by
    obtain ⟨hfair, hclient⟩ := (hdelivered r hmem).elim (hx.delivered r) id
    exact ⟨hfair.mono hgrows, hclient⟩
  sessions k y rsession hfind := by
    rw [hworkflows] at hfind
    exact (hx.sessions k y rsession hfind).mono hgrows
  answered k y := by
    rw [hworkflows]
    exact hx.answered k y

theorem Sound.clients_insert (hx : x.Sound) {client : UUID} {c c' : Client}
    (hfind : x.managers.clients.find? client = some c) (hid : c'.clientId = c.clientId) :
    (x.managers.clients.insert client c').Keyed Client.clientId ∧
      (x.managers.clients.insert client c').find? 0 = none := by
  have hkey : c'.clientId = client := hid.trans (hx.clients client c hfind)
  have hne : (0 : UUID) ≠ client := by
    rintro rfl
    rw [hx.noClient] at hfind
    cases hfind
  exact ⟨hkey ▸ hx.clients.insert c', (OrdMap.find?_insert_of_ne _ _ hne).trans hx.noClient⟩

theorem Sound.inFlight_eraseIdx (hx : x.Sound) (index : ℕ) :
    Sound { x with inFlight := x.inFlight.eraseIdx index } :=
  hx.of_same (.of_eq rfl rfl rfl) rfl hx.clients hx.noClient (fun _ h => .inl h)
    (fun _ h => .inl (List.mem_of_mem_eraseIdx h)) (fun _ h => .inl h) fun _ h => .inl h

theorem Sound.posted_eraseIdx (hx : x.Sound) (index : ℕ) : Sound { x with posted := x.posted.eraseIdx index } :=
  hx.of_same (.of_eq rfl rfl rfl) rfl hx.clients hx.noClient (fun _ h => .inl h)
    (fun _ h => .inl h) (fun _ h => .inl (List.mem_of_mem_eraseIdx h)) fun _ h => .inl h

theorem Sound.route {host : Host ω} {draws : Draws ℕ} (hx : x.Sound) (hfair : x.Fair request)
    (h : x.route host draws request = some x') : x'.Sound := by
  obtain ⟨⟨managers, dispatches⟩, hperform, rfl⟩ := Option.map_eq_some_iff.mp h
  have hnew : ∀ {α : Type} {P : α → Prop} {l : List α} {a : α}, P a → ∀ b ∈ l ++ [a], b ∈ l ∨ P b := by
    intro α P l a ha b hb
    rcases List.mem_append.mp hb with hb | hb
    · exact .inl hb
    · exact .inr (List.mem_singleton.mp hb ▸ ha)
  cases routes_of_perform hfair.plain hperform with
  | dropped => exact hx
  | posted hhost =>
    exact hx.of_same (.of_eq rfl rfl rfl) rfl hx.clients hx.noClient (fun _ h => .inl h) (fun _ h => .inl h)
      (hnew ⟨hfair, hhost⟩) fun _ h => .inl h
  | sent hclient hfind hid =>
    obtain ⟨hclients, hnoClient⟩ := hx.clients_insert hfind hid
    exact hx.of_same ⟨rfl, List.Subset.refl _, fun _ _ => List.prefix_rfl⟩ rfl hclients hnoClient
      (fun _ h => .inl h) (fun _ h => .inl h) (fun _ h => .inl h) (hnew ⟨hfair, hclient⟩)
  | @replied reply hanswers =>
    have hgrows : x.Grows { x with inFlight := x.inFlight ++ [reply] } := .of_eq rfl rfl rfl
    exact hx.of_same hgrows rfl hx.clients hx.noClient (fun _ h => .inl h)
      (hnew ((hfair.answers hanswers).mono hgrows)) (fun _ h => .inl h) fun _ h => .inl h

/-- A message a workflow may be given: it was posted to it, or it is the Interrupt of a timer. -/
def Given (x : Network ω) (k : ℕ) (label : Option Arrival) : Prop :=
  ∀ p flag, label = some (.perform p flag) →
    x.Fair p ∧ (p.target.target = .interrupt ∨ x.managers.host? p.target = some k)

/-- The answers a session gives its actions in a further step are genuine too. -/
theorem Genuine.append {c c' : Working ω} {events : List Event} (h : Genuine c y)
    (hevents : c'.events y = c.events y ++ events)
    (hnew : ∀ a p, .replyReceived a p ∈ events → p.target.target = .reply →
      p.target.action = a ∧ ∃ r, .sent r ∈ c.events y ∧ r.reply = p.target ∧ r.requestId = p.requestId) :
    Genuine c' y := by
  intro pre a p post hsplit hkind
  rw [hevents, List.append_eq_append_iff] at hsplit
  have hlater : ∀ mid, pre = c.events y ++ mid → events = mid ++ .replyReceived a p :: post →
      p.target.action = a ∧ ∃ r, .sent r ∈ pre ∧ r.reply = p.target ∧ r.requestId = p.requestId := by
    rintro mid rfl rfl
    obtain ⟨haction, r, hsent, hreply, hid⟩ := hnew a p (List.mem_append_right _ List.mem_cons_self) hkind
    exact ⟨haction, r, List.mem_append_left _ hsent, hreply, hid⟩
  rcases hsplit with ⟨mid, hpre, hmid⟩ | ⟨mid, hold, hmid⟩
  · exact hlater mid hpre hmid
  · cases mid with
    | nil => exact hlater [] (by rw [List.append_nil, hold, List.append_nil]) hmid.symm
    | cons event mid =>
      obtain ⟨rfl, -⟩ := List.cons.inj hmid
      exact h pre a p mid hold hkind

/-- The workflow `k` has done something, and this is what it recorded. -/
structure Shows (x : Network ω) (k : ℕ) (label : Option Arrival) (working : Working ω) (l : List Occurrence) :
    Prop where
  retained : Retained working
  stateMachine : working.workflow.stateMachine = (x.workflows k).workflow.stateMachine
  events : ∀ y, working.events y = (x.workflows k).events y ++ l.filterMap (Occurrence.event? y)
  refused : ∀ reply, .refused reply ∈ l → ∃ request flag, label = some (.perform request flag) ∧
    reply = Workflow.errorReply request
  sessions : ∀ y rsession, working.workflow.sessions.find? y = some rsession → ∃ s : Session,
    (∀ e ∈ l.filterMap (Occurrence.event? y),
      Emits (x.workflows k).workflow.stateMachine s (label.map Arrival.message) e) ∧
    rsession.session.request = s.request ∧ x.Hosts k y s.request
  witnessed : ∀ y, ∀ e ∈ l.filterMap (Occurrence.event? y), working.workflow.sessions.contains y = true
  getId : ∀ y, ∀ e ∈ l.filterMap (Occurrence.event? y), ∀ p flag, label = some (.perform p flag) → p.getId = y

def worked (x : Network ω) (k : ℕ) (working : Working ω) (l : List Occurrence) : Network ω :=
  { x with
    workflows := Function.update x.workflows k working
    inFlight := x.inFlight ++ l.filterMap Occurrence.routed? }

theorem mem_of_mem_events {c : Working ω} {e : Event} (h : e ∈ c.events y) : .session y e ∈ c.history := by
  obtain ⟨o, ho, hevent⟩ := List.mem_filterMap.mp h
  unfold Occurrence.event? at hevent
  split at hevent
  · split_ifs at hevent with hid
    cases hevent
    exact hid ▸ ho
  · cases hevent

theorem Sound.shows (hx : x.Sound) {label : Option Arrival} {env : ω} (hlabel : x.Given k label)
    (h : x.work k label env = some x') : ∃ working l, x.Shows k label working l ∧ x' = x.worked k working l := by
  obtain ⟨working, hstep, rfl⟩ := Option.map_eq_some_iff.mp h
  have htrans : (Workflow.system ω).Trans ((x.workflows k).inEnv env) label working :=
    Reactive.System.step_eq_some_iff.mp hstep
  obtain ⟨⟨hopened, hlive, hwitnessed⟩, hasking⟩ := hx.workflows k
  have hretained : Retained ((x.workflows k).inEnv env) := ⟨hopened, hlive, hwitnessed⟩
  have hmoved := Workflow.moved_of_trans htrans
  have hafter : Retained working := Workflow.retained_of_moved hretained hmoved
  have hmachine := Workflow.stateMachine_of_moved hmoved
  obtain ⟨l, hhistory, hrefused⟩ := Workflow.exists_history hmoved
  have hevents : ∀ y, working.events y = (x.workflows k).events y ++ l.filterMap (Occurrence.event? y) :=
    fun y => Working.events_append hhistory y
  have hserves : ∀ y request, Serves ((x.workflows k).inEnv env) label y request → x.Hosts k y request := by
    intro y request hserves
    cases hserves with
    | entry hfind hrequest => exact hrequest ▸ hx.sessions k y _ hfind
    | opens hperform hid hkind =>
      obtain ⟨hfair, hgiven⟩ := hlabel _ _ hperform
      have hne : request.target.target ≠ .interrupt ∧ request.target.target ≠ .reply := by
        rcases hkind with hkind | hkind <;> rw [hkind] <;> exact ⟨by decide, by decide⟩
      exact ⟨hfair, hne.2, hid, hgiven.resolve_left hne.1⟩
  refine ⟨working, l, ⟨hafter, hmachine, hevents, hrefused, ?_, ?_, ?_⟩, ?_⟩
  · intro y rsession hfind
    obtain ⟨s, events, hsame, hemits, hrequest, hhosts⟩ := Workflow.exists_emits hretained htrans hfind
    cases List.append_cancel_left (hsame.symm.trans (hevents y))
    exact ⟨s, hemits, hrequest, hserves y _ hhosts⟩
  · intro y e he
    exact hafter.witnessed y e (mem_of_mem_events (hevents y ▸ List.mem_append_right _ he))
  · intro y e he p flag hperform
    refine Workflow.getId_of_answered htrans hperform fun hsame => ?_
    rw [List.append_right_eq_self.mp ((hevents y).symm.trans hsame)] at he
    cases he
  · unfold worked
    rw [hhistory]
    congr 3
    exact List.drop_left

namespace Shows

variable {label : Option Arrival} {working : Working ω} {l : List Occurrence}

theorem workflows_self : (x.worked k working l).workflows k = working := Function.update_self ..

theorem workflows_of_ne {k' : ℕ} (h : k' ≠ k) : (x.worked k working l).workflows k' = x.workflows k' :=
  Function.update_of_ne h ..

theorem grows (h : x.Shows k label working l) : x.Grows (x.worked k working l) := by
  refine ⟨rfl, List.Subset.refl _, fun k' y => ?_⟩
  by_cases hk : k' = k
  · rw [hk, workflows_self, h.events y]
    exact List.prefix_append _ _
  · rw [workflows_of_ne hk]

theorem exists_emits (h : x.Shows k label working l) {e : Event} (he : e ∈ l.filterMap (Occurrence.event? y)) :
    ∃ s : Session, Emits (x.workflows k).workflow.stateMachine s (label.map Arrival.message) e ∧
      x.Hosts k y s.request := by
  obtain ⟨rsession, hfind⟩ := OrdMap.contains_iff.mp (h.witnessed y e he)
  obtain ⟨s, hemits, -, hhosts⟩ := h.sessions y rsession hfind
  exact ⟨s, hemits e he, hhosts⟩

/-- What the workflow hands to the controller manager is fair. -/
theorem fair (h : x.Shows k label working l) (hlabel : x.Given k label)
    (hasking : (x.workflows k).workflow.stateMachine.Asking) {o : Occurrence} (ho : o ∈ l) {r : Request}
    (hrouted : o.routed? = some r) : (x.worked k working l).Fair r := by
  have hsession : ∀ y e, o = .session y e → e ∈ l.filterMap (Occurrence.event? y) := by
    rintro y e rfl
    exact List.mem_filterMap.mpr ⟨_, ho, if_pos rfl⟩
  unfold Occurrence.routed? at hrouted
  split at hrouted <;> cases hrouted
  · obtain ⟨request, flag, hperform, rfl⟩ := h.refused _ ho
    exact ((hlabel request flag hperform).1.answers (answers_errorReply request)).mono h.grows
  · rename_i y
    have he := hsession _ _ rfl
    obtain ⟨s, hemits, hhosts⟩ := h.exists_emits he
    cases hemits with
    | @sent id ptr env s' _ hptr hrequest hsent =>
      have hsentBy : SentBy id s' r := by
        obtain ⟨hperform, hreply⟩ := hasking id ptr hptr env s'
        rcases hsent with hsent | ⟨p, hsent⟩
        · exact hperform r hsent
        · exact hreply p r hsent
      refine ((hrequest ▸ hhosts).mono h.grows).fair_of_sentBy ?_ hsentBy
      rw [workflows_self, h.events y]
      exact List.mem_append_right _ he
  · obtain ⟨s, hemits, hhosts⟩ := h.exists_emits (hsession _ _ rfl)
    cases hemits with
    | finishReply hanswers => exact (hhosts.fair.answers hanswers).mono h.grows
  · obtain ⟨s, hemits, hhosts⟩ := h.exists_emits (hsession _ _ rfl)
    cases hemits with
    | errorReply hanswers => exact (hhosts.fair.answers hanswers).mono h.grows

theorem answer (h : x.Shows k label working l) (hx : x.Sound) (hlabel : x.Given k label) {a : ℤ} {p : Request}
    (he : .replyReceived a p ∈ l.filterMap (Occurrence.event? y)) (hkind : p.target.target = .reply) :
    p.target.action = a ∧ ∃ r, .sent r ∈ (x.workflows k).events y ∧ r.reply = p.target ∧
      r.requestId = p.requestId := by
  obtain ⟨s, hemits, -⟩ := h.exists_emits he
  cases hemits with
  | replyReceived hreceived =>
    obtain ⟨arrival, rfl, harrival⟩ := Option.map_eq_some_iff.mp hreceived
    cases arrival with
    | asyncFinished id result => cases harrival
    | perform p flag =>
      cases harrival
      obtain ⟨hfair, hgiven⟩ := hlabel p flag rfl
      have hhost : x.managers.host? p.target = some k := hgiven.resolve_left (by rw [hkind]; decide)
      refine ⟨rfl, ?_⟩
      cases hfair.target hkind with
      | client hpushed hreply =>
        refine absurd (clientId_of_host? hhost) ?_
        rw [← hreply]
        exact hx.pushed _ hpushed
      | @session pointer r hhost' hsent hreply hid =>
        cases hhost.symm.trans hhost'
        have hy : p.target.identifier = y := h.getId y _ he p flag rfl
        exact ⟨r, hy ▸ hsent, hreply, hid⟩

end Shows

theorem Sound.work (hx : x.Sound) {label : Option Arrival} {env : ω} (hlabel : x.Given k label)
    (h : x.work k label env = some x') : x'.Sound := by
  obtain ⟨working, l, hshows, rfl⟩ := hx.shows hlabel h
  have hgrows := hshows.grows
  refine ⟨hx.clients, hx.noClient, fun k' => ?_, hx.pushed, fun r hr => ?_, fun call hcall => ?_,
    fun r hr => ?_, fun k' y rsession hfind => ?_, fun k' y => ?_⟩
  · by_cases hk : k' = k
    · rw [hk, Shows.workflows_self, hshows.stateMachine]
      exact ⟨hshows.retained, (hx.workflows k).2⟩
    · rw [Shows.workflows_of_ne hk]
      exact hx.workflows k'
  · rcases List.mem_append.mp hr with hr | hr
    · exact (hx.inFlight r hr).mono hgrows
    · obtain ⟨o, ho, hrouted⟩ := List.mem_filterMap.mp hr
      exact hshows.fair hlabel (hx.workflows k).2 ho hrouted
  · exact ⟨(hx.posted call hcall).1.mono hgrows, (hgrows.host? _).trans (hx.posted call hcall).2⟩
  · exact ⟨(hx.delivered r hr).1.mono hgrows, (hx.delivered r hr).2⟩
  · by_cases hk : k' = k
    · rw [hk, Shows.workflows_self] at hfind
      obtain ⟨s, -, hrequest, hhosts⟩ := hshows.sessions y rsession hfind
      rw [hk, hrequest]
      exact hhosts.mono hgrows
    · rw [Shows.workflows_of_ne hk] at hfind
      exact (hx.sessions k' y rsession hfind).mono hgrows
  · by_cases hk : k' = k
    · rw [hk, Shows.workflows_self]
      exact (hx.answered k y).append (hshows.events y) fun a p he hkind => hshows.answer hx hlabel he hkind
    · rw [Shows.workflows_of_ne hk]
      exact hx.answered k' y

theorem fair_of_interrupt (hplain : request.workflowJson.isEmpty = true) (htarget : request.target.target = .interrupt)
    (hreply : request.reply.target = .noReply) : x.Fair request where
  plain := hplain
  target h := absurd (htarget.symm.trans h) (by decide)
  reply h := absurd (hreply.symm.trans h) (by decide)

theorem Sound.receive (hx : x.Sound) {client : UUID} {c c' : Client} {req pushed : Request}
    (hhonest : x.Honest (some (.receive client req))) (hfind : x.managers.clients.find? client = some c)
    (h : c.receiveNewRequest req = some (c', pushed)) :
    Sound { x.hand client c' [pushed] with pushed := x.pushed ++ [pushed] } := by
  have hpushed : pushed = Client.doReceiveRequest c.clientId req ∧ c'.clientId = c.clientId := by
    unfold Client.receiveNewRequest at h
    split_ifs at h <;> cases h <;> exact ⟨rfl, rfl⟩
  obtain ⟨rfl, hid⟩ := hpushed
  obtain ⟨hclients, hnoClient⟩ := hx.clients_insert hfind hid
  obtain ⟨hplain, hanswer⟩ := hhonest client req rfl
  have hclient : c.clientId ≠ 0 := by
    rw [hx.clients client c hfind]
    rintro rfl
    rw [hx.noClient] at hfind
    cases hfind
  have hreply : (Client.doReceiveRequest c.clientId req).reply.clientId ≠ 0 := by
    unfold Client.doReceiveRequest
    dsimp only
    split_ifs <;> exact hclient
  have hgrows : x.Grows { x.hand client c' [Client.doReceiveRequest c.clientId req] with
      pushed := x.pushed ++ [Client.doReceiveRequest c.clientId req] } :=
    ⟨rfl, List.subset_append_left _ _, fun _ _ => List.prefix_rfl⟩
  refine hx.of_same hgrows rfl hclients hnoClient (fun r hr => ?_) (fun r hr => ?_) (fun _ h => .inl h)
    fun _ h => .inl h
  · rcases List.mem_append.mp hr with hr | hr
    · exact .inl hr
    · exact .inr (List.mem_singleton.mp hr ▸ hreply)
  · rcases List.mem_append.mp hr with hr | hr
    · exact .inl hr
    rw [List.mem_singleton.mp hr]
    refine .inr ⟨hplain, fun hkind => ?_, fun _ => .client (List.mem_append_right _ (.head _)) rfl rfl⟩
    obtain ⟨p, hp, htarget, hrid⟩ := hanswer hkind
    refine Awaits.mono ?_ hgrows
    show x.Awaits req.target req.requestId
    rw [htarget, hrid]
    exact (hx.delivered p hp).1.reply (htarget ▸ hkind)

theorem Sound.setStatus (hx : x.Sound) {client : UUID} {c : Client} (status : ClientStatus) (force : Bool)
    (fresh : UUID → Target) (hfind : x.managers.clients.find? client = some c) :
    Sound (x.hand client (c.setStatus status force fresh).1 (c.setStatus status force fresh).2) := by
  have hid : (c.setStatus status force fresh).1.clientId = c.clientId := by
    unfold Client.setStatus
    split_ifs <;> rfl
  have hinterrupts : ∀ r ∈ (c.setStatus status force fresh).2, r.workflowJson.isEmpty = true ∧
      r.target.target = .interrupt ∧ r.reply.target = .noReply := by
    intro r hr
    unfold Client.setStatus Client.internalStatusChanged at hr
    split_ifs at hr
    · cases hr
    · rcases List.mem_append.mp hr with hr | hr <;> obtain ⟨kv, -, rfl⟩ := List.mem_map.mp hr
      · exact ⟨rfl, rfl, rfl⟩
      · exact ⟨rfl, rfl, rfl⟩
    · cases hr
    · cases hr
  obtain ⟨hclients, hnoClient⟩ := hx.clients_insert hfind hid
  refine hx.of_same ⟨rfl, List.Subset.refl _, fun _ _ => List.prefix_rfl⟩ rfl hclients hnoClient (fun _ h => .inl h)
    (fun r hr => ?_) (fun _ h => .inl h) fun _ h => .inl h
  rcases List.mem_append.mp hr with hr | hr
  · exact .inl hr
  · obtain ⟨hplain, htarget, hreply⟩ := hinterrupts r hr
    exact .inr (fair_of_interrupt hplain htarget hreply)

theorem Sound.accept {host : Host ω} {input : Input ω} (hx : x.Sound) (hhonest : x.Honest (some input))
    (h : (system host).accept x input = some x') : x'.Sound := by
  cases input with
  | route index draws =>
    obtain ⟨request, hrequest, h⟩ := Option.bind_eq_some_iff.mp h
    have hfair := hx.inFlight request (List.mem_of_getElem? hrequest)
    exact (hx.inFlight_eraseIdx index).route (hfair.mono (.of_eq rfl rfl rfl)) h
  | execute index flag env =>
    obtain ⟨⟨pointer, request⟩, hcall, h⟩ := Option.bind_eq_some_iff.mp h
    refine (hx.posted_eraseIdx index).work (fun p flag' hlabel => ?_) h
    cases hlabel
    obtain ⟨hfair, hhost⟩ := hx.posted _ (List.mem_of_getElem? hcall)
    exact ⟨hfair.mono (.of_eq rfl rfl rfl), .inr hhost⟩
  | proceed pointer env => exact hx.work (fun p flag hlabel => by cases hlabel) h
  | asyncFinished pointer id result env => exact hx.work (fun p flag hlabel => by cases hlabel) h
  | timedOut pointer id identifier flag env =>
    obtain ⟨request, hrequest, h⟩ := Option.bind_eq_some_iff.mp h
    refine hx.work (fun p flag' hlabel => ?_) h
    cases hlabel
    obtain ⟨rsession, -, rfl⟩ := Option.map_eq_some_iff.mp hrequest
    exact ⟨fair_of_interrupt rfl rfl rfl, .inl rfl⟩
  | receive client req =>
    obtain ⟨c, hfind, h⟩ := Option.bind_eq_some_iff.mp h
    obtain ⟨⟨c', pushed⟩, hreceived, h⟩ := Option.bind_eq_some_iff.mp h
    cases h
    exact hx.receive hhonest hfind hreceived
  | setStatus client status force fresh =>
    obtain ⟨c, hfind, h⟩ := Option.bind_eq_some_iff.mp h
    cases h
    exact hx.setStatus status force fresh hfind

theorem sound_opened {managers : Managers ℕ} {machines : ℕ → StateMachine ω} {hm : ∀ k, (machines k).Initialised}
    {env : ω} (hclients : managers.clients.Keyed Client.clientId) (hnoClient : managers.clients.find? 0 = none)
    (hasking : ∀ k, (machines k).Asking) : (opened managers machines hm env).Sound where
  clients := hclients
  noClient := hnoClient
  workflows k :=
    have hrun : (Workflow.system ω).Reachable (Workflow.opened (machines k) (hm k) env) _ := .start
    ⟨Workflow.reachable_retained hrun, hasking k⟩
  pushed _ h := absurd h List.not_mem_nil
  inFlight _ h := absurd h List.not_mem_nil
  posted _ h := absurd h List.not_mem_nil
  delivered _ h := absurd h List.not_mem_nil
  sessions _ _ _ h := nomatch h
  answered _ _ _ _ _ _ h := absurd h (by simp [Working.events, opened, Workflow.opened])

/-- **Answers come home.** However the requests of a server are routed, performed and answered, each answer that
a session gives to one of its actions answers a request that the session had sent for this action, and each that
a client is sent answers one that the client had handed in: it is addressed as that request asked for, and has
its id. -/
theorem answers_come_home {host : Host ω} {managers : Managers ℕ} {machines : ℕ → StateMachine ω}
    {hm : ∀ k, (machines k).Initialised} {env : ω} (hclients : managers.clients.Keyed Client.clientId)
    (hnoClient : managers.clients.find? 0 = none) (hasking : ∀ k, (machines k).Asking)
    (hrun : (system host).Run Honest (opened managers machines hm env) x) :
    (∀ k y pre a p post, (x.workflows k).events y = pre ++ .replyReceived a p :: post →
        p.target.target = .reply →
        p.target.action = a ∧ ∃ r, .sent r ∈ pre ∧ r.reply = p.target ∧ r.requestId = p.requestId) ∧
      ∀ p ∈ x.delivered, p.target.target = .reply →
        ∃ req ∈ x.pushed, req.reply = p.target ∧ req.requestId = p.requestId := by
  have hx : x.Sound := hrun.invariant_cases (sound_opened hclients hnoClient hasking) (fun _ _ _ _ h => nomatch h)
    fun _ _ _ hx hhonest h => hx.accept hhonest h
  refine ⟨hx.answered, fun p hp hkind => ?_⟩
  obtain ⟨hfair, hclient⟩ := hx.delivered p hp
  cases hfair.target hkind with
  | client hpushed hreply hid => exact ⟨_, hpushed, hreply, hid⟩
  | session hhost => exact absurd (clientId_of_host? hhost) hclient

end Network

namespace Sample

open Network

def calling : Action Unit :=
  { asking with replyReceived := fun id env s _ => .ofResult env s ⟨id, .done, none⟩ }

def caller : StateMachine Unit :=
  (StateMachine.new.init.addAction 0 calling [leadTo Step.finish.id]).addInput ⟨"", 0, ""⟩

def parties (k : ℕ) : StateMachine Unit := if k = 0 then caller else single .done

theorem parties_initialised (k : ℕ) : (parties k).Initialised := by
  unfold parties
  split_ifs
  · exact .addInput (.addAction .refl _ _ _) _
  · exact single_initialised .done

theorem calling_sentBy {id : ℤ} {env : Unit} {s : Session} {r : Request}
    (hr : r ∈ (calling.perform id env s).requests) : SentBy id s r := by
  obtain rfl : r = Action.prepareSyncRequest id s (some query) query := List.mem_singleton.mp hr
  have hkind : (Action.prepareSyncRequest id s (some query) query).target.target = .defaultAction := rfl
  exact ⟨rfl, fun _ => rfl, fun h => absurd (hkind.symm.trans h) (by decide)⟩

theorem parties_asking (k : ℕ) : (parties k).Asking := by
  unfold parties
  split_ifs
  · exact StateMachine.asking_init.addAction 0 (fun _ _ _ _ h => calling_sentBy h)
      (fun _ _ _ _ _ h => absurd h List.not_mem_nil) [leadTo Step.finish.id]
  · exact StateMachine.asking_init.addAction 0 (fun _ _ _ _ h => absurd h List.not_mem_nil)
      (fun _ _ _ _ _ h => absurd h List.not_mem_nil) [leadTo Step.finish.id]

def connected : Client := Client.new 9 (fun _ => true) fun _ => true

def partiesManagers : Managers ℕ :=
  { managers (((∅ : Ordered.OrdMap String ℕ).insert "workflow" 0).insert "other" 1) with
    clients := (∅ : Ordered.OrdMap UUID Client).insert 9 connected }

theorem partiesManagers_keyed : partiesManagers.clients.Keyed Client.clientId :=
  Ordered.OrdMap.keyed_empty.insert connected

def server : Network Unit := Network.opened partiesManagers parties parties_initialised ()

def exchanged : List (Network.Input Unit) :=
  [.receive 9 (request .defaultAction 0 0), .route 0 draws, .execute 0 false ()] ++ List.replicate 3 (.proceed 0 ()) ++
    [.route 0 draws, .execute 0 false ()] ++ List.replicate 8 (.proceed 1 ()) ++
    [.route 0 draws, .execute 0 false ()] ++ List.replicate 7 (.proceed 0 ()) ++ [.route 0 draws]

def served : Network Unit := (Network.system host).play 0 exchanged server

theorem served_honest : (Network.system host).Run Honest server served := by
  refine .play (fun _ _ _ h => nomatch h) (fun x input hinput client req heq => ?_) .start
  cases heq
  simp only [exchanged, List.mem_append, List.mem_cons, List.mem_replicate, reduceCtorEq, and_false, or_false,
    List.not_mem_nil, Network.Input.receive.injEq] at hinput
  rw [hinput.2]
  exact ⟨rfl, fun h => absurd h (by decide)⟩

/-- The action is given one answer and the client is sent one, and both were asked for. -/
theorem served_answered :
    (∃ pre p post, (served.workflows 0).events 1 = pre ++ .replyReceived 0 p :: post ∧
      ∃ r, .sent r ∈ pre ∧ r.reply = p.target ∧ r.requestId = p.requestId) ∧
    ∃ p ∈ served.delivered, ∃ req ∈ served.pushed, req.reply = p.target ∧ req.requestId = p.requestId := by
  obtain ⟨hgiven, hsent⟩ := answers_come_home partiesManagers_keyed rfl parties_asking served_honest
  have hanswers : ((served.workflows 0).answers 1).map (fun answer => (answer.1, answer.2.target.target)) =
      [(0, .reply)] := by decide
  have hdelivered : served.delivered.map (·.target.target) = [.reply] := by decide
  constructor
  · obtain ⟨⟨a, p⟩, hp, heq⟩ := List.mem_map.mp (hanswers ▸ List.mem_singleton_self _)
    obtain ⟨e, he, hanswer⟩ := List.mem_filterMap.mp hp
    obtain ⟨pre, post, hsplit⟩ := List.append_of_mem he
    cases e <;> cases hanswer
    obtain ⟨rfl, hkind⟩ := Prod.mk.inj heq
    obtain ⟨-, r, hr, hreply, hid⟩ := hgiven 0 1 pre _ p post hsplit hkind
    exact ⟨pre, p, post, hsplit, r, hr, hreply, hid⟩
  · obtain ⟨p, hp, hkind⟩ := List.mem_map.mp (hdelivered ▸ List.mem_singleton_self _)
    exact ⟨p, hp, hsent p hp hkind⟩

end Sample

end LibWorkflow
