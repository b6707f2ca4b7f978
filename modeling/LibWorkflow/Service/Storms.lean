import LibWorkflow.Service.Routing
import LibWorkflow.Sessions.Entries
import Mathlib.Logic.Function.Basic

/-!
# Storms of error replies

A request that a workflow cannot execute is answered by `errorReply`, and the answer is a request like any
other: a workflow, a client or the temporary controller may refuse it in its turn and answer it, and so on.
An exchange follows the error replies from one to the next. It is over with the first one if that comes to
rest where it is routed to (`stays_quiet_iff`); two workflows that refuse each other never stop. A reply that
a running session takes has come to rest: what the session does with it is the request it works on.
-/

namespace LibWorkflow

open Ordered

/-- Error replies under way: the managers, the workflows by their pointers, the replies that the manager
has still to perform, and all there were so far. -/
structure Exchange (ω α : Type) where
  managers : Managers α
  workflows : α → Working ω
  inFlight : List Request
  messages : List Request

def Occurrence.refused? : Occurrence → Option Request
  | refused reply => some reply
  | _ => none

/-- The error replies of one `perform`. -/
def Working.refusals {ω : Type} (c : Working ω) (request : Request) (flag : Bool) : List Request :=
  ((c.perform request flag).history.drop c.history.length).filterMap Occurrence.refused?

namespace Exchange

variable {ω α : Type} [DecidableEq α]

def reply (x : Exchange ω α) (replies : List Request) : Exchange ω α :=
  { x with
    inFlight := x.inFlight ++ replies
    messages := x.messages ++ replies }

def deliver (flag : Bool) (x : Exchange ω α) (pointer : α) (request : Request) : Exchange ω α :=
  { x with workflows := Function.update x.workflows pointer ((x.workflows pointer).perform request flag) }.reply
    ((x.workflows pointer).refusals request flag)

def hosted (x : Exchange ω α) (pointer : α) : Workflow ω := (x.workflows pointer).workflow

def dispatch (flag : Bool) (x : Exchange ω α) : Dispatch α → Exchange ω α
  | .posted workflow request => x.deliver flag workflow request
  | .sent _ _ => x
  | .replied reply => x.reply [reply]

def system (host : Host ω) (draws : Draws α) (flag : Bool) : Reactive.System (Exchange ω α) Empty where
  next x :=
    match x.inFlight with
    | [] => none
    | reply :: rest =>
      (ControllerManager.perform host draws x.managers reply).map fun (managers, dispatches) =>
        dispatches.foldl (dispatch flag) { x with managers := managers, inFlight := rest }
  accept _ i := i.elim

/-- The error replies so far, but for those to `NoReply`, which go nowhere. -/
def sent (x : Exchange ω α) : List Request := x.messages.filter fun reply => reply.target.target ≠ .noReply

/-- The exchange that begins when a workflow refuses a request. -/
def refusing (managers : Managers α) (workflows : α → Working ω) (flag : Bool) (pointer : α) (request : Request) :
    Exchange ω α := deliver flag ⟨managers, workflows, [], []⟩ pointer request

/-- The sessions of `workflows'` are there in `workflows`. -/
def OpensNothing (workflows workflows' : α → Workflow ω) : Prop :=
  ∀ pointer id, (workflows' pointer).sessions.contains id = true → (workflows pointer).sessions.contains id = true

/-- The refused request is answered by one error reply, by none if it is not to be answered, and no session
is opened. -/
structure StaysQuiet (host : Host ω) (draws : Draws α) (flag : Bool) (managers : Managers α)
    (workflows : α → Working ω) (pointer : α) (request : Request) : Prop where
  ends : ∃ n, ((system host draws flag).advance n (refusing managers workflows flag pointer request)).inFlight = []
  one : ∀ n, ((system host draws flag).advance n (refusing managers workflows flag pointer request)).sent =
    if request.reply.target = .noReply then [] else [Workflow.errorReply request]
  opens : ∀ n, OpensNothing (fun p => (workflows p).workflow)
    ((system host draws flag).advance n (refusing managers workflows flag pointer request)).hosted

end Exchange

/-! ### Where a reply comes to rest -/

/-- The workflow runs the session the reply is for, or refuses a reply that is not to be answered. -/
def Workflow.Rests {ω : Type} (w : Workflow ω) (r : Request) : Prop :=
  w.sessions.contains r.getId = true ∧ r.target.target ≠ .defaultAction ∨
    r.reply.target = .noReply ∧
      ¬(w.sessions.contains r.getId = false ∧ (r.target.target = .defaultAction ∨ r.target.target = .status))

/-- The reply goes to a client that sends it or is not there, or to a controller that has no such workflow
or one where the reply comes to rest; or whoever refuses it need not answer. -/
def Managers.Rests {ω α : Type} (managers : Managers α) (workflows : α → Workflow ω) (r : Request) : Prop :=
  if r.target.clientId ≠ 0 then
    ∀ client, managers.clients.find? r.target.clientId = some client →
      client.canSendRequest r = true ∨ r.reply.target = .noReply
  else
    ∃ c, managers.controllers.find? (ControllerManager.controllerName managers r) = some c ∧
      if c.temporary = true ∧ r.target.target ≠ .reply then r.reply.target = .noReply
      else ∀ workflow, c.workflows.find? r.target.workflow = some workflow → (workflows workflow).Rests r

/-! ### What a workflow makes of a request -/

theorem filterMap_refused?_session (id : UUID) (events : List Event) :
    (events.map (Occurrence.session id)).filterMap Occurrence.refused? = [] := by
  rw [List.filterMap_map, List.filterMap_eq_nil_iff]
  exact fun _ _ => rfl

namespace Working

variable {ω : Type} (c : Working ω) (request : Request) (flag : Bool)

theorem refusals_eq : c.refusals request flag =
    if c.workflow.canExecuteRequest request = true then [] else [Workflow.errorReply request] := by
  have hmoved := Workflow.moved_of_perform c request flag
  have hdrop : ∀ l, (c.history ++ l).drop c.history.length = l := fun l => List.drop_left
  unfold refusals
  generalize c.perform request flag = c' at hmoved ⊢
  cases hmoved with
  | refused hcan =>
    rw [hcan, if_neg Bool.false_ne_true, record, hdrop]
    rfl
  | parked hcan =>
    rw [hcan, if_pos rfl, record, hdrop]
    rfl
  | handed hcan _ h =>
    obtain ⟨events, hhistory⟩ := h.history
    rw [hcan, if_pos rfl, hhistory, record, List.append_assoc, hdrop]
    exact filterMap_refused?_session request.getId events

theorem contains_perform_iff (id : UUID) : (c.perform request flag).workflow.sessions.contains id = true ↔
    c.workflow.sessions.contains id = true ∨ c.workflow.canExecuteRequest request = true ∧ id = request.getId := by
  have hmoved := Workflow.moved_of_perform c request flag
  generalize c.perform request flag = c' at hmoved ⊢
  cases hmoved with
  | refused hcan => simp [hcan, record]
  | parked hcan _ hworkflow =>
    subst hworkflow
    rw [record, Workflow.contains_store, or_comm]
    simp [hcan]
  | handed hcan _ h =>
    obtain ⟨s, -, hworkflow⟩ := h.workflow
    rw [hworkflow, Workflow.contains_store, or_comm]
    simp [hcan, record]

end Working

/-! ### One reply on its way -/

theorem Client.canSendRequest_of_refused {c : Client} {r : Request} (h : c.sendRequest r = none) :
    c.canSendRequest r = false := by
  unfold sendRequest at h
  split_ifs at h with hcan
  exact Bool.eq_false_iff.mpr hcan

theorem Client.canSendRequest_of_sent {c c' : Client} {r : Request} (h : c.sendRequest r = some c') :
    c.canSendRequest r = true := by
  unfold sendRequest at h
  split_ifs at h <;> assumption

theorem Workflow.rests_iff {ω : Type} {w : Workflow ω} {r : Request} (hkind : r.target.target ≠ .noReply) :
    w.Rests r ↔
      if w.canExecuteRequest r = true then w.sessions.contains r.getId = true else r.reply.target = .noReply := by
  unfold Rests canExecuteRequest
  cases hcontains : w.sessions.contains r.getId <;> cases hk : r.target.target <;> simp_all

def Dispatch.Rests {ω α : Type} (workflows : α → Workflow ω) : Dispatch α → Prop
  | .posted workflow request => (workflows workflow).Rests request
  | .sent _ _ => True
  | .replied reply => reply.target.target = .noReply

section Routes

variable {ω α : Type} {r : Request}

/-- A controller dispatches a request without a workflow of its own once at most, and posts it as it is. -/
theorem virtualPerform_cases (host : Host ω) (draws : Draws α) (c : Controller α)
    (hjson : r.workflowJson.isEmpty = true) :
    c.temporary = true ∧ r.target.target ≠ .reply ∧ (c.virtualPerform host draws r).dispatches =
        [.replied (TemporaryController.errorReply host.platform draws.identifier "temporary.empty.workflow"
          "Empty workflow provided, can't execute request." r)] ∨
      ¬(c.temporary = true ∧ r.target.target ≠ .reply) ∧ (c.virtualPerform host draws r).dispatches =
        ((c.workflows.find? r.target.workflow).map fun workflow => .posted workflow r).toList := by
  have hperform : (c.perform r).dispatches =
      ((c.workflows.find? r.target.workflow).map fun workflow => Dispatch.posted workflow r).toList := by
    cases hfind : c.workflows.find? r.target.workflow with
    | none => rw [Controller.perform_of_absent hfind]; rfl
    | some workflow => rw [Controller.perform_of_find? hfind]; rfl
  unfold Controller.virtualPerform
  split_ifs with htemporary
  · by_cases hkind : r.target.target = .reply
    · rw [TemporaryController.perform_of_reply hjson hkind]
      exact .inr ⟨fun h => h.2 hkind, hperform⟩
    · rw [TemporaryController.perform_of_empty hjson hkind]
      exact .inl ⟨htemporary, hkind, rfl⟩
  · exact .inr ⟨fun h => htemporary h.1, hperform⟩

/-- Nothing is dispatched, or one thing, and what is posted is the request. -/
def DispatchesOnce (r : Request) (dispatches : List (Dispatch α)) : Prop :=
  dispatches = [] ∨ ∃ d, dispatches = [d] ∧ ∀ pointer r', d = .posted pointer r' → r' = r

theorem virtualPerform_rests (host : Host ω) (draws : Draws α) (c : Controller α)
    (hjson : r.workflowJson.isEmpty = true) :
    DispatchesOnce r (c.virtualPerform host draws r).dispatches ∧ ∀ workflows : α → Workflow ω,
      (if c.temporary = true ∧ r.target.target ≠ .reply then r.reply.target = .noReply
        else ∀ workflow, c.workflows.find? r.target.workflow = some workflow → (workflows workflow).Rests r) ↔
        ∀ d ∈ (c.virtualPerform host draws r).dispatches, d.Rests workflows := by
  rcases virtualPerform_cases host draws c hjson with ⟨htemporary, hreply, h⟩ | ⟨hnot, h⟩
  · rw [h]
    refine ⟨.inr ⟨_, rfl, fun _ _ h => by cases h⟩, fun workflows => ?_⟩
    rw [if_pos ⟨htemporary, hreply⟩, List.forall_mem_singleton]
    rfl
  · rw [h]
    refine ⟨?_, fun workflows => ?_⟩
    · cases c.workflows.find? r.target.workflow with
      | none => exact .inl rfl
      | some workflow => exact .inr ⟨_, rfl, fun _ _ h => by cases h; rfl⟩
    · rw [if_neg hnot]
      simp [Dispatch.Rests]

theorem clientManager_rests (clients : OrdMap UUID Client) (refusal : ErrorReport) :
    DispatchesOnce r (ClientManager.perform (α := α) clients refusal r).2.2 ∧ ∀ workflows : α → Workflow ω,
      (∀ client, clients.find? r.target.clientId = some client →
          client.canSendRequest r = true ∨ r.reply.target = .noReply) ↔
        ∀ d ∈ (ClientManager.perform (α := α) clients refusal r).2.2, d.Rests workflows := by
  cases hfind : clients.find? r.target.clientId with
  | none =>
    rw [ClientManager.perform_of_unknown hfind]
    exact ⟨.inl rfl, fun _ => by simp⟩
  | some client =>
    simp only [Option.some.injEq, forall_eq']
    cases hsend : client.sendRequest r with
    | none =>
      rw [ClientManager.perform_of_refused hfind hsend, Client.canSendRequest_of_refused hsend]
      by_cases hreply : r.reply.target = .noReply
      · rw [if_pos hreply]
        exact ⟨.inl rfl, fun _ => by simp [hreply]⟩
      · rw [if_neg hreply]
        refine ⟨.inr ⟨_, rfl, fun _ _ h => by cases h⟩, fun _ => ?_⟩
        simp [hreply, Dispatch.Rests, ClientManager.refusedReply]
    | some client' =>
      rw [ClientManager.perform_of_sent hfind hsend]
      refine ⟨.inr ⟨_, rfl, fun _ _ h => by cases h⟩, fun _ => ?_⟩
      simp [Client.canSendRequest_of_sent hsend, Dispatch.Rests]

/-- The manager dispatches a reply once at most, and it comes to rest if that does; where there is no
controller it crashes. -/
theorem perform_cases (host : Host ω) (draws : Draws α) (managers : Managers α)
    (hkind : r.target.target ≠ .noReply) (hjson : r.workflowJson.isEmpty = true) :
    ControllerManager.perform host draws managers r = none ∧
        (∀ workflows : α → Workflow ω, ¬managers.Rests workflows r) ∨
      ∃ managers' dispatches, ControllerManager.perform host draws managers r = some (managers', dispatches) ∧
        DispatchesOnce r dispatches ∧
        ∀ workflows : α → Workflow ω, managers.Rests workflows r ↔ ∀ d ∈ dispatches, d.Rests workflows := by
  unfold Managers.Rests
  by_cases hclient : r.target.clientId = 0
  · simp only [hclient, ne_eq, not_true, if_false]
    rw [ControllerManager.perform_of_controller hkind hclient]
    cases hfind : managers.controllers.find? (ControllerManager.controllerName managers r) with
    | none => exact .inl ⟨rfl, fun _ ⟨c, hc, _⟩ => by cases hc⟩
    | some c =>
      refine .inr ⟨_, _, rfl, ?_⟩
      simp only [Option.some.injEq, exists_eq_left']
      exact virtualPerform_rests host draws c hjson
  · simp only [ne_eq, hclient, not_false_eq_true, if_true]
    rw [ControllerManager.perform_of_client hkind hclient]
    exact .inr ⟨_, _, rfl, clientManager_rests managers.clients draws.refusal⟩

end Routes

namespace Exchange

variable {ω α : Type} [DecidableEq α] {host : Host ω} {draws : Draws α} {flag : Bool}

theorem opensNothing_update_iff (x : Exchange ω α) (pointer : α) (c : Working ω) :
    OpensNothing x.hosted { x with workflows := Function.update x.workflows pointer c }.hosted ↔
      ∀ id, c.workflow.sessions.contains id = true → (x.hosted pointer).sessions.contains id = true := by
  have hforall := Function.forall_update_iff x.workflows (a := pointer) (b := c) (p := fun p c =>
    ∀ id, c.workflow.sessions.contains id = true → (x.hosted p).sessions.contains id = true)
  exact hforall.trans (and_iff_left fun _ _ _ h => h)

theorem opensNothing_deliver_iff (flag : Bool) (x : Exchange ω α) (pointer : α) (request : Request) :
    OpensNothing x.hosted (x.deliver flag pointer request).hosted ↔
      ((x.hosted pointer).canExecuteRequest request = true →
        (x.hosted pointer).sessions.contains request.getId = true) := by
  refine (opensNothing_update_iff x pointer _).trans ?_
  simp only [Working.contains_perform_iff]
  constructor
  · exact fun h hcan => h _ (.inr ⟨hcan, rfl⟩)
  · rintro h id (hid | ⟨hcan, rfl⟩)
    · exact hid
    · exact h hcan

/-- A dispatch replies only to `NoReply` and opens no session, just when it comes to rest. -/
theorem dispatch_spec (flag : Bool) (x : Exchange ω α) {d : Dispatch α}
    (hlive : ∀ pointer r, d = .posted pointer r → r.target.target ≠ .noReply) :
    ∃ workflows replies, x.dispatch flag d = { x with workflows := workflows }.reply replies ∧
      ((∀ reply ∈ replies, reply.target.target = .noReply) ∧
        OpensNothing x.hosted (x.dispatch flag d).hosted ↔ d.Rests x.hosted) := by
  cases d with
  | sent client request =>
    refine ⟨x.workflows, [], by simp [dispatch, reply], ?_⟩
    exact iff_of_true ⟨fun _ h => absurd h List.not_mem_nil, fun _ _ h => h⟩ trivial
  | replied rep =>
    refine ⟨x.workflows, [rep], rfl, ?_⟩
    have hopens : OpensNothing x.hosted (x.reply [rep]).hosted := fun _ _ h => h
    rw [List.forall_mem_singleton, dispatch, and_iff_left hopens]
    rfl
  | posted pointer request =>
    refine ⟨_, _, rfl, ?_⟩
    rw [dispatch, opensNothing_deliver_iff, Working.refusals_eq, Dispatch.Rests,
      Workflow.rests_iff (hlive _ _ rfl)]
    unfold hosted
    split_ifs with hcan
    · simp [hcan]
    · simp only [hcan, Bool.false_eq_true, false_implies, and_true, List.forall_mem_singleton]
      rfl

/-! ### The rest of an exchange -/

theorem next_of_empty {x : Exchange ω α} (h : x.inFlight = []) : (system host draws flag).next x = none := by
  simp only [system, h]

theorem next_of_cons {x : Exchange ω α} {reply : Request} {rest : List Request} (h : x.inFlight = reply :: rest) :
    (system host draws flag).next x =
      (ControllerManager.perform host draws x.managers reply).map fun (managers, dispatches) =>
        dispatches.foldl (dispatch flag) { x with managers := managers, inFlight := rest } := by
  simp only [system, h]

/-- Replies to `NoReply` are dropped one after the other. -/
theorem advance_of_noReply {x : Exchange ω α} (h : ∀ reply ∈ x.inFlight, reply.target.target = .noReply) (n : ℕ) :
    (system host draws flag).advance n x = { x with inFlight := x.inFlight.drop n } := by
  induction n generalizing x with
  | zero => rfl
  | succ n ih =>
    cases hflight : x.inFlight with
    | nil =>
      rw [Reactive.System.advance_of_settled (next_of_empty hflight), List.drop_nil, ← hflight]
    | cons reply rest =>
      rw [hflight] at h
      obtain ⟨hreply, hrest⟩ := List.forall_mem_cons.mp h
      have hnext : (system host draws flag).next x = some { x with inFlight := rest } := by
        rw [next_of_cons hflight, ControllerManager.perform_of_noReply hreply]
        rfl
      rw [Reactive.System.advance_succ_of_next hnext, ih hrest, List.drop_succ_cons]

theorem foldl_dispatch_spec (flag : Bool) (x : Exchange ω α) {r : Request} (hkind : r.target.target ≠ .noReply)
    {dispatches : List (Dispatch α)} (h : DispatchesOnce r dispatches) :
    ∃ workflows replies, dispatches.foldl (dispatch flag) x = { x with workflows := workflows }.reply replies ∧
      ((∀ reply ∈ replies, reply.target.target = .noReply) ∧
        OpensNothing x.hosted (dispatches.foldl (dispatch flag) x).hosted ↔
          ∀ d ∈ dispatches, d.Rests x.hosted) := by
  rcases h with rfl | ⟨d, rfl, hposted⟩
  · refine ⟨x.workflows, [], by simp [reply], ?_⟩
    exact iff_of_true ⟨fun _ h => absurd h List.not_mem_nil, fun _ _ h => h⟩ fun _ h => absurd h List.not_mem_nil
  · rw [List.foldl_cons, List.foldl_nil, List.forall_mem_singleton]
    refine dispatch_spec flag x fun pointer r' hd => ?_
    rw [hposted pointer r' hd]
    exact hkind

theorem deliver_of_refused (flag : Bool) (x : Exchange ω α) {pointer : α} {request : Request}
    (hrefused : (x.hosted pointer).canExecuteRequest request = false) :
    ∃ workflows, x.deliver flag pointer request =
        { x with workflows := workflows }.reply [Workflow.errorReply request] ∧
      ∀ p, (workflows p).workflow = x.hosted p := by
  have hcan : (x.workflows pointer).workflow.canExecuteRequest request = false := hrefused
  have hperform : ((x.workflows pointer).perform request flag).workflow = x.hosted pointer := by
    rw [Working.perform, hcan, if_neg Bool.false_ne_true]
    rfl
  refine ⟨Function.update x.workflows pointer ((x.workflows pointer).perform request flag), ?_, fun p => ?_⟩
  · unfold deliver
    rw [Working.refusals_eq, hcan, if_neg Bool.false_ne_true]
  · by_cases hp : p = pointer
    · subst hp
      rw [Function.update_self, hperform]
    · rw [Function.update_of_ne hp]
      rfl

section Refused

variable {managers : Managers α} {workflows : α → Working ω} {pointer : α} {request : Request}

/-- The exchange has just begun: the reply to the refused request is under way, and nothing else happened. -/
structure Begun (x : Exchange ω α) (managers : Managers α) (workflows : α → Working ω) (request : Request) :
    Prop where
  managers : x.managers = managers
  hosted : x.hosted = fun p => (workflows p).workflow
  inFlight : x.inFlight = [Workflow.errorReply request]
  messages : x.messages = [Workflow.errorReply request]

theorem begun_refusing (managers : Managers α) (flag : Bool)
    (hrefused : (workflows pointer).workflow.canExecuteRequest request = false) :
    Begun (refusing managers workflows flag pointer request) managers workflows request := by
  obtain ⟨workflows', hstart, hsame⟩ := deliver_of_refused flag ⟨managers, workflows, [], []⟩ hrefused
  rw [refusing, hstart]
  exact ⟨rfl, funext hsame, rfl, rfl⟩

theorem filter_live_eq_nil {replies : List Request} :
    (replies.filter fun reply => reply.target.target ≠ .noReply) = [] ↔
      ∀ reply ∈ replies, reply.target.target = .noReply := by
  simp

namespace Begun

variable {x x' : Exchange ω α}

omit [DecidableEq α] in
theorem sent (h : Begun x managers workflows request) :
    x.sent = if request.reply.target = .noReply then [] else [Workflow.errorReply request] := by
  have htarget : (Workflow.errorReply request).target.target = request.reply.target := rfl
  unfold Exchange.sent
  rw [h.messages]
  split_ifs with hreply
  · exact filter_live_eq_nil.mpr (List.forall_mem_singleton.mpr hreply)
  · simp [htarget, hreply]

theorem next (host : Host ω) (draws : Draws α) (flag : Bool) (h : Begun x managers workflows request) :
    (system host draws flag).next x =
      (ControllerManager.perform host draws managers (Workflow.errorReply request)).map fun (managers, dispatches) =>
        dispatches.foldl (dispatch flag) { x with managers := managers, inFlight := [] } := by
  rw [next_of_cons h.inFlight, h.managers]

end Begun

/-- The exchange is over with its first reply if all that comes of it are replies to `NoReply`. -/
theorem staysQuiet_of_next {x' : Exchange ω α}
    (hbegun : Begun (refusing managers workflows flag pointer request) managers workflows request)
    (hnext : (system host draws flag).next (refusing managers workflows flag pointer request) = some x')
    (hflight : ∀ reply ∈ x'.inFlight, reply.target.target = .noReply)
    (hsent : x'.sent = (refusing managers workflows flag pointer request).sent)
    (hopens : OpensNothing (fun p => (workflows p).workflow) x'.hosted) :
    StaysQuiet host draws flag managers workflows pointer request := by
  have hadvance : ∀ n, (system host draws flag).advance (n + 1)
      (refusing managers workflows flag pointer request) = { x' with inFlight := x'.inFlight.drop n } := by
    intro n
    rw [Reactive.System.advance_succ_of_next hnext, advance_of_noReply hflight]
  constructor
  · refine ⟨x'.inFlight.length + 1, ?_⟩
    rw [hadvance]
    exact List.drop_length
  · intro n
    cases n with
    | zero => exact hbegun.sent
    | succ n =>
      rw [hadvance]
      exact hsent.trans hbegun.sent
  · intro n
    cases n with
    | zero =>
      rw [Reactive.System.advance_zero, hbegun.hosted]
      exact fun _ _ h => h
    | succ n =>
      rw [hadvance]
      exact hopens

/-- Where the reply is to be answered, what comes of it must be replies to `NoReply`, and no session. -/
theorem staysQuiet_iff_of_next {x' : Exchange ω α} {replies : List Request}
    (hbegun : Begun (refusing managers workflows flag pointer request) managers workflows request)
    (hnext : (system host draws flag).next (refusing managers workflows flag pointer request) = some x')
    (hflight : x'.inFlight = replies)
    (hsent : x'.sent = (refusing managers workflows flag pointer request).sent ++
      replies.filter fun reply => reply.target.target ≠ .noReply) :
    StaysQuiet host draws flag managers workflows pointer request ↔
      (∀ reply ∈ replies, reply.target.target = .noReply) ∧
        OpensNothing (fun p => (workflows p).workflow) x'.hosted := by
  constructor
  · intro h
    have hone := h.one 1
    have hopens := h.opens 1
    rw [Reactive.System.advance_succ_of_next hnext, Reactive.System.advance_zero] at hone hopens
    rw [← hbegun.sent, hsent, List.append_right_eq_self] at hone
    exact ⟨filter_live_eq_nil.mp hone, hopens⟩
  · rintro ⟨hall, hopens⟩
    refine staysQuiet_of_next hbegun hnext (hflight ▸ hall) ?_ hopens
    rw [hsent, filter_live_eq_nil.mpr hall, List.append_nil]

theorem staysQuiet_of_noReply
    (hbegun : Begun (refusing managers workflows flag pointer request) managers workflows request)
    (hreply : request.reply.target = .noReply) :
    StaysQuiet host draws flag managers workflows pointer request := by
  have hnext : (system host draws flag).next (refusing managers workflows flag pointer request) =
      some { refusing managers workflows flag pointer request with inFlight := [] } := by
    rw [hbegun.next, ControllerManager.perform_of_noReply hreply, ← hbegun.managers]
    rfl
  refine staysQuiet_of_next hbegun hnext (fun _ h => absurd h List.not_mem_nil) rfl ?_
  rw [← hbegun.hosted]
  exact fun _ _ h => h

/-- **No storm of error replies.** The reply to a refused request is the last one, just when there is none or
it comes to rest. -/
theorem stays_quiet_iff (host : Host ω) (draws : Draws α) (flag : Bool)
    (hrefused : (workflows pointer).workflow.canExecuteRequest request = false) :
    StaysQuiet host draws flag managers workflows pointer request ↔
      request.reply.target = .noReply ∨
        managers.Rests (fun p => (workflows p).workflow) (Workflow.errorReply request) := by
  have hbegun := begun_refusing managers flag hrefused
  by_cases hreply : request.reply.target = .noReply
  · exact iff_of_true (staysQuiet_of_noReply hbegun hreply) (.inl hreply)
  have hkind : (Workflow.errorReply request).target.target ≠ .noReply := hreply
  rw [or_iff_right hreply]
  rcases perform_cases host draws managers hkind rfl with
    ⟨hnone, hrests⟩ | ⟨managers', dispatches, hperform, hshape, hrests⟩
  · -- there is no controller, and the exchange is stuck
    refine iff_of_false (fun h => ?_) (hrests _)
    have hnext : (system host draws flag).next (refusing managers workflows flag pointer request) = none := by
      rw [hbegun.next, hnone]
      rfl
    obtain ⟨n, hend⟩ := h.ends
    rw [Reactive.System.advance_of_settled hnext, hbegun.inFlight] at hend
    cases hend
  · obtain ⟨workflows', replies, hfold, hspec⟩ := foldl_dispatch_spec flag
      { refusing managers workflows flag pointer request with managers := managers', inFlight := [] } hkind hshape
    have hnext := hbegun.next host draws flag
    rw [hperform] at hnext
    have hflight := congrArg inFlight hfold
    have hsent := congrArg Exchange.sent hfold
    rw [staysQuiet_iff_of_next hbegun hnext hflight (hsent.trans (List.filter_append ..)), hrests,
      ← hbegun.hosted]
    exact hspec

end Refused

end Exchange

namespace Sample

open Exchange

def idle (_ : ℕ) : Working Unit := Workflow.opened (single .wait) (single_initialised .wait) ()

/-- A reply for a session that the workflow "one" does not have, to be answered to the workflow "other". -/
def stray : Request :=
  Request.ofTargets ⟨"default", "one", 1, 0, 0, .reply, 0⟩ ⟨"default", "other", 1, 0, 0, .reply, 0⟩

/-- There is no workflow "other". -/
theorem stray_stays_quiet :
    StaysQuiet host draws false (managers ((∅ : OrdMap String ℕ).insert "one" 0)) idle 0 stray := by
  refine (stays_quiet_iff host draws false rfl).mpr (.inr ?_)
  refine ⟨⟨false, (∅ : OrdMap String ℕ).insert "one" 0⟩, rfl, fun workflow h => ?_⟩
  cases h

def bothWorkflows : Managers ℕ := managers (((∅ : OrdMap String ℕ).insert "one" 0).insert "other" 1)

def forth : Request := Workflow.errorReply stray

def back : Request := Workflow.errorReply forth

/-- One of the two replies is under way, and nobody has a session for it. -/
structure Volley (x : Exchange Unit ℕ) : Prop where
  managers : x.managers = bothWorkflows
  sessions : ∀ p, (x.hosted p).sessions = ∅
  inFlight : x.inFlight = [forth] ∨ x.inFlight = [back]

theorem Volley.next {x : Exchange Unit ℕ} (h : Volley x) :
    ∃ x', (system host draws false).next x = some x' ∧ Volley x' := by
  -- each reply is posted to one of the workflows, which refuses it
  have hnext : ∀ (r : Request) (pointer : ℕ), x.inFlight = [r] →
      ControllerManager.perform host draws bothWorkflows r = some (bothWorkflows, [.posted pointer r]) →
      r.target.target = .reply → (Workflow.errorReply r = forth ∨ Workflow.errorReply r = back) →
      ∃ x', (system host draws false).next x = some x' ∧ Volley x' := by
    intro r pointer hflight hperform hkind hanswer
    have hrefused : (x.hosted pointer).canExecuteRequest r = false := by
      unfold Workflow.canExecuteRequest
      rw [h.sessions, hkind]
      rfl
    obtain ⟨workflows, hdeliver, hsame⟩ :=
      deliver_of_refused false { x with managers := bothWorkflows, inFlight := [] } hrefused
    refine ⟨{ x with managers := bothWorkflows, inFlight := [], workflows := workflows }.reply
      [Workflow.errorReply r], ?_, rfl, ?_, ?_⟩
    · rw [next_of_cons hflight, h.managers, hperform]
      exact congrArg some hdeliver
    · exact fun p => (congrArg Workflow.sessions (hsame p)).trans (h.sessions p)
    · exact hanswer.imp (congrArg (fun r => [r])) (congrArg (fun r => [r]))
  rcases h.inFlight with hflight | hflight
  · exact hnext forth 1 hflight rfl rfl (.inr rfl)
  · exact hnext back 0 hflight rfl rfl (.inl rfl)

/-- Two workflows without sessions answer each other for ever. -/
theorem storm_never_settles : (idle 0).workflow.canExecuteRequest stray = false ∧
    ¬(system host draws false).Settles (Exchange.refusing bothWorkflows idle false 0 stray) ∧
    ¬StaysQuiet host draws false bothWorkflows idle 0 stray := by
  have hstart : Volley (Exchange.refusing bothWorkflows idle false 0 stray) := by
    have hrefused : (idle 0).workflow.canExecuteRequest stray = false := rfl
    obtain ⟨workflows, hdeliver, hsame⟩ := deliver_of_refused false ⟨bothWorkflows, idle, [], []⟩ hrefused
    rw [Exchange.refusing, hdeliver]
    exact ⟨rfl, fun p => congrArg Workflow.sessions (hsame p), .inl rfl⟩
  have hunsettled : ¬(system host draws false).Settles (Exchange.refusing bothWorkflows idle false 0 stray) := by
    refine Reactive.System.not_settles_of_recurs (P := Volley) (fun x hx => ?_) (fun x hx => ⟨0, ?_⟩) hstart
    · obtain ⟨x', hnext, -⟩ := hx.next
      rw [hnext]
      exact Option.some_ne_none x'
    · obtain ⟨x', hnext, hvolley⟩ := hx.next
      rw [Reactive.System.advance_succ_of_next hnext]
      exact hvolley
  refine ⟨rfl, hunsettled, fun h => hunsettled ?_⟩
  obtain ⟨n, hend⟩ := h.ends
  exact ⟨n, next_of_empty hend⟩

end Sample

end LibWorkflow
