import LibWorkflow.Service.Routing

/-!
# Requests that vanish

Every request the manager of the controllers is given is to be handed on, once, or answered by an error
report. It is, but for a client and for a workflow that nobody knows, of which the code only writes a log
line, and but for an invalid workflow under a name that is taken, whose request is answered and handed on
(`accounted_iff`).
-/

namespace LibWorkflow

open Ordered

variable {ω α : Type}

/-- The request as it is handed to a workflow: a `TemporaryController` may have set its target. -/
def Request.Becomes (req r : Request) : Prop := r = req ∨ ∃ workflow, r = TemporaryController.retarget req workflow

/-- A reply with an error report, to where the request is to be replied. -/
structure Request.ReportedBy (req rep : Request) : Prop where
  report : rep.report.isSome = true
  target : rep.target = { req.reply with target := rep.target.target }
  reply : rep.reply = req.target
  requestId : rep.requestId = req.requestId

/-- A reply to `NoReply` goes nowhere. -/
def Dispatch.counts : Dispatch α → Bool
  | .replied reply => reply.target.target ≠ .noReply
  | _ => true

/-- The request is handed on once, or answered once if it can be. -/
inductive Accounted (req : Request) : List (Dispatch α) → Prop
  | posted (workflow : α) (r : Request) (h : req.Becomes r) : Accounted req [.posted workflow r]
  | sent : Accounted req [.sent req.target.clientId req]
  | reported (rep : Request) (hreply : req.reply.target ≠ .noReply) (h : req.ReportedBy rep) :
      Accounted req [.replied rep]
  | unanswerable (hreply : req.reply.target = .noReply) : Accounted req []

def ControllerManager.Accounts (host : Host ω) (draws : Draws α) (s : Managers α) (req : Request) : Prop :=
  ∃ s' dispatches, perform host draws s req = some (s', dispatches) ∧
    Accounted req (dispatches.filter Dispatch.counts)

/-- A request that can be answered names a client that is there, or carries a valid workflow, or one whose
name is not taken, or else reaches a controller that answers it or has the workflow it names. -/
structure ControllerManager.Deliverable (host : Host ω) (draws : Draws α) (s : Managers α) (req : Request) :
    Prop where
  client : req.target.clientId ≠ 0 → s.clients.contains req.target.clientId = true
  provided : req.target.clientId = 0 → req.workflowJson.isEmpty = false →
    let workflow := TemporaryController.makeWorkflow host draws.uuid req.workflowJson
    workflow.stateMachine.validate = none ∨
      ∀ c, s.controllers.find? "temporary" = some c → c.workflows.contains workflow.name = false
  named : req.target.clientId = 0 → req.workflowJson.isEmpty = true →
    ∀ c, s.controllers.find? (controllerName s req) = some c →
      c.temporary = true ∧ req.target.target ≠ .reply ∨ c.workflows.contains req.target.workflow = true

/-! ### The ways out -/

@[simp] theorem accounted_nil_iff {req : Request} :
    Accounted req ([] : List (Dispatch α)) ↔ req.reply.target = .noReply :=
  ⟨fun h => by cases h; assumption, .unanswerable⟩

theorem accounted_perform_iff (c : Controller α) {req r : Request} (h : req.Becomes r) :
    Accounted req ((c.perform r).dispatches.filter Dispatch.counts) ↔
      req.reply.target = .noReply ∨ c.workflows.contains r.target.workflow = true := by
  unfold OrdMap.contains
  cases hfind : c.workflows.find? r.target.workflow with
  | none =>
    rw [Controller.perform_of_absent hfind]
    simp
  | some workflow =>
    rw [Controller.perform_of_find? hfind]
    exact iff_of_true (.posted workflow r h) (.inr rfl)

theorem accounted_clientManager_iff (clients : OrdMap UUID Client) (refusal : ErrorReport) (req : Request) :
    Accounted req ((ClientManager.perform clients refusal req).2.2.filter (Dispatch.counts (α := α))) ↔
      req.reply.target = .noReply ∨ clients.contains req.target.clientId = true := by
  unfold OrdMap.contains
  cases hfind : clients.find? req.target.clientId with
  | none =>
    rw [ClientManager.perform_of_unknown hfind]
    simp
  | some client =>
    refine iff_of_true ?_ (.inr rfl)
    cases hsend : client.sendRequest req with
    | some client' =>
      rw [ClientManager.perform_of_sent hfind hsend]
      exact .sent
    | none =>
      rw [ClientManager.perform_of_refused hfind hsend]
      split_ifs with hreply
      · exact .unanswerable hreply
      · exact .reported _ hreply ⟨rfl, rfl, rfl, rfl⟩

theorem filter_errorReply (p : Platform) (identifier : UUID) (key message : String) (req : Request)
    (dispatches : List (Dispatch α)) :
    (.replied (TemporaryController.errorReply p identifier key message req) :: dispatches).filter Dispatch.counts =
      if req.reply.target = .noReply then dispatches.filter Dispatch.counts
      else .replied (TemporaryController.errorReply p identifier key message req) ::
        dispatches.filter Dispatch.counts := by
  have hkind : (TemporaryController.errorReply p identifier key message req).target.target =
      req.reply.target := rfl
  by_cases hreply : req.reply.target = .noReply
  · simp [Dispatch.counts, hkind, hreply]
  · simp [Dispatch.counts, hkind, hreply]

theorem reportedBy_errorReply (p : Platform) (identifier : UUID) (key message : String) (req : Request) :
    req.ReportedBy (TemporaryController.errorReply p identifier key message req) := ⟨rfl, rfl, rfl, rfl⟩

theorem accounted_errorReply (p : Platform) (identifier : UUID) (key message : String) (req : Request) :
    Accounted req ((.replied (TemporaryController.errorReply p identifier key message req) ::
      ([] : List (Dispatch α))).filter Dispatch.counts) := by
  rw [filter_errorReply]
  split_ifs with hreply
  · exact .unanswerable hreply
  · exact .reported _ hreply (reportedBy_errorReply ..)

/-- A controller that is given a request without a workflow. -/
theorem accounted_named_iff (host : Host ω) (draws : Draws α) (c : Controller α) {req : Request}
    (hjson : req.workflowJson.isEmpty = true) :
    Accounted req ((c.virtualPerform host draws req).dispatches.filter Dispatch.counts) ↔
      req.reply.target = .noReply ∨
        (c.temporary = true ∧ req.target.target ≠ .reply ∨ c.workflows.contains req.target.workflow = true) := by
  have hperform := accounted_perform_iff c (.inl rfl : req.Becomes req)
  unfold Controller.virtualPerform
  split_ifs with htemporary
  · by_cases hkind : req.target.target = .reply
    · rw [TemporaryController.perform_of_reply hjson hkind, hperform]
      simp [hkind]
    · rw [TemporaryController.perform_of_empty hjson hkind]
      exact iff_of_true (accounted_errorReply ..) (.inr (.inl ⟨htemporary, hkind⟩))
  · rw [hperform]
    simp [htemporary]

theorem accounted_provided_iff (host : Host ω) (draws : Draws α) (c : Controller α) {req : Request}
    {workflow : ProvidedWorkflow ω} (hjson : req.workflowJson.isEmpty = false)
    (hworkflow : TemporaryController.makeWorkflow host draws.uuid req.workflowJson = workflow) :
    Accounted req ((TemporaryController.perform host draws c req).dispatches.filter Dispatch.counts) ↔
      req.reply.target = .noReply ∨
        (workflow.stateMachine.validate = none ∨ c.workflows.contains workflow.name = false) := by
  have hbecomes : req.Becomes (TemporaryController.retarget req workflow.name) := .inr ⟨workflow.name, rfl⟩
  cases hvalidate : workflow.stateMachine.validate with
  | none =>
    rw [TemporaryController.perform_of_valid hjson hworkflow hvalidate]
    exact iff_of_true (.posted _ _ hbecomes) (.inr (.inl rfl))
  | some er =>
    obtain ⟨key, message⟩ := er
    rw [TemporaryController.perform_of_invalid hjson hworkflow hvalidate, filter_errorReply]
    by_cases hreply : req.reply.target = .noReply
    · rw [if_pos hreply, accounted_perform_iff c hbecomes]
      exact iff_of_true (.inl hreply) (.inl hreply)
    · -- the request is answered, so it must not be handed on
      rw [if_neg hreply]
      have hname : (TemporaryController.retarget req workflow.name).target.workflow = workflow.name := rfl
      unfold OrdMap.contains
      cases hfind : c.workflows.find? workflow.name with
      | none =>
        rw [Controller.perform_of_absent (hname ▸ hfind)]
        exact iff_of_true (.reported _ hreply (reportedBy_errorReply ..)) (.inr (.inr rfl))
      | some other =>
        rw [Controller.perform_of_find? (hname ▸ hfind)]
        refine iff_of_false (fun h => ?_) ?_
        · cases h
        · simp [hreply]

/-! ### The manager -/

namespace ControllerManager

variable {host : Host ω} {draws : Draws α} {s : Managers α} {req : Request}

theorem accounts_iff_of_perform {s' : Managers α} {dispatches : List (Dispatch α)}
    (h : perform host draws s req = some (s', dispatches)) :
    Accounts host draws s req ↔ Accounted req (dispatches.filter Dispatch.counts) := by
  constructor
  · rintro ⟨s'', dispatches', hperform, haccounted⟩
    cases h.symm.trans hperform
    exact haccounted
  · exact fun haccounted => ⟨s', dispatches, h, haccounted⟩

/-- Without a client, what accounts for the request is left to one controller. -/
theorem accounts_iff_of_find? (hkind : req.target.target ≠ .noReply) (hclient : req.target.clientId = 0)
    {c : Controller α} (hfind : s.controllers.find? (controllerName s req) = some c) :
    Accounts host draws s req ↔
      Accounted req ((c.virtualPerform host draws req).dispatches.filter Dispatch.counts) := by
  have hperform : perform host draws s req =
      let performed := c.virtualPerform host draws req
      some ({ s with controllers := s.controllers.insert (controllerName s req) performed.controller },
        performed.dispatches) := by
    rw [perform_of_controller hkind hclient, hfind]
    rfl
  exact accounts_iff_of_perform hperform

/-- With the default controller some controller is found. -/
theorem exists_controller (hdefault : s.controllers.contains "default" = true)
    (hjson : req.workflowJson.isEmpty = true) : ∃ c, s.controllers.find? (controllerName s req) = some c := by
  apply Option.isSome_iff_exists.mp
  rw [controllerName, if_neg (not_not.mpr hjson)]
  split_ifs with hnamed
  · exact hnamed
  · exact hdefault

/-- **No request vanishes**, just when it is deliverable or need not be answered. -/
theorem accounted_iff (host : Host ω) (draws : Draws α) (s : Managers α) (req : Request)
    (hdefault : s.controllers.contains "default" = true)
    (htemporary : ∃ c, s.controllers.find? "temporary" = some c ∧ c.temporary = true)
    (hkind : req.target.target ≠ .noReply) :
    Accounts host draws s req ↔ req.reply.target = .noReply ∨ Deliverable host draws s req := by
  by_cases hclient : req.target.clientId = 0
  · cases hjson : req.workflowJson.isEmpty with
    | true =>
      obtain ⟨c, hfind⟩ := exists_controller hdefault hjson
      rw [accounts_iff_of_find? hkind hclient hfind, accounted_named_iff host draws c hjson]
      refine or_congr_right ⟨fun h => ⟨absurd hclient, ?_, ?_⟩, fun h => h.named hclient hjson c hfind⟩
      · intro _ hempty
        rw [hjson] at hempty
        cases hempty
      · intro _ _ c' hfind'
        cases hfind.symm.trans hfind'
        exact h
    | false =>
      obtain ⟨c, hfind, htemporary⟩ := htemporary
      have hname : controllerName s req = "temporary" := by rw [controllerName, if_pos (by simp [hjson])]
      rw [accounts_iff_of_find? hkind hclient (hname ▸ hfind), Controller.virtualPerform, if_pos htemporary,
        accounted_provided_iff host draws c hjson rfl]
      refine or_congr_right ⟨fun h => ⟨absurd hclient, ?_, ?_⟩, fun h => ?_⟩
      · refine fun _ _ => h.imp_right fun htaken c' hfind' => ?_
        cases hfind.symm.trans hfind'
        exact htaken
      · intro _ hempty
        rw [hjson] at hempty
        cases hempty
      · exact (h.provided hclient hjson).imp_right fun htaken => htaken c hfind
  · rw [accounts_iff_of_perform (perform_of_client hkind hclient), accounted_clientManager_iff]
    exact or_congr_right ⟨fun h => ⟨fun _ => h, fun h0 => absurd h0 hclient, fun h0 => absurd h0 hclient⟩,
      fun h => h.client hclient⟩

end ControllerManager

namespace Sample

/-- The workflow is there. -/
theorem found_accounted :
    ControllerManager.Accounts host draws (managers ((∅ : OrdMap String ℕ).insert "workflow" 0))
      (request .defaultAction 0 0) := by
  refine (ControllerManager.accounted_iff host draws _ _ rfl ⟨_, rfl, rfl⟩ (by decide)).mpr (.inr ⟨?_, ?_, ?_⟩)
  · exact fun h => absurd rfl h
  · intro _ h
    exact absurd h (by decide)
  · intro _ _ c hfind
    cases hfind
    exact .inr rfl

/-- The workflow is not there, and its client waits for a reply. -/
theorem request_vanishes : (managers ∅).controllers.contains "default" = true ∧
    (∃ c, (managers ∅).controllers.find? "temporary" = some c ∧ c.temporary = true) ∧
    (request .defaultAction 0 0).target.target ≠ .noReply ∧ (request .defaultAction 0 0).reply.target = .reply ∧
    ¬ ControllerManager.Accounts host draws (managers ∅) (request .defaultAction 0 0) := by
  refine ⟨rfl, ⟨_, rfl, rfl⟩, by decide, rfl, fun h => ?_⟩
  rw [ControllerManager.accounts_iff_of_perform rfl] at h
  exact absurd (accounted_nil_iff.mp h) (by decide)

end Sample

end LibWorkflow
