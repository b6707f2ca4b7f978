import LibWorkflow.Core.Workflow
import LibWorkflow.Flow.Graph
import LibWorkflow.Flow.Reply

/-!
# Status requests

`execute` has a branch for Status requests, which performs the action registered at `Step::Status`. But
`addAction` refuses that id, so there never is one, and a Status request that opens a session is its
first call like any other: whatever the owner of a workflow adds, no Status request is served
(`status_never_served`).
-/

namespace LibWorkflow

open Ordered

namespace StateMachine

variable {ω : Type} {m : StateMachine ω}

/-- The request performs the Status action once, and does nothing else to the session. -/
def ServesStatus (m : StateMachine ω) (w : World ω) (request : Request) : Prop :=
  ∃ w', m.Returns w (.request request) w' ∧
    performedIds w'.trace = performedIds w.trace ++ [Step.status.id] ∧
    replies w'.trace = replies w.trace ∧ w'.session.nexts = w.session.nexts ∧
    w'.session.pendings = w.session.pendings ∧ w'.session.status = w.session.status

def PerformsRegistered (m : StateMachine ω) (trace : List Event) : Prop :=
  ∀ id ∈ performedIds trace, m.Registered id

theorem performsRegistered_nil : m.PerformsRegistered [] := fun _ h => absurd h List.not_mem_nil

theorem makeCall_performsRegistered (hm : m.Laid) {w : World ω} {call : Call} {out : Onward ω}
    (hw : m.PerformsRegistered w.trace) (h : m.makeCall w call = .ok out) :
    m.PerformsRegistered out.1.trace := by
  cases call with
  | executeAction id =>
    cases executeAction_cases h with
    | die =>
      intro a ha
      rw [World.emit, performedIds_append] at ha
      simp only [performedIds, List.filterMap_cons, Event.performedId?, List.filterMap_nil,
        List.append_nil] at ha
      exact hw a ha
    | nothing h => exact (executeNone_trace h).symm ▸ hw
    | action _ _ hptr hperform =>
      intro a ha
      rw [performedIds_perform hm hptr hperform] at ha
      rcases List.mem_append.mp ha with ha | ha
      · exact hw a ha
      · rw [List.mem_singleton.mp ha]
        exact ⟨_, hptr⟩
    | absent => exact hw
  | actionExecuted result =>
    obtain ⟨ptr, -, hconsumed⟩ := actionExecuted_cases h
    cases hconsumed <;> exact hw

theorem receive_performsRegistered (hm : m.Laid) {w : World ω} {message : Message} {out : Onward ω}
    (hw : m.PerformsRegistered w.trace) (h : m.receive w message = .ok out) :
    m.PerformsRegistered out.1.trace := by
  cases receive_cases hm h with
  | firstCall _ h =>
    obtain ⟨complete, s, -, ⟨-, next, s', -, rfl⟩ | ⟨-, rfl⟩⟩ := firstCall_cases h
    · exact hw
    · exact hw
  | @answered request ptr _ _ _ _ _ _ hreply =>
    obtain ⟨sent, htrace⟩ := ptr.trace_of_replyReceived hreply
    have hreceived : performedIds (.replyReceived ptr.getActionId request :: sent.map Event.sent) = [] :=
      performedIds_sent sent
    unfold PerformsRegistered
    rw [htrace, performedIds_append, hreceived, List.append_nil]
    exact hw
  | reset => exact hw
  | ignored => exact hw
  | finished h =>
    have hcall : m.makeCall w (.actionExecuted _) = .ok out := h
    exact makeCall_performsRegistered hm hw hcall

/-- From any state on, only what is registered is performed. -/
theorem run_performsRegistered (hm : m.Laid) {start c : Config ω} (hrun : m.system.Reachable start c)
    (hstart : m.PerformsRegistered start.world.trace) : m.PerformsRegistered c.world.trace := by
  have hafter : ∀ out : Onward ω, m.PerformsRegistered out.1.trace →
      m.PerformsRegistered (Config.after out).world.trace :=
    fun out h => (Config.world_after out).symm ▸ h
  refine run_induction (I := fun c => m.PerformsRegistered c.world.trace) hrun hstart ?_ ?_ ?_ ?_
  · intro call w out hw _ h
    exact hafter out (makeCall_performsRegistered hm hw h)
  · intro message w out hw _ h
    exact hafter out (receive_performsRegistered hm hw h)
  · exact fun call w fault hw _ _ => hw
  · exact fun message w fault hw _ _ => hw

theorem not_servesStatus (hm : m.Laid) {w : World ω} (hw : m.PerformsRegistered w.trace) (request : Request) :
    ¬m.ServesStatus w request := by
  rintro ⟨w', ⟨n, hreturns⟩, hperformed, -⟩
  have haccept : m.system.accept (.returned w) (.request request) =
      some (.ofStep w (m.receive w (.request request))) := rfl
  have hrun : m.system.Reachable (.returned w) (.returned w') :=
    hreturns ▸ .advance (fun _ => trivial) (.input .start trivial haccept) n
  have hstatus : Step.status.id ∈ performedIds w'.trace := by
    rw [hperformed]
    exact List.mem_append_right _ (List.mem_singleton.mpr rfl)
  exact hm.not_registered (.inr (.inr rfl)) (run_performsRegistered hm hrun hw _ hstatus)

/-- **Status requests.** Whatever else the owner lays out, a workflow given a Status action serves no
Status request it accepts, with or without a session for it. -/
theorem status_never_served {n : StateMachine ω} (_hn : Initialised n) (action : Action ω)
    (bindings : List OutputBinding) (w : Workflow ω)
    (_hw : Extends (n.addAction Step.status.id action bindings) w.stateMachine) {request : Request}
    (_hkind : request.target.target = .status) (_haccepted : w.canExecuteRequest request = true) (flag : Bool)
    (env : ω) : ¬w.stateMachine.ServesStatus ⟨(w.rsession request flag).session, env, []⟩ request :=
  not_servesStatus w.initialised.laid performsRegistered_nil request

end StateMachine

namespace Sample

open StateMachine

def watched : Workflow Unit :=
  .new ((single .wait).addAction Step.status.id (returning .done) [])
    ((single_initialised .wait).addAction _ _ _)

theorem status_not_served :
    ¬watched.stateMachine.ServesStatus
      ⟨(watched.rsession (request .status 0 0) false).session, (), []⟩ (request .status 0 0) :=
  status_never_served (single_initialised .wait) (returning .done) [] watched .refl rfl (by decide) false ()

/-- The Status request is taken for a first call: it performs the starter, and its session is left
waiting. -/
theorem status_starts : watched.canExecuteRequest (request .status 0 0) = true ∧
    performedIds (watched.stateMachine.system.advance 30 (.ofStep
      ⟨(watched.rsession (request .status 0 0) false).session, (), []⟩
      (watched.stateMachine.receive ⟨(watched.rsession (request .status 0 0) false).session, (), []⟩
        (.request (request .status 0 0))))).world.trace = [0] ∧
    ¬watched.stateMachine.ServesStatus
      ⟨(watched.rsession (request .status 0 0) false).session, (), []⟩ (request .status 0 0) :=
  ⟨by decide, by decide, not_servesStatus watched.initialised.laid performsRegistered_nil _⟩

end Sample

end LibWorkflow
