import LibWorkflow.Flow.Graph
import LibWorkflow.Sessions.Entries

/-!
# One session among the others

A run of a workflow as one of its sessions sees it: a transition applies one function of the engine to
the session, or leaves it alone (`exists_works`). Along a run a session keeps the request it was opened
with, and its execution level as long as none of the steps that raise it is performed (`run_remains`);
the entries a transition is not about it leaves as they are (`find?_of_moved`).
-/

namespace LibWorkflow

open Ordered Fallible

def Occurrence.event? (x : UUID) : Occurrence → Option Event
  | .session id event => if id = x then some event else none
  | _ => none

/-- What is seen of the session `x`, the oldest first. -/
def Working.events {ω : Type} (c : Working ω) (x : UUID) : List Event :=
  c.history.filterMap (Occurrence.event? x)

def Arrival.id : Arrival → UUID
  | .perform request _ => request.getId
  | .asyncFinished id _ => id

def Arrival.message : Arrival → Message
  | .perform request _ => .request request
  | .asyncFinished _ result => .asyncFinished result

/-- No step at which the level is raised is among the performed actions. -/
def KeepsLevel (events : List Event) : Prop :=
  ∀ step ∈ Step.aborting, step.id ∉ StateMachine.performedIds events

/-! ### The engine -/

namespace StateMachine

variable {ω : Type} {m : StateMachine ω} {env : ω} {s s' : Session} {events : List Event}

theorem exists_aborting_of_wrapper (hm : m.Laid) {id : ℤ} {ptr : ActionPtr ω}
    (hptr : m.actions.find? id = some ptr) (hwrapper : ptr.wrapper ≠ none) :
    ∃ step ∈ Step.aborting, step.id = id := by
  rw [hm.wrapper hptr] at hwrapper
  unfold wrapperOf at hwrapper
  split_ifs at hwrapper with h₁ h₂ h₃ h₄
  · exact ⟨.interrupt, by decide, h₁.symm⟩
  · exact ⟨.error, by decide, h₂.symm⟩
  · exact ⟨.finish, by decide, h₃.symm⟩
  · exact ⟨.cleanup, by decide, h₄.symm⟩
  · exact absurd rfl hwrapper

theorem mem_performedIds_of_executeAction (hm : m.Laid) {id : ℤ} {ptr : ActionPtr ω}
    (hptr : m.actions.find? id = some ptr) {w : World ω} {out : Onward ω} (h : m.executeAction w id = .ok out) :
    id ∈ performedIds out.1.trace := by
  obtain ⟨hdie, hneg⟩ := hm.not_special ⟨ptr, hptr⟩
  obtain ⟨w', result, hexec, hperform⟩ := executeAction_of_find? hdie hneg hptr w
  cases h.symm.trans hexec
  rw [performedIds_perform hm hptr hperform]
  exact List.mem_append_right _ (List.mem_singleton.mpr rfl)

/-- What a call of the engine makes of the session `s`, or a message it takes, and what it leaves behind;
nothing where it crashes, or is not made. -/
inductive Works (m : StateMachine ω) (env : ω) (s : Session) : Option Message → Session → List Event → Prop
  | nothing {received : Option Message} : Works m env s received s []
  | call {call : Call} {out : Onward ω} (h : m.makeCall ⟨s, env, []⟩ call = .ok out) :
      Works m env s none out.1.session out.1.trace
  | message {message : Message} {out : Onward ω} (h : m.receive ⟨s, env, []⟩ message = .ok out) :
      Works m env s (some message) out.1.session out.1.trace

theorem Works.executed {request : Request} {out : Onward ω} (h : m.execute ⟨s, env, []⟩ request = .ok out) :
    m.Works env s (some (.request request)) out.1.session out.1.trace := by
  have hreceive : m.receive ⟨s, env, []⟩ (.request request) = .ok out := h
  exact .message hreceive

theorem Works.finished {result : Result} {out : Onward ω} (h : m.actionExecuted ⟨s, env, []⟩ result = .ok out) :
    m.Works env s (some (.asyncFinished result)) out.1.session out.1.trace := by
  have hreceive : m.receive ⟨s, env, []⟩ (.asyncFinished result) = .ok out := h
  exact .message hreceive

theorem Works.sameHeader (hm : m.Laid) {message : Message} (h : m.Works env s (some message) s' events) :
    s.SameHeader s' := by
  cases h with
  | nothing => exact .refl s
  | message h => exact receive_sameHeader hm h

theorem Works.lasts (hm : m.Laid) {received : Option Message} (h : m.Works env s received s' events) :
    s'.request = s.request ∧ s'.finished = s.finished ∧
      (KeepsLevel events → s'.currentExecutionLevel = s.currentExecutionLevel) := by
  have hheader : s.SameHeader s' → s'.request = s.request ∧ s'.finished = s.finished ∧
      (KeepsLevel events → s'.currentExecutionLevel = s.currentExecutionLevel) :=
    fun hsame => ⟨hsame.request, hsame.finished, fun _ => hsame.currentExecutionLevel⟩
  cases h with
  | nothing => exact hheader (.refl s)
  | message h => exact hheader (receive_sameHeader hm h)
  | call h =>
    rcases makeCall_sameHeader h with hsame | ⟨id, ptr, rfl, hptr, hsame⟩
    · exact hheader hsame
    have hbegin := sameHeader_beginAction (m := m) s id
    refine ⟨hsame.request.trans ((ptr.wrapped_request _).trans hbegin.request), hsame.finished.trans ?_,
      fun hlevelKept => ?_⟩
    · exact (ptr.wrapped_finished _).trans hbegin.finished
    by_cases hwrapper : ptr.wrapper = none
    · rw [hsame.currentExecutionLevel, ActionPtr.wrapped, if_pos hwrapper]
      exact hbegin.currentExecutionLevel
    · obtain ⟨step, hstep, rfl⟩ := exists_aborting_of_wrapper hm hptr hwrapper
      exact absurd (mem_performedIds_of_executeAction hm hptr h) (hlevelKept step hstep)

end StateMachine

theorem keepsLevel_append {events events' : List Event} :
    KeepsLevel (events ++ events') ↔ KeepsLevel events ∧ KeepsLevel events' := by
  unfold KeepsLevel
  simp only [StateMachine.performedIds_append, List.mem_append, not_or, imp_and, forall_and]

/-! ### One transition -/

namespace Working

variable {ω : Type} {c c' : Working ω} {x : UUID}

theorem events_append {l : List Occurrence} (h : c'.history = c.history ++ l) (x : UUID) :
    c'.events x = c.events x ++ l.filterMap (Occurrence.event? x) := by
  unfold events
  rw [h, List.filterMap_append]

theorem filterMap_event?_self (x : UUID) (events : List Event) :
    (events.map (Occurrence.session x)).filterMap (Occurrence.event? x) = events := by
  induction events with
  | nil => rfl
  | cons event events ih => simp [Occurrence.event?, ih]

theorem filterMap_event?_of_ne {y : UUID} (h : y ≠ x) (events : List Event) :
    (events.map (Occurrence.session y)).filterMap (Occurrence.event? x) = [] := by
  induction events with
  | nil => rfl
  | cons event events ih => simp [Occurrence.event?, h, ih]

end Working

namespace Workflow

variable {ω : Type} {c c' : Working ω} {label : Option Arrival} {x : UUID}

theorem stateMachine_of_moved (h : Moved c label c') : c'.workflow.stateMachine = c.workflow.stateMachine := by
  have hengages : ∀ {b : Working ω} {id performing rsession rest}, Engages b id performing rsession rest c' →
      b.workflow = c.workflow → c'.workflow.stateMachine = c.workflow.stateMachine := by
    intro b id performing rsession rest h hb
    obtain ⟨s, -, hworkflow⟩ := h.workflow
    rw [hworkflow, ← hb]
    rfl
  cases h with
  | called _ _ _ h => exact hengages h rfl
  | returned =>
    unfold Working.leave
    split_ifs <;> rfl
  | refused => rfl
  | parked _ _ hworkflow =>
    dsimp only [Working.record]
    rw [hworkflow]
    rfl
  | handed _ _ h => exact hengages h rfl
  | finishing _ h => exact hengages h rfl

theorem stateMachine_of_run {guard : Working ω → Option Arrival → Prop} (hrun : (system ω).Run guard c c') :
    c'.workflow.stateMachine = c.workflow.stateMachine :=
  hrun.invariant (I := fun d => d.workflow.stateMachine = c.workflow.stateMachine) rfl
    fun _ _ _ hsame _ htrans => (stateMachine_of_moved (moved_of_trans htrans)).trans hsame

theorem eq_perform_of_accept {request : Request} {flag : Bool}
    (h : (system ω).accept c (.perform request flag) = some c') : c' = c.perform request flag := by
  simp only [system] at h
  split at h
  · rename_i heq
    cases heq
    exact (Option.some.inj h).symm
  · rename_i heq
    cases heq
  · cases h

/-- What a transition is not about it leaves as it is. -/
theorem find?_of_moved (h : Moved c label c') (hcalls : ∀ execution rest, label = none →
      c.calls = execution :: rest → execution.id ≠ x)
    (harrival : ∀ arrival, label = some arrival → arrival.id ≠ x) :
    c'.workflow.sessions.find? x = c.workflow.sessions.find? x ∧ c'.events x = c.events x := by
  have hengages : ∀ {b : Working ω} {id performing rsession rest}, Engages b id performing rsession rest c' →
      id ≠ x → b.workflow = c.workflow → b.events x = c.events x →
      c'.workflow.sessions.find? x = c.workflow.sessions.find? x ∧ c'.events x = c.events x := by
    intro b id performing rsession rest h hne hworkflow hevents
    obtain ⟨s, -, hstore⟩ := h.workflow
    obtain ⟨events, hhistory⟩ := h.history
    rw [hstore, find?_store, if_neg hne.symm, hworkflow, Working.events_append hhistory,
      Working.filterMap_event?_of_ne hne, List.append_nil]
    exact ⟨rfl, hevents⟩
  cases h with
  | called hc _ _ h => exact hengages h (hcalls _ _ rfl hc) rfl rfl
  | @returned execution rsession rest hc =>
    have hne := hcalls _ _ rfl hc
    have hstored := (find?_store c.workflow execution.id x { rsession with active := false }).trans
      (if_neg hne.symm)
    unfold Working.leave
    split_ifs
    · refine ⟨?_, rfl⟩
      dsimp only [erase]
      rw [OrdMap.find?_erase, if_neg hne.symm]
      exact hstored
    · exact ⟨hstored, rfl⟩
    · exact ⟨rfl, rfl⟩
  | refused =>
    refine ⟨rfl, ?_⟩
    rw [Working.events_append (c := c) rfl]
    exact List.append_nil _
  | @parked request flag _ _ _ hworkflow =>
    have hne : request.getId ≠ x := harrival _ rfl
    refine ⟨?_, ?_⟩
    · dsimp only [Working.record]
      rw [hworkflow, find?_store, if_neg hne.symm]
    · rw [Working.events_append (c := c) rfl]
      exact List.append_nil _
  | handed _ _ h =>
    refine hengages h (harrival _ rfl) rfl ?_
    rw [Working.events_append (c := c) rfl]
    exact List.append_nil _
  | finishing _ h => exact hengages h (harrival _ rfl) rfl rfl

theorem engage_works {m : StateMachine ω} {received : Option Message} (c : Working ω) (x : UUID)
    (performing : Bool) (rsession : RunningSession) (rest : List Execution) {f : World ω → Except Fault (Onward ω)}
    (hf : ∀ out, f ⟨rsession.session, c.env, []⟩ = .ok out →
      m.Works c.env rsession.session received out.1.session out.1.trace) :
    ∃ rsession' events, (c.engage x performing rsession rest f).workflow.sessions.find? x = some rsession' ∧
      (c.engage x performing rsession rest f).events x = c.events x ++ events ∧
      m.Works c.env rsession.session received rsession'.session events := by
  unfold Working.engage
  cases hout : f ⟨rsession.session, c.env, []⟩ with
  | error fault =>
    refine ⟨rsession, [], ?_, (List.append_nil _).symm, .nothing⟩
    exact (find?_store ..).trans (if_pos rfl)
  | ok out =>
    have hworks := hf out hout
    obtain ⟨w, next⟩ := out
    refine ⟨{ rsession with session := w.session }, w.trace, (find?_store ..).trans (if_pos rfl), ?_, hworks⟩
    rw [Working.events_append (c := c) rfl, Working.filterMap_event?_self]

/-- A request that is accepted is executed with the session of its entry, which is made if there is none,
or queued. -/
theorem perform_works {request : Request} (hcan : c.workflow.canExecuteRequest request = true) (flag : Bool) :
    ∃ rsession' events, (c.perform request flag).workflow.sessions.find? request.getId = some rsession' ∧
      (c.perform request flag).events request.getId = c.events request.getId ++ events ∧
      c.workflow.stateMachine.Works c.env (c.workflow.rsession request flag).session (some (.request request))
        rsession'.session events := by
  have hrecorded : ∀ l : List Occurrence, l.filterMap (Occurrence.event? request.getId) = [] →
      (c.record l).events request.getId = c.events request.getId := fun l hl => by
    rw [Working.events_append (c := c) (l := l) rfl, hl, List.append_nil]
  unfold Working.perform
  rw [if_pos hcan]
  dsimp only
  split_ifs
  · refine ⟨(c.workflow.rsession request flag).addToPending request, [], ?_, ?_, .nothing⟩
    · exact (find?_store ..).trans (if_pos rfl)
    · exact (hrecorded [.accepted request] rfl).trans (List.append_nil _).symm
  · obtain ⟨rsession', events, hfind, hevents, hworks⟩ := engage_works (m := c.workflow.stateMachine)
      (c.record [.accepted request, .handed request]) request.getId true
      { c.workflow.rsession request flag with active := true } c.calls
      (f := (c.workflow.stateMachine.execute · request)) fun out hout => .executed hout
    refine ⟨rsession', events, hfind, hevents.trans ?_, hworks⟩
    exact congrArg (· ++ events) (hrecorded [.accepted request, .handed request] rfl)

/-- What a transition is not about does nothing. -/
theorem exists_works_of_ne (h : Moved c label c') {rsession : RunningSession}
    (hfind : c.workflow.sessions.find? x = some rsession)
    (hcalls : ∀ execution rest, label = none → c.calls = execution :: rest → execution.id ≠ x)
    (harrival : ∀ arrival, label = some arrival → arrival.id ≠ x) :
    ∃ rsession' events, c'.workflow.sessions.find? x = some rsession' ∧ c'.events x = c.events x ++ events ∧
      c.workflow.stateMachine.Works c.env rsession.session (label.map Arrival.message) rsession'.session
        events := by
  obtain ⟨hsame, hevents⟩ := find?_of_moved h hcalls harrival
  exact ⟨rsession, [], hsame.trans hfind, by rw [hevents, List.append_nil], .nothing⟩

theorem exists_works_of_next (h : (system ω).next c = some c') {rsession : RunningSession}
    (hfind : c.workflow.sessions.find? x = some rsession) (hlive : rsession.session.finished = false) :
    ∃ rsession' events, c'.workflow.sessions.find? x = some rsession' ∧ c'.events x = c.events x ++ events ∧
      c.workflow.stateMachine.Works c.env rsession.session none rsession'.session events := by
  have hmoved := moved_of_trans (.internal h)
  simp only [system] at h
  split at h
  · rename_i execution rest _ hcalls
    by_cases hid : execution.id = x
    · obtain ⟨rsession', hfind', rfl⟩ := Option.map_eq_some_iff.mp h
      rw [hid, hfind] at hfind'
      cases hfind'
      unfold Working.proceed
      cases execution.next with
      | some call =>
        rw [hid]
        exact engage_works _ _ _ _ _ fun out hout => .call hout
      | none =>
        rw [leave_eq hlive, hid]
        split_ifs
        · refine ⟨{ rsession with active := false }, [], (find?_store ..).trans (if_pos rfl), ?_, .nothing⟩
          exact (List.append_nil _).symm
        · exact ⟨rsession, [], hfind, (List.append_nil _).symm, .nothing⟩
    · refine exists_works_of_ne hmoved hfind (fun execution' rest' _ hcalls' => ?_) (fun _ h => by cases h)
      cases hcalls.symm.trans hcalls'
      exact hid
  · cases h

theorem exists_works_of_accept {arrival : Arrival} (h : (system ω).accept c arrival = some c')
    (hid : arrival.id = x) {rsession : RunningSession} (hfind : c.workflow.sessions.find? x = some rsession) :
    ∃ rsession' events, c'.workflow.sessions.find? x = some rsession' ∧ c'.events x = c.events x ++ events ∧
      c.workflow.stateMachine.Works c.env rsession.session (some arrival.message) rsession'.session events := by
  simp only [system] at h
  split at h
  · rename_i request flag _
    cases h
    cases hid
    cases hcan : c.workflow.canExecuteRequest request with
    | true =>
      obtain ⟨rsession', events, hfind', hevents, hworks⟩ := perform_works hcan flag
      rw [rsession_of_find? hfind] at hworks
      exact ⟨rsession', events, hfind', hevents, hworks⟩
    | false =>
      refine ⟨rsession, [], ?_, ?_, .nothing⟩
      · unfold Working.perform
        rw [hcan]
        exact hfind
      · unfold Working.perform
        rw [hcan]
        exact Working.events_append (c := c) (l := [.refused _]) rfl request.getId
  · rename_i id result _
    obtain ⟨rsession', hfind', rfl⟩ := Option.map_eq_some_iff.mp h
    cases hid
    cases hfind.symm.trans hfind'
    exact engage_works _ _ _ _ _ fun out hout => .finished hout
  · cases h

/-- **One session.** A transition applies one function of the engine to the session of an entry, or
none. -/
theorem exists_works (h : (system ω).Trans c label c') {rsession : RunningSession}
    (hfind : c.workflow.sessions.find? x = some rsession) (hlive : rsession.session.finished = false) :
    ∃ rsession' events, c'.workflow.sessions.find? x = some rsession' ∧
      c'.events x = c.events x ++ events ∧
      c.workflow.stateMachine.Works c.env rsession.session (label.map Arrival.message) rsession'.session
        events := by
  cases h with
  | internal hnext => exact exists_works_of_next hnext hfind hlive
  | @input _ arrival haccept =>
    by_cases hid : arrival.id = x
    · exact exists_works_of_accept haccept hid hfind
    · have hmoved := moved_of_trans (.input haccept)
      exact exists_works_of_ne hmoved hfind (fun _ _ h => by cases h) fun arrival' h => by cases h; exact hid

/-- An entry is new after a request that opened it, and only then. -/
theorem exists_opening (h : (system ω).Trans c label c') (hbefore : c.workflow.sessions.find? x = none)
    {rsession : RunningSession} (hafter : c'.workflow.sessions.find? x = some rsession) :
    ∃ request flag, label = some (.perform request flag) ∧ request.getId = x ∧
      c.workflow.canExecuteRequest request = true ∧ c' = c.perform request flag := by
  have hfound : ∀ {y rs}, c.workflow.sessions.find? y = some rs → y ≠ x := by
    rintro y rs hy rfl
    rw [hbefore] at hy
    cases hy
  have hunchanged : c'.workflow.sessions.find? x ≠ c.workflow.sessions.find? x := by
    rw [hbefore, hafter]
    exact Option.some_ne_none rsession
  have hmoved := moved_of_trans h
  cases h with
  | internal hnext =>
    refine absurd (find?_of_moved hmoved (fun execution rest _ hcalls => ?_) (fun _ h => nomatch h)).1 hunchanged
    cases hmoved with
    | called hcalls' hfind =>
      cases hcalls.symm.trans hcalls'
      exact hfound hfind
    | returned hcalls' hfind =>
      cases hcalls.symm.trans hcalls'
      exact hfound hfind
  | @input _ arrival haccept =>
    by_cases hid : arrival.id = x
    swap
    · exact absurd (find?_of_moved hmoved (fun _ _ h => nomatch h) fun _ h => by cases h; exact hid).1 hunchanged
    cases arrival with
    | asyncFinished id result =>
      cases hmoved with
      | finishing hfind => exact absurd hid (hfound hfind)
    | perform request flag =>
      have hperform := eq_perform_of_accept haccept
      refine ⟨request, flag, rfl, hid, ?_, hperform⟩
      rw [← Bool.not_eq_false]
      intro hcan
      refine hunchanged ?_
      rw [hperform, Working.perform, hcan]
      rfl

/-- A session that is there after a transition was there before, or the transition opened it; then one
function of the engine was applied to it, or none. -/
theorem exists_works_of_trans (hc : Retained c) (h : (system ω).Trans c label c') {x : UUID}
    {rsession' : RunningSession} (hafter : c'.workflow.sessions.find? x = some rsession') :
    ∃ s events, c.workflow.stateMachine.Works c.env s (label.map Arrival.message) rsession'.session events ∧
      c'.events x = c.events x ++ events ∧
      ((∃ rsession, c.workflow.sessions.find? x = some rsession ∧ s = rsession.session) ∨
        ∃ request flag, label = some (.perform request flag) ∧ request.getId = x ∧ s = .ofRequest request) := by
  cases hbefore : c.workflow.sessions.find? x with
  | some rsession =>
    obtain ⟨rs, events, hfind, hevents, hworks⟩ := exists_works h hbefore (hc.live x rsession hbefore)
    cases hafter.symm.trans hfind
    exact ⟨rsession.session, events, hworks, hevents, .inl ⟨rsession, rfl, rfl⟩⟩
  | none =>
    obtain ⟨request, flag, rfl, rfl, hcan, rfl⟩ := exists_opening h hbefore hafter
    obtain ⟨rs, events, hfind, hevents, hworks⟩ := perform_works hcan flag
    cases hafter.symm.trans hfind
    rw [rsession_of_absent hbefore] at hworks
    exact ⟨.ofRequest request, events, hworks, hevents, .inr ⟨request, flag, rfl, rfl, rfl⟩⟩

/-! ### Runs -/

/-- **A session along a run.** It keeps its request, and its execution level until one of the steps that
raise it is performed. -/
theorem run_remains {guard : Working ω → Option Arrival → Prop} (hrun : (system ω).Run guard c c')
    {rsession : RunningSession} (hfind : c.workflow.sessions.find? x = some rsession)
    (hlive : rsession.session.finished = false) :
    ∃ rsession' events, c'.workflow.sessions.find? x = some rsession' ∧
      c'.events x = c.events x ++ events ∧ rsession'.session.finished = false ∧
      rsession'.session.request = rsession.session.request ∧
      (KeepsLevel events →
        rsession'.session.currentExecutionLevel = rsession.session.currentExecutionLevel) := by
  refine hrun.invariant (I := fun d => ∃ rsession' events, d.workflow.sessions.find? x = some rsession' ∧
    d.events x = c.events x ++ events ∧ rsession'.session.finished = false ∧
    rsession'.session.request = rsession.session.request ∧ (KeepsLevel events →
      rsession'.session.currentExecutionLevel = rsession.session.currentExecutionLevel)) ?_ ?_
  · exact ⟨rsession, [], hfind, (List.append_nil _).symm, hlive, rfl, fun _ => rfl⟩
  · rintro b label d ⟨rs, events, hb, hevents, hblive, hrequest, hlevel⟩ - htrans
    obtain ⟨rs', events', hd, hevents', hworks⟩ := exists_works htrans hb hblive
    obtain ⟨hrequest', hfinished', hlevel'⟩ := hworks.lasts b.workflow.initialised.laid
    refine ⟨rs', events ++ events', hd, ?_, hfinished'.trans hblive, hrequest'.trans hrequest, fun h => ?_⟩
    · rw [hevents', hevents, List.append_assoc]
    · obtain ⟨hbefore, hafter⟩ := keepsLevel_append.mp h
      exact (hlevel' hafter).trans (hlevel hbefore)

theorem reachable_addressed {m : StateMachine ω} {hm : m.Initialised} {env : ω}
    (hrun : (system ω).Reachable (opened m hm env) c) {rsession : RunningSession}
    (hfind : c.workflow.sessions.find? x = some rsession) : rsession.session.request.getId = x := by
  have haddressed : Retained c ∧ ∀ x rsession, c.workflow.sessions.find? x = some rsession →
      rsession.session.request.getId = x := by
    refine hrun.invariant (I := fun d => Retained d ∧ ∀ x rsession,
      d.workflow.sessions.find? x = some rsession → rsession.session.request.getId = x) ?_ ?_
    · have hstart : Retained (opened m hm env) := reachable_retained .start
      exact ⟨hstart, fun _ _ h => nomatch h⟩
    · rintro b label d ⟨hb, hids⟩ - htrans
      refine ⟨retained_of_moved hb (moved_of_trans htrans), fun x rsession hd => ?_⟩
      obtain ⟨s, events, hworks, -, hcases⟩ := exists_works_of_trans hb htrans hd
      obtain ⟨hrequest, -⟩ := hworks.lasts b.workflow.initialised.laid
      rw [hrequest]
      rcases hcases with ⟨rs, hbefore, rfl⟩ | ⟨request, flag, -, hid, rfl⟩
      · exact hids x rs hbefore
      · exact hid
  exact haddressed.2 x rsession hfind

end Workflow

end LibWorkflow
