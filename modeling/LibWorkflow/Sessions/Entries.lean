import LibWorkflow.Core.Workflow
import LibWorkflow.Engine.Runs

/-!
# The entries of a workflow

What the engine keeps of a session, what one transition of a workflow does, inverted once (`Moved`), and
the invariant of every run (`reachable_retained`): the workflow has an entry for each session that was
opened, because nothing raises the flag `finished` on which entries are erased.
-/

namespace LibWorkflow

open Ordered Fallible

/-- The steps at which the sub-requests of a session are to be aborted. -/
def Step.aborting : List Step := [.interrupt, .error, .finish, .cleanup]

/-! ### The engine keeps the header of a session -/

/-- The request, the execution level and the flag `finished` of `s'` are those of `s`. -/
structure Session.SameHeader (s s' : Session) : Prop where
  request : s'.request = s.request
  currentExecutionLevel : s'.currentExecutionLevel = s.currentExecutionLevel
  finished : s'.finished = s.finished

namespace Session.SameHeader

variable {s s' s'' : Session}

theorem refl (s : Session) : s.SameHeader s := ⟨rfl, rfl, rfl⟩

theorem trans (h : s.SameHeader s') (h' : s'.SameHeader s'') : s.SameHeader s'' where
  request := h'.request.trans h.request
  currentExecutionLevel := h'.currentExecutionLevel.trans h.currentExecutionLevel
  finished := h'.finished.trans h.finished

end Session.SameHeader

namespace ActionPtr

variable {ω : Type} (ptr : ActionPtr ω)

/-- The session the code of the action is given: at the steps with a wrapper the level is raised. -/
def wrapped (s : Session) : Session := if ptr.wrapper = none then s else s.upCurrentExecutionLevel

theorem wrapPerform_session (expectedOutput : List String) (w : World ω) :
    (ptr.wrapPerform expectedOutput w).session = ptr.wrapped w.session := by
  rw [wrapPerform_eq]
  rfl

theorem sameHeader_applyOutcome (w : World ω) (action : Action ω) (outcome : Outcome ω) :
    w.session.SameHeader (w.applyOutcome action outcome).session := by
  obtain ⟨outputs, heq⟩ := World.exists_setOutputs action.actionId action.outputs w.session outcome.outputs
  unfold World.applyOutcome
  rw [heq]
  exact ⟨rfl, rfl, rfl⟩

theorem sameHeader_of_perform {expectedOutput : List String} {w w' : World ω} {result : Result}
    (h : ptr.perform expectedOutput w = (w', result)) : (ptr.wrapped w.session).SameHeader w'.session := by
  have hw' : w' = (ptr.perform expectedOutput w).1 := (congrArg Prod.fst h).symm
  subst hw'
  unfold perform
  dsimp only
  have hwrapped := ptr.wrapPerform_session expectedOutput (w.emit (.performed ptr.getActionId w.session))
  rw [← show _ = ptr.wrapped w.session from hwrapped]
  exact sameHeader_applyOutcome ..

theorem sameHeader_of_replyReceived {w w' : World ω} {request : Request} {result : Result}
    (h : ptr.replyReceived w request = (w', result)) : w.session.SameHeader w'.session := by
  have hw' : w' = (ptr.replyReceived w request).1 := (congrArg Prod.fst h).symm
  subst hw'
  exact sameHeader_applyOutcome ..

theorem wrapped_request (s : Session) : (ptr.wrapped s).request = s.request := by
  unfold wrapped
  split_ifs <;> rfl

theorem wrapped_finished (s : Session) : (ptr.wrapped s).finished = s.finished := by
  unfold wrapped
  split_ifs <;> rfl

end ActionPtr

namespace StateMachine

variable {ω : Type} {m : StateMachine ω} {s s' : Session}

theorem Reschedules.sameHeader {ids : ℤ → Prop} (h : m.Reschedules ids s s') : s.SameHeader s' := by
  constructor <;> rw [h.rest]

theorem sameHeader_beginAction (s : Session) (id : ℤ) : s.SameHeader (m.beginAction s id) := by
  obtain ⟨_, _, _, heq⟩ := m.exists_beginAction_eq s id
  rw [heq]
  exact ⟨rfl, rfl, rfl⟩

theorem getNext_sameHeader {next : ℤ} (h : m.getNext s = .ok (next, s')) : s.SameHeader s' :=
  (getNext_spec h).1.reschedules.sameHeader

theorem addToNext_sameHeader {id : ℤ} (h : m.addToNext s id = .ok s') : s.SameHeader s' := by
  obtain ⟨-, rfl⟩ := addToNext_eq_ok.mp h
  exact ⟨rfl, rfl, rfl⟩

theorem executeNone_sameHeader {w : World ω} {out : Onward ω} (h : m.executeNone w = .ok out) :
    w.session.SameHeader out.1.session := by
  cases executedNone_of_eq_ok h with
  | next hnext => exact getNext_sameHeader hnext
  | finish hfirst _ _ hadd hnext =>
    exact ((getNext_sameHeader hfirst).trans (addToNext_sameHeader hadd)).trans (getNext_sameHeader hnext)
  | @error _ _ _ s' _ hfirst _ _ hadd hnext =>
    have hreport : s'.SameHeader (s'.setLastErrorReport (some (noend s'))) := ⟨rfl, rfl, rfl⟩
    have hplanned := (getNext_sameHeader hfirst).trans (addToNext_sameHeader hadd)
    exact (hplanned.trans hreport).trans (getNext_sameHeader hnext)

theorem actionExecuted_sameHeader {w : World ω} {result : Result} {out : Onward ω}
    (h : m.actionExecuted w result = .ok out) : w.session.SameHeader out.1.session := by
  have hset : ∀ status, w.session.SameHeader (w.session.setStatus result.actionId status) :=
    fun _ => ⟨rfl, rfl, rfl⟩
  obtain ⟨ptr, -, hconsumed⟩ := actionExecuted_cases h
  cases hconsumed with
  | done _ _ hbind hnext =>
    have hbound := (hset .done).trans (bindResults_reschedules hbind).sameHeader
    exact hbound.trans (getNext_sameHeader hnext)
  | finish _ hbind => exact (hset .done).trans (bindResults_reschedules hbind).sameHeader
  | broken | async | wait | error => exact ⟨rfl, rfl, rfl⟩

/-- A call of the engine keeps the header, but for the level, which the steps with a wrapper raise. -/
theorem makeCall_sameHeader {w : World ω} {call : Call} {out : Onward ω} (h : m.makeCall w call = .ok out) :
    w.session.SameHeader out.1.session ∨
      ∃ id ptr, call = .executeAction id ∧ m.actions.find? id = some ptr ∧
        (ptr.wrapped (m.beginAction w.session id)).SameHeader out.1.session := by
  cases call with
  | actionExecuted result => exact .inl (actionExecuted_sameHeader h)
  | executeAction id =>
    cases executeAction_cases h with
    | die => exact .inl (.refl _)
    | nothing h => exact .inl (executeNone_sameHeader h)
    | @action _ ptr _ _ hptr _ _ hperform =>
      exact .inr ⟨id, ptr, rfl, hptr, ptr.sameHeader_of_perform hperform⟩
    | absent => exact .inl (sameHeader_beginAction w.session id)

theorem makeCall_finished {w : World ω} {call : Call} {out : Onward ω} (h : m.makeCall w call = .ok out) :
    out.1.session.finished = w.session.finished := by
  rcases makeCall_sameHeader h with hsame | ⟨id, ptr, -, -, hsame⟩
  · exact hsame.finished
  · rw [hsame.finished, ptr.wrapped_finished]
    exact (sameHeader_beginAction w.session id).finished

theorem firstCall_sameHeader {w : World ω} {out : Onward ω} (h : m.firstCall w = .ok out) :
    w.session.SameHeader out.1.session := by
  obtain ⟨complete, s, hstarters, hcases⟩ := firstCall_cases h
  have hstatuses : w.session.SameHeader (w.session.setStatuses m.actions.keys .unplanned) := ⟨rfl, rfl, rfl⟩
  have hprepared : w.session.SameHeader (m.prepared w.session) :=
    hstatuses.trans (setStarterInputs_reschedules (m := m) m.starters _).sameHeader
  have hs : w.session.SameHeader s := hprepared.trans (scheduleStarters_reschedules hstarters).sameHeader
  rcases hcases with ⟨-, next, s', hnext, rfl⟩ | ⟨-, rfl⟩
  · exact hs.trans (getNext_sameHeader hnext)
  · exact hs

theorem receive_sameHeader (hm : m.Laid) {w : World ω} {message : Message} {out : Onward ω}
    (h : m.receive w message = .ok out) : w.session.SameHeader out.1.session := by
  have hpush : ∀ request, w.session.SameHeader (w.session.pushRequest request) := fun _ => ⟨rfl, rfl, rfl⟩
  cases receive_cases hm h with
  | @firstCall request _ _ h =>
    exact (hpush request).trans (firstCall_sameHeader (w := ⟨w.session.pushRequest request, w.env, w.trace⟩) h)
  | @answered request ptr _ _ _ _ _ _ hreply =>
    have hanswered := ptr.sameHeader_of_replyReceived hreply
    exact (hpush request).trans hanswered
  | reset | ignored => exact ⟨rfl, rfl, rfl⟩
  | finished h => exact actionExecuted_sameHeader h

end StateMachine

/-! ### What is seen of a workflow -/

namespace Occurrence

def accepted? : Occurrence → Option Request
  | accepted request => some request
  | _ => none

def handed? : Occurrence → Option Request
  | handed request => some request
  | _ => none

/-- The session `x` executes Die. -/
def isDie (x : UUID) : Occurrence → Bool
  | session id (.requestFinished _) => id = x
  | _ => false

end Occurrence

namespace Working

variable {ω : Type} (c : Working ω)

/-- The requests for the session `x` among those `f` sees in the history, in order. -/
def requests (f : Occurrence → Option Request) (x : UUID) : List Request :=
  (c.history.filterMap f).filter (·.getId = x)

/-- The requests accepted for the session `x`. -/
def accepted (x : UUID) : List Request := c.requests Occurrence.accepted? x

/-- The requests handed to the state machine for the session `x`. -/
def handed (x : UUID) : List Request := c.requests Occurrence.handed? x

/-- The requests queued for the session `x`. -/
def pending (x : UUID) : List Request :=
  ((c.workflow.sessions.find? x).map RunningSession.pendingRequests).getD []

def Opened (x : UUID) : Prop := ∃ request, .accepted request ∈ c.history ∧ request.getId = x

/-- The session `x` has executed Die. -/
def Died (x : UUID) : Prop := c.history.any (Occurrence.isDie x) = true

instance (x : UUID) : Decidable (c.Died x) := inferInstanceAs (Decidable (_ = true))

/-- The sessions for which `perform` is executing a request, the innermost first. -/
def executing : List UUID := (c.calls.filter Execution.performing).map Execution.id

variable {c}

theorem exists_of_died {x : UUID} (h : c.Died x) : ∃ event, .session x event ∈ c.history := by
  obtain ⟨occurrence, hmem, hdie⟩ := List.any_eq_true.mp h
  unfold Occurrence.isDie at hdie
  split at hdie
  · rw [decide_eq_true_eq] at hdie
    exact ⟨_, hdie ▸ hmem⟩
  · cases hdie

theorem Died.append {c' : Working ω} {x : UUID} {l : List Occurrence} (h : c.Died x)
    (hhistory : c'.history = c.history ++ l) : c'.Died x := by
  unfold Died at h ⊢
  rw [hhistory, List.any_append, h, Bool.true_or]

end Working

/-! ### One transition -/

/-- `c'` is `c` after a function of the engine has been called on the session of an entry. -/
structure Engages {ω : Type} (c : Working ω) (id : UUID) (performing : Bool) (rsession : RunningSession)
    (rest : List Execution) (c' : Working ω) : Prop where
  workflow : ∃ s : Session, s.finished = rsession.session.finished ∧
    c'.workflow = c.workflow.store id { rsession with session := s }
  calls : ∃ next, c'.calls = ⟨id, performing, next⟩ :: rest
  history : ∃ events : List Event, c'.history = c.history ++ events.map (.session id)

/-- What one transition of a workflow does. -/
inductive Moved {ω : Type} (c : Working ω) : Option Arrival → Working ω → Prop
  | called {execution : Execution} {rsession : RunningSession} {rest : List Execution} {c' : Working ω}
      (hcalls : c.calls = execution :: rest)
      (hfind : c.workflow.sessions.find? execution.id = some rsession) (hnext : execution.next ≠ none)
      (h : Engages c execution.id execution.performing rsession rest c') : Moved c none c'
  | returned {execution : Execution} {rsession : RunningSession} {rest : List Execution}
      (hcalls : c.calls = execution :: rest)
      (hfind : c.workflow.sessions.find? execution.id = some rsession) (hnext : execution.next = none) :
      Moved c none (c.leave execution rsession rest)
  | refused {request : Request} {flag : Bool} (hcan : c.workflow.canExecuteRequest request = false) :
      Moved c (some (.perform request flag)) (c.record [.refused (Workflow.errorReply request)])
  | parked {request : Request} {flag : Bool} {workflow : Workflow ω}
      (hcan : c.workflow.canExecuteRequest request = true)
      (hactive : (c.workflow.rsession request flag).active = true)
      (hworkflow : workflow = c.workflow.store request.getId
        ((c.workflow.rsession request flag).addToPending request)) :
      Moved c (some (.perform request flag)) ({ c with workflow := workflow }.record [.accepted request])
  | handed {request : Request} {flag : Bool} {c' : Working ω}
      (hcan : c.workflow.canExecuteRequest request = true)
      (hactive : (c.workflow.rsession request flag).active = false)
      (h : Engages (c.record [.accepted request, .handed request]) request.getId true
        { c.workflow.rsession request flag with active := true } c.calls c') :
      Moved c (some (.perform request flag)) c'
  | finishing {id : UUID} {result : Result} {rsession : RunningSession} {c' : Working ω}
      (hfind : c.workflow.sessions.find? id = some rsession)
      (h : Engages c id false rsession c.calls c') : Moved c (some (.asyncFinished id result)) c'

namespace Workflow

variable {ω : Type}

theorem engage_engages (c : Working ω) (id : UUID) (performing : Bool) (rsession : RunningSession)
    (rest : List Execution) {f : World ω → Except Fault (Onward ω)}
    (hf : ∀ w out, f w = .ok out → out.1.session.finished = w.session.finished) :
    Engages c id performing rsession rest (c.engage id performing rsession rest f) := by
  unfold Working.engage
  cases hout : f ⟨rsession.session, c.env, []⟩ with
  | error fault => exact ⟨⟨rsession.session, rfl, rfl⟩, ⟨none, rfl⟩, ⟨[], (List.append_nil _).symm⟩⟩
  | ok out =>
    have hfinished := hf _ _ hout
    obtain ⟨w, next⟩ := out
    exact ⟨⟨w.session, hfinished, rfl⟩, ⟨next, rfl⟩, ⟨w.trace, rfl⟩⟩

theorem moved_of_perform (c : Working ω) (request : Request) (flag : Bool) :
    Moved c (some (.perform request flag)) (c.perform request flag) := by
  have hlaid : c.workflow.stateMachine.Laid := c.workflow.initialised.laid
  unfold Working.perform
  cases hcan : c.workflow.canExecuteRequest request with
  | false => exact .refused hcan
  | true =>
    rw [if_pos rfl]
    cases hactive : (c.workflow.rsession request flag).active with
    | true =>
      simp only [RunningSession.shouldMakePending, hactive, if_true]
      exact .parked hcan hactive rfl
    | false =>
      simp only [RunningSession.shouldMakePending, hactive, Bool.false_eq_true, if_false]
      have hexecute : ∀ w out, c.workflow.stateMachine.receive w (.request request) = .ok out →
          out.1.session.finished = w.session.finished := fun _ _ hout =>
        (StateMachine.receive_sameHeader hlaid hout).finished
      exact .handed hcan hactive (engage_engages _ _ _ _ _ hexecute)

/-- Each transition of a workflow is one of these. -/
theorem moved_of_trans {c c' : Working ω} {label : Option Arrival} (h : (system ω).Trans c label c') :
    Moved c label c' := by
  cases h with
  | internal hnext =>
    simp only [system] at hnext
    split at hnext
    · rename_i execution rest _ hcalls
      obtain ⟨rsession, hfind, rfl⟩ := Option.map_eq_some_iff.mp hnext
      unfold Working.proceed
      cases hlast : execution.next with
      | some call =>
        exact .called hcalls hfind (by rw [hlast]; exact Option.some_ne_none call)
          (engage_engages _ _ _ _ _ fun _ _ hout => StateMachine.makeCall_finished hout)
      | none => exact .returned hcalls hfind hlast
    · cases hnext
  | input haccept =>
    simp only [system] at haccept
    split at haccept
    · cases haccept
      exact moved_of_perform c _ _
    · rename_i id result _
      obtain ⟨rsession, hfind, rfl⟩ := Option.map_eq_some_iff.mp haccept
      exact .finishing hfind (engage_engages _ _ _ _ _ fun _ _ hout =>
        (StateMachine.actionExecuted_sameHeader hout).finished)
    · cases haccept

/-! ### Entries are kept -/

@[simp] theorem find?_store (w : Workflow ω) (id x : UUID) (rsession : RunningSession) :
    (w.store id rsession).sessions.find? x = if x = id then some rsession else w.sessions.find? x :=
  OrdMap.find?_insert ..

theorem contains_store (w : Workflow ω) (id x : UUID) (rsession : RunningSession) :
    (w.store id rsession).sessions.contains x = true ↔ x = id ∨ w.sessions.contains x = true := by
  simp only [OrdMap.contains_iff, find?_store]
  by_cases hx : x = id
  · simp [hx]
  · simp [hx]

theorem contains_of_find? {w : Workflow ω} {x : UUID} {rsession : RunningSession}
    (h : w.sessions.find? x = some rsession) : w.sessions.contains x = true :=
  OrdMap.contains_iff.mpr ⟨rsession, h⟩

theorem rsession_of_find? {w : Workflow ω} {request : Request} {rsession : RunningSession}
    (h : w.sessions.find? request.getId = some rsession) (flag : Bool) :
    w.rsession request flag = rsession := by
  unfold Workflow.rsession
  rw [h]
  rfl

theorem rsession_of_absent {w : Workflow ω} {request : Request}
    (h : w.sessions.find? request.getId = none) (flag : Bool) :
    w.rsession request flag = .ofRequest request flag := by
  unfold rsession
  rw [h]
  rfl

end Workflow

/-- There is an entry for each session that was opened, and none of them is marked finished. -/
structure Retained {ω : Type} (c : Working ω) : Prop where
  opened : ∀ x, c.workflow.sessions.contains x = true ↔ c.Opened x
  live : ∀ x rsession, c.workflow.sessions.find? x = some rsession → rsession.session.finished = false
  witnessed : ∀ x event, .session x event ∈ c.history → c.workflow.sessions.contains x = true

namespace Retained

variable {ω : Type} {c c' : Working ω}

theorem stored (hc : Retained c) {id : UUID} {rsession : RunningSession} {l : List Occurrence}
    (hworkflow : c'.workflow = c.workflow.store id rsession) (hlive : rsession.session.finished = false)
    (hhistory : c'.history = c.history ++ l) (haccepted : ∀ request, .accepted request ∈ l → request.getId = id)
    (hsession : ∀ x event, .session x event ∈ l → x = id)
    (hopened : c.workflow.sessions.contains id = true ∨ ∃ request, .accepted request ∈ l ∧ request.getId = id) :
    Retained c' where
  opened x := by
    rw [hworkflow, Workflow.contains_store, hc.opened x]
    unfold Working.Opened
    rw [hhistory]
    simp only [List.mem_append]
    constructor
    · rintro (rfl | ⟨request, hmem, hid⟩)
      · rcases hopened with hcontains | ⟨request, hmem, hid⟩
        · obtain ⟨request, hmem, hid⟩ := (hc.opened x).mp hcontains
          exact ⟨request, .inl hmem, hid⟩
        · exact ⟨request, .inr hmem, hid⟩
      · exact ⟨request, .inl hmem, hid⟩
    · rintro ⟨request, hmem | hmem, hid⟩
      · exact .inr ⟨request, hmem, hid⟩
      · exact .inl (hid.symm.trans (haccepted request hmem))
  live x rsession' hfind := by
    rw [hworkflow, Workflow.find?_store] at hfind
    split_ifs at hfind
    · cases hfind
      exact hlive
    · exact hc.live x rsession' hfind
  witnessed x event hmem := by
    rw [hhistory, List.mem_append] at hmem
    rw [hworkflow, Workflow.contains_store]
    exact hmem.elim (fun h => .inr (hc.witnessed x event h)) fun h => .inl (hsession x event h)

theorem unstored (hc : Retained c) {l : List Occurrence} (hworkflow : c'.workflow = c.workflow)
    (hhistory : c'.history = c.history ++ l) (haccepted : ∀ request, .accepted request ∉ l)
    (hsession : ∀ x event, .session x event ∉ l) : Retained c' where
  opened x := by
    unfold Working.Opened
    rw [hworkflow, hhistory, hc.opened x]
    simp only [List.mem_append, haccepted, or_false]
    rfl
  live := hworkflow ▸ hc.live
  witnessed x event hmem := by
    rw [hhistory, List.mem_append] at hmem
    rw [hworkflow]
    exact hc.witnessed x event (hmem.resolve_right (hsession x event))

theorem engages (hc : Retained c) {id : UUID} {performing : Bool} {rsession : RunningSession}
    {rest : List Execution} (hcontains : c.workflow.sessions.contains id = true)
    (hlive : rsession.session.finished = false) (h : Engages c id performing rsession rest c') :
    Retained c' := by
  obtain ⟨s, hs, hworkflow⟩ := h.workflow
  obtain ⟨events, hhistory⟩ := h.history
  refine hc.stored hworkflow (hs.trans hlive) hhistory ?_ ?_ (.inl hcontains)
  · intro request hmem
    simp at hmem
  · intro x event hmem
    obtain ⟨_, -, heq⟩ := List.mem_map.mp hmem
    cases heq
    rfl

theorem live_rsession (hc : Retained c) (request : Request) (flag : Bool) :
    (c.workflow.rsession request flag).session.finished = false := by
  cases hfind : c.workflow.sessions.find? request.getId with
  | some rsession =>
    rw [Workflow.rsession_of_find? hfind]
    exact hc.live _ _ hfind
  | none =>
    rw [Workflow.rsession_of_absent hfind]
    rfl

end Retained

namespace Workflow

variable {ω : Type}

/-- `perform` erases nothing when a call of it comes to its end. -/
theorem leave_eq {c : Working ω} {execution : Execution} {rsession : RunningSession} {rest : List Execution}
    (hlive : rsession.session.finished = false) :
    c.leave execution rsession rest =
      if execution.performing then
        { c with workflow := c.workflow.store execution.id { rsession with active := false }, calls := rest }
      else { c with calls := rest } := by
  unfold Working.leave StateMachine.finished
  rw [hlive]
  rfl

theorem retained_of_moved {c c' : Working ω} {label : Option Arrival} (hc : Retained c)
    (h : Moved c label c') : Retained c' := by
  cases h with
  | called _ hfind _ h => exact hc.engages (contains_of_find? hfind) (hc.live _ _ hfind) h
  | @returned execution rsession rest _ hfind _ =>
    rw [leave_eq (hc.live _ _ hfind)]
    split_ifs
    · have hlive : rsession.session.finished = false := hc.live _ _ hfind
      have hlive' : ({ rsession with active := false } : RunningSession).session.finished = false := hlive
      exact hc.stored rfl hlive' (List.append_nil _).symm (by simp) (by simp) (.inl (contains_of_find? hfind))
    · exact hc.unstored rfl (List.append_nil _).symm (by simp) (by simp)
  | refused => exact hc.unstored rfl rfl (by simp) (by simp)
  | @parked request flag _ _ _ hworkflow =>
    exact hc.stored hworkflow (hc.live_rsession request flag) rfl (by simp) (by simp)
      (.inr ⟨request, List.mem_singleton.mpr rfl, rfl⟩)
  | @handed request flag _ _ _ h =>
    obtain ⟨s, hs, hworkflow⟩ := h.workflow
    obtain ⟨events, hhistory⟩ := h.history
    refine hc.stored (l := [.accepted request, .handed request] ++ events.map (.session request.getId))
      hworkflow (hs.trans (hc.live_rsession request flag)) ?_ (by simp) ?_ ?_
    · rw [hhistory, Working.record, List.append_assoc]
    · intro x event hmem
      simp at hmem
      exact hmem.2.symm
    · exact .inr ⟨request, .head _, rfl⟩
  | finishing hfind h => exact hc.engages (contains_of_find? hfind) (hc.live _ _ hfind) h

/-- **Entries are kept.** In every state of every run of a workflow. -/
theorem reachable_retained {m : StateMachine ω} {hm : m.Initialised} {env : ω} {c : Working ω}
    (hrun : (system ω).Reachable (opened m hm env) c) : Retained c := by
  refine hrun.invariant ?_ fun c _ c' hc _ htrans => retained_of_moved hc (moved_of_trans htrans)
  constructor
  · intro x
    constructor
    · intro h
      cases h
    · rintro ⟨_, h, -⟩
      cases h
  · intro x rsession h
    cases h
  · intro x event h
    cases h

end Workflow

end LibWorkflow
