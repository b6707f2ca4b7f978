import LibWorkflow.Sessions.Projection
import LibWorkflow.Sessions.Queue

/-!
# Sessions do not see each other

A workflow runs any number of sessions on one stack of calls. Each of them runs as the state machine would run it
alone (`runs_alone`), but for the environment, which the actions of the others may change between its calls
(`shared`): what holds of every run of `shared` holds of each session of a workflow, whatever happens to the
others. Only the end of an asynchronous action goes past the workflow: it may break into a call of its session.
-/

namespace LibWorkflow

open Ordered

variable {ω : Type}

def World.behind (pre : List Event) (w : World ω) : World ω := { w with trace := pre ++ w.trace }

def Onward.behind (pre : List Event) (out : Onward ω) : Onward ω := (out.1.behind pre, out.2)

/-! ### What happened before does not matter -/

theorem ActionPtr.perform_behind (ptr : ActionPtr ω) (expectedOutput : List String) (pre : List Event) (w : World ω) :
    ptr.perform expectedOutput (w.behind pre) =
      ((ptr.perform expectedOutput w).1.behind pre, (ptr.perform expectedOutput w).2) := by
  unfold perform wrapPerform World.behind World.emit World.applyOutcome
  cases ptr.wrapper with
  | none => simp
  | some wrapper => cases wrapper <;> simp

theorem ActionPtr.replyReceived_behind (ptr : ActionPtr ω) (request : Request) (pre : List Event) (w : World ω) :
    ptr.replyReceived (w.behind pre) request =
      ((ptr.replyReceived w request).1.behind pre, (ptr.replyReceived w request).2) := by
  simp [replyReceived, World.behind, World.emit, World.applyOutcome]

namespace StateMachine

variable {m : StateMachine ω} (pre : List Event) (w : World ω)

theorem executeNext_behind : m.executeNext (w.behind pre) = (m.executeNext w).map (Onward.behind pre) := by
  unfold executeNext World.behind
  cases m.getNext w.session <;> rfl

theorem executeNone_behind : m.executeNone (w.behind pre) = (m.executeNone w).map (Onward.behind pre) := by
  unfold executeNone
  show (m.getNext w.session >>= _) = Except.map _ (m.getNext w.session >>= _)
  cases m.getNext w.session with
  | error => rfl
  | ok chosen =>
    obtain ⟨next, s⟩ := chosen
    show (m.canExecuteNext w.env s next >>= _) = Except.map _ (m.canExecuteNext w.env s next >>= _)
    rcases m.canExecuteNext w.env s next with _ | (_ | _)
    · rfl
    · show (m.canExecuteFinish s >>= _) = Except.map _ (m.canExecuteFinish s >>= _)
      rcases m.canExecuteFinish s with _ | (_ | _)
      · rfl
      · show (m.addToNext s Step.error.id >>= _) = Except.map _ (m.addToNext s Step.error.id >>= _)
        cases m.addToNext s Step.error.id with
        | error => rfl
        | ok s => exact executeNext_behind pre { w with session := s.setLastErrorReport _ }
      · show (m.addToNext s Step.finish.id >>= _) = Except.map _ (m.addToNext s Step.finish.id >>= _)
        cases m.addToNext s Step.finish.id with
        | error => rfl
        | ok s => exact executeNext_behind pre { w with session := s }
    · rfl

theorem executeAction_behind (id : ℤ) :
    m.executeAction (w.behind pre) id = (m.executeAction w id).map (Onward.behind pre) := by
  unfold executeAction
  split_ifs
  · simp [World.behind, World.emit, Except.map, Onward.behind]
  · exact executeNone_behind pre w
  · dsimp only
    cases m.actions.find? id with
    | none => rfl
    | some ptr =>
      have hperform := ptr.perform_behind m.getExpectedOutput pre { w with session := m.beginAction w.session id }
      unfold World.behind at hperform
      dsimp only at hperform
      dsimp only [World.behind]
      rw [hperform]
      rfl

theorem actionExecuted_behind (result : Result) :
    m.actionExecuted (w.behind pre) result = (m.actionExecuted w result).map (Onward.behind pre) := by
  unfold actionExecuted
  cases m.actionAt result.actionId with
  | error => rfl
  | ok ptr =>
    show (if result.type = .done && !ptr.checkOutputs w.env w.session then _ else _) =
      Except.map _ (if result.type = .done && !ptr.checkOutputs w.env w.session then _ else _)
    split_ifs
    · rfl
    · cases result.type with
      | done =>
        show (m.bindResults w.env (w.session.setStatus result.actionId .done) result.actionId >>= _) =
          Except.map _ (m.bindResults w.env (w.session.setStatus result.actionId .done) result.actionId >>= _)
        cases m.bindResults w.env (w.session.setStatus result.actionId .done) result.actionId with
        | error => rfl
        | ok s => exact executeNext_behind pre { w with session := s }
      | finish =>
        show (m.bindResults w.env (w.session.setStatus result.actionId .done) result.actionId >>= _) =
          Except.map _ (m.bindResults w.env (w.session.setStatus result.actionId .done) result.actionId >>= _)
        cases m.bindResults w.env (w.session.setStatus result.actionId .done) result.actionId <;> rfl
      | async | wait | error => rfl

theorem makeCall_behind (call : Call) :
    m.makeCall (w.behind pre) call = (m.makeCall w call).map (Onward.behind pre) := by
  cases call with
  | executeAction id => exact executeAction_behind pre w id
  | actionExecuted result => exact actionExecuted_behind pre w result

theorem firstCall_behind : m.firstCall (w.behind pre) = (m.firstCall w).map (Onward.behind pre) := by
  unfold firstCall
  show (m.scheduleStarters w.env (m.prepared w.session) m.starters >>= _) =
    Except.map _ (m.scheduleStarters w.env (m.prepared w.session) m.starters >>= _)
  rcases m.scheduleStarters w.env (m.prepared w.session) m.starters with _ | ⟨_ | _, s⟩
  · rfl
  · rfl
  · exact executeNext_behind pre { w with session := s }

theorem receiveStep_behind (step : Step) :
    m.receiveStep (w.behind pre) step = (m.receiveStep w step).map (Onward.behind pre) := by
  unfold receiveStep
  show (m.addToNext (m.resetSchedule w.session) step.id >>= _) =
    Except.map _ (m.addToNext (m.resetSchedule w.session) step.id >>= _)
  cases m.addToNext (m.resetSchedule w.session) step.id with
  | error => rfl
  | ok s => exact executeNext_behind pre { w with session := s }

theorem answered_behind (ptr : ActionPtr ω) (request : Request) :
    (Except.ok ((ptr.replyReceived (w.behind pre) request).1,
      some (.actionExecuted (ptr.replyReceived (w.behind pre) request).2)) : Except Fault (Onward ω)) =
      Except.map (Onward.behind pre) (.ok ((ptr.replyReceived w request).1,
        some (.actionExecuted (ptr.replyReceived w request).2))) := by
  rw [ptr.replyReceived_behind]
  rfl

theorem errorReceived_behind (request : Request) :
    m.errorReceived (w.behind pre) request = (m.errorReceived w request).map (Onward.behind pre) := by
  unfold errorReceived
  cases m.actions.find? request.target.action with
  | none => exact receiveStep_behind pre w .error
  | some ptr =>
    show (w.session.getStatus request.target.action >>= _) =
      Except.map _ (w.session.getStatus request.target.action >>= _)
    cases w.session.getStatus request.target.action with
    | error => rfl
    | ok status =>
      show (if status = .waiting && ptr.canHandleError w.env w.session then _ else _) =
        Except.map _ (if status = .waiting && ptr.canHandleError w.env w.session then _ else _)
      split_ifs
      · exact answered_behind pre w ptr request
      · exact receiveStep_behind pre w .error

theorem statusReceived_behind : m.statusReceived (w.behind pre) = (m.statusReceived w).map (Onward.behind pre) := by
  unfold statusReceived
  cases m.actions.find? Step.status.id with
  | none => rfl
  | some ptr =>
    dsimp only
    rw [ptr.perform_behind]
    rfl

theorem replyReceived_behind (request : Request) :
    m.replyReceived (w.behind pre) request = (m.replyReceived w request).map (Onward.behind pre) := by
  unfold replyReceived
  cases m.actions.find? request.target.action with
  | none => rfl
  | some ptr =>
    show (w.session.getStatus request.target.action >>= _) =
      Except.map _ (w.session.getStatus request.target.action >>= _)
    cases w.session.getStatus request.target.action with
    | error => rfl
    | ok status =>
      show (if status = .waiting then _ else _) = Except.map _ (if status = .waiting then _ else _)
      split_ifs
      · exact answered_behind pre w ptr request
      · rfl

theorem execute_behind (request : Request) :
    m.execute (w.behind pre) request = (m.execute w request).map (Onward.behind pre) := by
  unfold execute World.behind
  dsimp only
  split_ifs
  · exact firstCall_behind pre { w with session := w.session.pushRequest request }
  · exact errorReceived_behind pre { w with session := w.session.pushRequest request } request
  · exact receiveStep_behind pre { w with session := w.session.pushRequest request } .interrupt
  · exact statusReceived_behind pre { w with session := w.session.pushRequest request }
  · rfl
  · exact replyReceived_behind pre { w with session := w.session.pushRequest request } request
  · rfl

end StateMachine

/-! ### One session by itself -/

def Config.withEnv (env : ω) : Config ω → Config ω
  | .running call w => .running call { w with env := env }
  | .returned w => .returned { w with env := env }
  | .crashed fault w => .crashed fault { w with env := env }

namespace StateMachine

/-- The executions of a session whose environment others may change at any time. -/
def shared (m : StateMachine ω) : Reactive.System (Config ω) (Message ⊕ ω) where
  next := m.system.next
  accept c
    | .inl message => m.system.accept c message
    | .inr env => some (c.withEnv env)

/-- An execution of the session `x` alone, from its opening. -/
def Alone (m : StateMachine ω) (x : UUID) (d : Config ω) : Prop :=
  ∃ request env, request.getId = x ∧ m.shared.Reachable (opened request env) d

variable {m : StateMachine ω} {x : UUID} {s : Session} {env : ω} {trace : List Event}

theorem Alone.opened (request : Request) (env : ω) : m.Alone request.getId (opened request env) :=
  ⟨request, env, rfl, .start⟩

theorem Alone.withEnv {d : Config ω} (h : m.Alone x d) (env : ω) : m.Alone x (d.withEnv env) := by
  obtain ⟨request, env', hid, hrun⟩ := h
  exact ⟨request, env', hid, hrun.input (i := .inr env) trivial rfl⟩

theorem Alone.call {w : World ω} {call : Call} (h : m.Alone x (.running call w)) :
    m.Alone x (.ofStep w (m.makeCall w call)) := by
  obtain ⟨request, env, hid, hrun⟩ := h
  exact ⟨request, env, hid, hrun.internal trivial rfl⟩

theorem Alone.message {w : World ω} (h : m.Alone x (.returned w)) (message : Message) :
    m.Alone x (.ofStep w (m.receive w message)) := by
  obtain ⟨request, env, hid, hrun⟩ := h
  exact ⟨request, env, hid, hrun.input (i := .inl message) trivial rfl⟩

end StateMachine

/-! ### One session among the others -/

namespace Working

/-- The fault, where it is one of the session `x`. -/
def faultIn (c : Working ω) (x : UUID) : Option Fault :=
  if c.calls.head?.map Execution.id = some x then c.fault else none

def stage (w : World ω) (fault : Option Fault) : Option Execution → Config ω
  | none => .returned w
  | some execution =>
    match fault with
    | none => .after (w, execution.next)
    | some fault => .crashed fault w

/-- Where the session `x` of a workflow stands. -/
def place (c : Working ω) (x : UUID) (s : Session) : Config ω :=
  stage ⟨s, c.env, c.events x⟩ (c.faultIn x) (c.calls.find? (·.id = x))

variable {c : Working ω} {x y : UUID} {s : Session}

theorem faultIn_of_none (h : c.fault = none) (x : UUID) : c.faultIn x = none := by
  unfold faultIn
  rw [h]
  exact ite_self _

theorem find?_calls_eq_none {calls : List Execution} (h : ∀ e ∈ calls, e.id ≠ x) : calls.find? (·.id = x) = none :=
  List.find?_eq_none.mpr fun e he => by simpa using h e he

theorem place_of_absent (h : ∀ e ∈ c.calls, e.id ≠ x) : c.place x s = .returned ⟨s, c.env, c.events x⟩ := by
  unfold place
  rw [find?_calls_eq_none h]
  rfl

theorem place_of_cons {execution : Execution} {rest : List Execution} (hfault : c.fault = none)
    (hcalls : c.calls = execution :: rest) (hid : execution.id = x) :
    c.place x s = .after (⟨s, c.env, c.events x⟩, execution.next) := by
  unfold place
  rw [faultIn_of_none hfault, hcalls, List.find?_cons_of_pos (by simpa using hid)]
  rfl

theorem withEnv_stage (w : World ω) (fault : Option Fault) (env : ω) (execution : Option Execution) :
    (stage w fault execution).withEnv env = stage { w with env := env } fault execution := by
  rcases execution with _ | ⟨id, performing, _ | call⟩ <;> cases fault <;> rfl

theorem engage_of_ok {performing : Bool} {rsession : RunningSession} {rest : List Execution}
    {f : World ω → Except Fault (Onward ω)} {out : Onward ω} (h : f ⟨rsession.session, c.env, []⟩ = .ok out) :
    c.engage x performing rsession rest f =
      { c with
        workflow := c.workflow.store x { rsession with session := out.1.session }
        env := out.1.env
        calls := ⟨x, performing, out.2⟩ :: rest
        history := c.history ++ out.1.trace.map (.session x) } := by
  unfold engage
  rw [h]

theorem engage_of_error {performing : Bool} {rsession : RunningSession} {rest : List Execution}
    {f : World ω → Except Fault (Onward ω)} {fault : Fault} (h : f ⟨rsession.session, c.env, []⟩ = .error fault) :
    c.engage x performing rsession rest f =
      { c with
        workflow := c.workflow.store x rsession
        calls := ⟨x, performing, none⟩ :: rest
        fault := some fault } := by
  unfold engage
  rw [h]

theorem place_engage {performing : Bool} {rsession : RunningSession} {rest : List Execution}
    {f : World ω → Except Fault (Onward ω)} (hfault : c.fault = none)
    (hf : ∀ pre w, f (w.behind pre) = (f w).map (Onward.behind pre)) :
    ∃ s', (c.engage x performing rsession rest f).workflow.sessions.find? x = some { rsession with session := s' } ∧
      (c.engage x performing rsession rest f).place x s' =
        .ofStep ⟨rsession.session, c.env, c.events x⟩ (f ⟨rsession.session, c.env, c.events x⟩) := by
  have hbehind : f ⟨rsession.session, c.env, c.events x⟩ =
      (f ⟨rsession.session, c.env, []⟩).map (Onward.behind (c.events x)) := by
    rw [← hf]
    unfold World.behind
    rw [List.append_nil]
  cases hout : f ⟨rsession.session, c.env, []⟩ with
  | error fault =>
    rw [hbehind, hout, engage_of_error hout]
    refine ⟨rsession.session, (Workflow.find?_store ..).trans (if_pos rfl), ?_⟩
    unfold place faultIn
    rw [List.find?_cons_of_pos (by simp)]
    exact congrArg (stage _ · _) (if_pos rfl)
  | ok out =>
    have hengaged : c.engage x performing rsession rest f = _ := engage_of_ok hout
    have hcalls := congrArg calls hengaged
    have hevents : (c.engage x performing rsession rest f).events x = c.events x ++ out.1.trace := by
      rw [hengaged, events_append (c := c) rfl, filterMap_event?_self]
    refine ⟨out.1.session, ?_, ?_⟩
    · rw [hengaged]
      exact (Workflow.find?_store ..).trans (if_pos rfl)
    · rw [hbehind, hout, place_of_cons ((congrArg fault hengaged).trans hfault) hcalls rfl, hevents,
        congrArg env hengaged]
      rfl

theorem alone_of_left {m : StateMachine ω} {c' : Working ω} {execution : Execution} {rest : List Execution}
    (halone : m.Alone x (c.place x s)) (hfault : c.fault = none) (hcalls : c.calls = execution :: rest)
    (hnext : execution.next = none) (hothers : ∀ e ∈ rest, e.id ≠ execution.id) (hcalls' : c'.calls = rest)
    (hfault' : c'.fault = none) (henv : c'.env = c.env) (hevents : c'.events x = c.events x) :
    m.Alone x (c'.place x s) := by
  suffices hplace : c'.place x s = c.place x s from hplace ▸ halone
  by_cases hid : execution.id = x
  · subst hid
    rw [place_of_absent (by rwa [hcalls']), place_of_cons hfault hcalls rfl, hnext, henv, hevents]
    rfl
  · unfold place
    rw [faultIn_of_none hfault, faultIn_of_none hfault', hcalls, hcalls', List.find?_cons_of_neg (by simpa using hid),
      henv, hevents]

theorem place_engage_of_ne {performing : Bool} {rsession : RunningSession} {rest : List Execution}
    {f : World ω → Except Fault (Onward ω)} (hfault : c.fault = none) (hne : y ≠ x)
    (hrest : c.calls.find? (·.id = y) = rest.find? (·.id = y)) (s : Session) :
    (c.engage x performing rsession rest f).place y s =
      (c.place y s).withEnv (c.engage x performing rsession rest f).env := by
  have hskip : ∀ next, (⟨x, performing, next⟩ :: rest : List Execution).find? (·.id = y) =
      c.calls.find? (·.id = y) := fun next => by
    rw [hrest]
    exact List.find?_cons_of_neg (by simpa using hne.symm)
  unfold place
  rw [withEnv_stage, faultIn_of_none hfault]
  cases hout : f ⟨rsession.session, c.env, []⟩ with
  | error fault =>
    rw [engage_of_error hout]
    have hnone : faultIn { c with
        workflow := c.workflow.store x rsession, calls := ⟨x, performing, none⟩ :: rest, fault := some fault } y =
        none := if_neg (by simpa using hne.symm)
    rw [hnone, hskip]
    rfl
  | ok out =>
    rw [engage_of_ok hout, hskip, events_append (c := c) rfl, filterMap_event?_of_ne hne.symm, List.append_nil]
    exact congrArg (stage _ · _) (faultIn_of_none (by exact hfault) y)

end Working

/-! ### Runs of a workflow -/

/-- No message comes for a session whose asynchronous action has just ended and is being followed up, and no such
end for a session in a call. -/
def Undisturbed (c : Working ω) (label : Option Arrival) : Prop :=
  ∀ arrival, label = some arrival → ∀ execution ∈ c.calls, execution.id = arrival.id →
    execution.performing = true ∧ ∃ request flag, arrival = .perform request flag

/-- What holds of every undisturbed run of a workflow. -/
structure Isolated (m : StateMachine ω) (c : Working ω) : Prop where
  machine : c.workflow.stateMachine = m
  nodup : (c.calls.map Execution.id).Nodup
  held : ∀ execution ∈ c.calls, ∃ rsession, c.workflow.sessions.find? execution.id = some rsession ∧
    (execution.performing = true → rsession.active = true)
  alone : ∀ x rsession, c.workflow.sessions.find? x = some rsession → m.Alone x (c.place x rsession.session)

namespace Isolated

open Working

variable {m : StateMachine ω} {c c' : Working ω} {x : UUID}

theorem record (hc : Isolated m c) {l : List Occurrence} (hl : ∀ x, l.filterMap (Occurrence.event? x) = []) :
    Isolated m (c.record l) := by
  refine ⟨hc.machine, hc.nodup, hc.held, fun x rsession hfind => ?_⟩
  have halone := hc.alone x rsession hfind
  unfold place at halone ⊢
  rw [events_append (c := c) rfl, hl, List.append_nil]
  exact halone

theorem store (hc : Isolated m c) {rsession rsession' : RunningSession}
    (hfind : c.workflow.sessions.find? x = some rsession) (hsession : rsession'.session = rsession.session)
    (hactive : rsession.active = true → rsession'.active = true) :
    Isolated m { c with workflow := c.workflow.store x rsession' } := by
  refine ⟨hc.machine, hc.nodup, fun execution hmem => ?_, fun y rs hy => ?_⟩
  · obtain ⟨rs, hrs, hperforming⟩ := hc.held execution hmem
    dsimp only
    rw [Workflow.find?_store]
    split_ifs with hid
    · rw [hid, hfind] at hrs
      cases hrs
      exact ⟨rsession', rfl, fun h => hactive (hperforming h)⟩
    · exact ⟨rs, hrs, hperforming⟩
  · dsimp only at hy
    rw [Workflow.find?_store] at hy
    split_ifs at hy with hid
    · cases hy
      rw [hsession, hid]
      exact hc.alone x rsession hfind
    · exact hc.alone y rs hy

theorem engage (hc : Isolated m c) (hfault : c.fault = none) {performing : Bool} {rsession : RunningSession}
    {rest : List Execution} {f : World ω → Except Fault (Onward ω)}
    (hf : ∀ pre w, f (w.behind pre) = (f w).map (Onward.behind pre))
    (hnodup : (x :: rest.map Execution.id).Nodup) (hrest : ∀ e ∈ rest, e ∈ c.calls)
    (hothers : ∀ y, y ≠ x → c.calls.find? (·.id = y) = rest.find? (·.id = y))
    (hactive : performing = true → rsession.active = true)
    (halone : m.Alone x (.ofStep ⟨rsession.session, c.env, c.events x⟩
      (f ⟨rsession.session, c.env, c.events x⟩))) :
    Isolated m (c.engage x performing rsession rest f) := by
  obtain ⟨s', hfind, hplace⟩ : ∃ s', (c.engage x performing rsession rest f).workflow.sessions.find? x =
      some { rsession with session := s' } ∧ (c.engage x performing rsession rest f).place x s' =
        .ofStep ⟨rsession.session, c.env, c.events x⟩ (f ⟨rsession.session, c.env, c.events x⟩) :=
    place_engage hfault hf
  obtain ⟨next, s, hcalls, hstore⟩ : ∃ next s,
      (c.engage x performing rsession rest f).calls = ⟨x, performing, next⟩ :: rest ∧
        (c.engage x performing rsession rest f).workflow = c.workflow.store x { rsession with session := s } := by
    cases hout : f ⟨rsession.session, c.env, []⟩ with
    | error fault => exact ⟨none, rsession.session, by rw [engage_of_error hout], by rw [engage_of_error hout]⟩
    | ok out => exact ⟨out.2, out.1.session, by rw [engage_of_ok hout], by rw [engage_of_ok hout]⟩
  have hkept : ∀ y, y ≠ x → (c.engage x performing rsession rest f).workflow.sessions.find? y =
      c.workflow.sessions.find? y := fun y hne => by rw [hstore, Workflow.find?_store, if_neg hne]
  refine ⟨?_, by rwa [hcalls], fun execution hmem => ?_, fun y rs hy => ?_⟩
  · rw [hstore]
    exact hc.machine
  · rw [hcalls] at hmem
    rcases List.mem_cons.mp hmem with rfl | hmem
    · exact ⟨_, hfind, hactive⟩
    · have hne : execution.id ≠ x := fun heq =>
        (List.nodup_cons.mp hnodup).1 (heq ▸ List.mem_map_of_mem hmem)
      rw [hkept _ hne]
      exact hc.held execution (hrest _ hmem)
  · by_cases hne : y = x
    · subst hne
      cases hfind.symm.trans hy
      rw [hplace]
      exact halone
    · rw [hkept y hne] at hy
      rw [place_engage_of_ne hfault hne (hothers y hne)]
      exact (hc.alone y rs hy).withEnv _

theorem leave (hc : Isolated m c) (hretained : Retained c) (hfault : c.fault = none) {execution : Execution}
    {rsession : RunningSession} {rest : List Execution} (hcalls : c.calls = execution :: rest)
    (hfind : c.workflow.sessions.find? execution.id = some rsession) (hnext : execution.next = none) :
    Isolated m (c.leave execution rsession rest) := by
  have hnodup := hc.nodup
  rw [hcalls, List.map_cons, List.nodup_cons] at hnodup
  have hothers : ∀ e ∈ rest, e.id ≠ execution.id := fun e he heq => hnodup.1 (heq ▸ List.mem_map_of_mem he)
  have hheld : ∀ e ∈ rest, e ∈ c.calls := fun e he => hcalls ▸ List.mem_cons_of_mem _ he
  rw [Workflow.leave_eq (hretained.live _ _ hfind)]
  split_ifs
  · refine ⟨hc.machine, hnodup.2, fun e he => ?_, fun x rs hx => ?_⟩
    · dsimp only
      rw [Workflow.find?_store, if_neg (hothers e he)]
      exact hc.held e (hheld e he)
    · refine alone_of_left ?_ hfault hcalls hnext hothers rfl hfault rfl rfl
      dsimp only at hx
      rw [Workflow.find?_store] at hx
      split_ifs at hx with hid
      · cases hx
        exact hid ▸ hc.alone _ rsession hfind
      · exact hc.alone x rs hx
  · refine ⟨hc.machine, hnodup.2, fun e he => hc.held e (hheld e he), fun x rs hx => ?_⟩
    exact alone_of_left (hc.alone x rs hx) hfault hcalls hnext hothers rfl hfault rfl rfl

/-- The entry a request finds, or the one that is made for it, is that of a session that runs alone. -/
theorem alone_rsession (hc : Isolated m c) (hretained : Retained c) (request : Request) (flag : Bool) :
    m.Alone request.getId (c.place request.getId (c.workflow.rsession request flag).session) := by
  cases hfind : c.workflow.sessions.find? request.getId with
  | some rsession =>
    rw [Workflow.rsession_of_find? hfind]
    exact hc.alone _ rsession hfind
  | none =>
    rw [Workflow.rsession_of_absent hfind]
    have hcalls : ∀ e ∈ c.calls, e.id ≠ request.getId := by
      rintro e he hid
      obtain ⟨rs, hrs, -⟩ := hc.held e he
      cases (hid ▸ hfind).symm.trans hrs
    have hevents : c.events request.getId = [] := by
      refine List.filterMap_eq_nil_iff.mpr fun occurrence hmem => ?_
      cases occurrence with
      | session id event =>
        refine if_neg fun hid => ?_
        have hcontains := hretained.witnessed id event hmem
        rw [hid, OrdMap.contains_iff, hfind] at hcontains
        obtain ⟨_, hnone⟩ := hcontains
        cases hnone
      | accepted | refused | handed => rfl
    rw [place_of_absent hcalls, hevents]
    exact .opened request c.env

theorem parked (hc : Isolated m c) (hretained : Retained c) {request : Request} {flag : Bool} :
    Isolated m { c with
      workflow := c.workflow.store request.getId ((c.workflow.rsession request flag).addToPending request) } := by
  cases hfind : c.workflow.sessions.find? request.getId with
  | some rsession =>
    rw [Workflow.rsession_of_find? hfind]
    exact hc.store hfind rfl id
  | none =>
    have halone := hc.alone_rsession hretained request flag
    refine ⟨hc.machine, hc.nodup, fun e he => ?_, fun x rs hx => ?_⟩
    · obtain ⟨rs, hrs, hactive⟩ := hc.held e he
      dsimp only
      rw [Workflow.find?_store, if_neg fun hid => by rw [hid, hfind] at hrs; cases hrs]
      exact ⟨rs, hrs, hactive⟩
    · dsimp only at hx
      rw [Workflow.find?_store] at hx
      split_ifs at hx with hid
      · cases hx
        exact hid ▸ halone
      · exact hc.alone x rs hx

theorem filterMap_event?_eq_nil {l : List Occurrence} (hl : ∀ id event, .session id event ∉ l) (x : UUID) :
    l.filterMap (Occurrence.event? x) = [] := by
  refine List.filterMap_eq_nil_iff.mpr fun occurrence hmem => ?_
  cases occurrence with
  | session id event => exact absurd hmem (hl id event)
  | accepted | refused | handed => rfl

theorem perform (hc : Isolated m c) (hretained : Retained c) (hfault : c.fault = none) {request : Request}
    {flag : Bool} (hguard : Undisturbed c (some (.perform request flag))) :
    Isolated m (c.perform request flag) := by
  unfold Working.perform
  split_ifs with hcan
  · dsimp only
    split_ifs with hactive
    · exact (hc.parked hretained).record (filterMap_event?_eq_nil (by simp))
    · have hfree : ∀ e ∈ c.calls, e.id ≠ request.getId := by
        rintro e he hid
        obtain ⟨hperforming, -⟩ := hguard _ rfl e he hid
        obtain ⟨rsession, hfind, hheld⟩ := hc.held e he
        rw [hid] at hfind
        rw [Workflow.rsession_of_find? hfind, RunningSession.shouldMakePending] at hactive
        exact hactive (hheld hperforming)
      have halone := hc.alone_rsession hretained request flag
      rw [place_of_absent hfree] at halone
      have hevents : (c.record [.accepted request, .handed request]).events request.getId = c.events request.getId := by
        rw [events_append (c := c) rfl, filterMap_event?_eq_nil (by simp), List.append_nil]
      refine (hc.record (filterMap_event?_eq_nil (by simp))).engage hfault
        (fun pre w => StateMachine.execute_behind pre w request) ?_ (fun e he => he) (fun y _ => rfl) (fun _ => rfl) ?_
      · refine List.nodup_cons.mpr ⟨fun hmem => ?_, hc.nodup⟩
        obtain ⟨e, he, hid⟩ := List.mem_map.mp hmem
        exact hfree e he hid
      · rw [hevents]
        obtain rfl := hc.machine
        exact halone.message (.request request)
  · exact hc.record (filterMap_event?_eq_nil (by simp))

theorem trans (hc : Isolated m c) (hretained : Retained c) {label : Option Arrival} (hguard : Undisturbed c label)
    (h : (Workflow.system ω).Trans c label c') : Isolated m c' := by
  cases h with
  | internal hnext =>
    simp only [Workflow.system] at hnext
    split at hnext
    · rename_i execution rest hfault hcalls
      obtain ⟨rsession, hfind, rfl⟩ := Option.map_eq_some_iff.mp hnext
      unfold proceed
      cases hcall : execution.next with
      | none => exact hc.leave hretained hfault hcalls hfind hcall
      | some call =>
        have hnodup := hc.nodup
        rw [hcalls] at hnodup
        refine hc.engage hfault (fun pre w => StateMachine.makeCall_behind pre w call) hnodup
          (fun e he => hcalls ▸ List.mem_cons_of_mem _ he) (fun y hne => ?_) (fun hperforming => ?_) ?_
        · rw [hcalls, List.find?_cons_of_neg (by simpa using hne.symm)]
        · obtain ⟨rs, hrs, hactive⟩ := hc.held execution (hcalls ▸ List.mem_cons_self)
          cases hfind.symm.trans hrs
          exact hactive hperforming
        · have halone := hc.alone _ rsession hfind
          rw [place_of_cons hfault hcalls rfl, hcall] at halone
          obtain rfl := hc.machine
          exact halone.call
    · cases hnext
  | @input _ arrival haccept =>
    simp only [Workflow.system] at haccept
    split at haccept
    · rename_i request flag hfault
      cases haccept
      exact hc.perform hretained hfault hguard
    · rename_i id result hfault
      obtain ⟨rsession, hfind, rfl⟩ := Option.map_eq_some_iff.mp haccept
      -- `Undisturbed`: nothing ends asynchronously while a call of its session is being made
      have hfree : ∀ e ∈ c.calls, e.id ≠ id := by
        rintro e he hid
        obtain ⟨-, request, flag, heq⟩ := hguard _ rfl e he hid
        cases heq
      refine hc.engage hfault (fun pre w => StateMachine.actionExecuted_behind pre w result) ?_ (fun e he => he)
        (fun y _ => rfl) (fun h => absurd h Bool.false_ne_true) ?_
      · refine List.nodup_cons.mpr ⟨fun hmem => ?_, hc.nodup⟩
        obtain ⟨e, he, hid⟩ := List.mem_map.mp hmem
        exact hfree e he hid
      · have halone := hc.alone _ rsession hfind
        rw [place_of_absent hfree] at halone
        obtain rfl := hc.machine
        exact halone.message (.asyncFinished result)
    · cases haccept

end Isolated

namespace Workflow

/-- **Sessions do not see each other.** In every undisturbed run of a workflow, whatever the order of its requests
and the nesting of its calls, each session stands where an execution of the state machine alone brings it, from its
opening by a request with its id, in an environment that may change between its calls: with the same session, the
same call to be made, and the same events. -/
theorem runs_alone {m : StateMachine ω} {hm : m.Initialised} {env : ω} {c : Working ω}
    (hrun : (system ω).Run Undisturbed (opened m hm env) c) {x : UUID} {rsession : RunningSession}
    (hfind : c.workflow.sessions.find? x = some rsession) :
    ∃ request env₀, request.getId = x ∧
      m.shared.Reachable (StateMachine.opened request env₀) (c.place x rsession.session) := by
  have hinv : Retained c ∧ Isolated m c := by
    refine hrun.invariant (I := fun c => Retained c ∧ Isolated m c) ?_ ?_
    · exact ⟨reachable_retained .start, rfl, List.nodup_nil, fun _ h => (nomatch h), fun _ _ h => (nomatch h)⟩
    · rintro c label c' ⟨hretained, hc⟩ hguard htrans
      exact ⟨retained_of_moved hretained (moved_of_trans htrans), hc.trans hretained hguard htrans⟩
  exact hinv.2.alone x rsession hfind

end Workflow

namespace Sample

open Workflow

def secondRequest : Request :=
  Request.ofTargets { target .defaultAction 0 0 with identifier := 2 } (target .reply (-1) 0)

def nested : Working Unit :=
  begun.perform secondRequest false

theorem nested_undisturbed :
    (system Unit).Run Undisturbed (opened (single .wait) (single_initialised .wait) ()) nested := by
  have haccept : (system Unit).accept begun (.perform secondRequest false) = some nested := rfl
  have hfirst : (system Unit).Run Undisturbed (opened (single .wait) (single_initialised .wait) ()) begun := by
    refine Reactive.System.Run.start.input ?_ begun_accepted
    rintro arrival - execution hmem
    cases hmem
  refine hfirst.input ?_ haccept
  rintro arrival ⟨⟩ execution hmem hid
  rw [List.mem_singleton.mp hmem] at hid
  exact absurd hid (by decide)

/-- In the second call, the first session is where it would be alone. -/
theorem nested_alone : nested.calls.map Execution.id = [2, 1] ∧
    ∃ rsession, nested.workflow.sessions.find? 1 = some rsession ∧ ∃ request env, request.getId = 1 ∧
      (single .wait).shared.Reachable (StateMachine.opened request env) (nested.place 1 rsession.session) :=
  ⟨rfl, _, rfl, runs_alone nested_undisturbed rfl⟩

end Sample

end LibWorkflow
