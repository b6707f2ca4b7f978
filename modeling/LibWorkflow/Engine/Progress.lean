import LibWorkflow.Engine.Runs

/-!
# The engine does not crash

On a machine made after `init`, whose actions return results under their own id, every lookup of the
engine finds what it looks for: `Session::getStatus` never throws and `actions[id]` is always there
(`never_crashes`).
-/

namespace LibWorkflow

open Ordered Fallible

namespace StateMachine

variable {ω : Type} {m : StateMachine ω}

/-- The messages of a session in use: asynchronous actions are completed, and Interrupt messages come
only where there is an Interrupt action. -/
structure Admissible (m : StateMachine ω) (c : Config ω) (label : Option Message) : Prop where
  completes : CompletesAsync c label
  interrupts : ∀ request, label = some (.request request) → request.target.target = .interrupt →
    m.Registered Step.interrupt.id

theorem executeAction_succeeds (hm : Initialised m) {w : World ω} {id : ℤ} (hidle : id = -1 → w.session.Idle)
    (hs : m.Statused w.session) : ∃ out, m.executeAction w id = .ok out := by
  unfold executeAction
  by_cases hdie : id = Step.die.id
  · rw [if_pos hdie]
    exact ⟨_, rfl⟩
  rw [if_neg hdie]
  by_cases hneg : id = -1
  · rw [if_pos hneg]
    exact executeNone_succeeds hm.laid (hidle hneg) hs
      (hm.registered (.inr (.inr (.inl rfl)))) (hm.registered (.inr (.inl rfl)))
  rw [if_neg hneg]
  dsimp only
  cases m.actions.find? id with
  | none => exact ⟨_, rfl⟩
  | some ptr => exact ⟨_, rfl⟩

theorem executeNext_succeeds {w : World ω} (hs : m.Grounded w.session) :
    ∃ out, m.executeNext w = .ok out := by
  obtain ⟨next, s, hnext⟩ := getNext_succeeds hs.pendings
  exact ⟨_, executeNext_eq_ok.mpr ⟨next, s, hnext, rfl⟩⟩

theorem actionExecuted_succeeds (hm : m.Laid) {w : World ω} {result : Result}
    (hw : m.Grounded w.session) (hs : m.Statused w.session) (hreg : m.Registered result.actionId) :
    ∃ out, m.actionExecuted w result = .ok out := by
  obtain ⟨ptr, hptr⟩ := exists_actionAt hreg
  obtain ⟨s, hbind⟩ : ∃ s, m.bindResults w.env (w.session.setStatus result.actionId .done) result.actionId =
      .ok s := bindResults_succeeds hm (hs.setStatus result.actionId .done) hreg
  unfold actionExecuted
  rw [hptr, ok_bind]
  cases htype : result.type with
  | done =>
    cases ptr.checkOutputs w.env w.session with
    | false => exact ⟨_, rfl⟩
    | true =>
      have hbound := (hw.setStatus hreg .done).reschedules (bindResults_reschedules hbind)
      obtain ⟨out, hnext⟩ := executeNext_succeeds (w := { w with session := s }) hbound
      exact ⟨out, bind_eq_ok.mpr ⟨s, hbind, hnext⟩⟩
  | async => exact ⟨_, rfl⟩
  | finish => exact ⟨_, bind_eq_ok.mpr ⟨s, hbind, rfl⟩⟩
  | wait => exact ⟨_, rfl⟩
  | error => exact ⟨_, rfl⟩

theorem scheduleStarters_succeeds (hm : m.Laid) {env : ω} {starters : List InputBinding} {s : Session}
    (hs : m.Statused s) : ∃ complete s', m.scheduleStarters env s starters = .ok (complete, s') := by
  induction starters generalizing s with
  | nil => exact ⟨true, s, rfl⟩
  | cons input starters ih =>
    rw [scheduleStarters]
    cases hptr : m.actions.find? input.actionId with
    | none => exact ⟨false, s, rfl⟩
    | some ptr =>
      have hreg : m.Registered input.actionId := ⟨ptr, hptr⟩
      have hplan : m.Reschedules (· = input.actionId) s (s.plan input.actionId) := .plan rfl (.inr hreg)
      have hpend : m.Reschedules (· = input.actionId) s (s.pend input.actionId) := .pend rfl hreg
      obtain ⟨executable, hexec⟩ : ∃ b, m.canExecuteAction env s ptr = .ok b :=
        canExecuteAction_succeeds hm hs ptr
      dsimp only
      rw [hexec, ok_bind]
      cases executable with
      | true =>
        obtain ⟨complete, s', h⟩ := ih (hplan.statused hs)
        exact ⟨complete, s', bind_eq_ok.mpr ⟨_, addToNext_of_registered s hreg, h⟩⟩
      | false =>
        cases hcan : canPendAction env s ptr with
        | true =>
          obtain ⟨complete, s', h⟩ := ih (hpend.statused hs)
          exact ⟨complete, s', bind_eq_ok.mpr ⟨_, addToPending_eq_ok.mpr ⟨hreg, rfl⟩, h⟩⟩
        | false => exact ih hs

theorem firstCall_succeeds (hm : m.Laid) {w : World ω} (hw : m.Grounded w.session) :
    ∃ out, m.firstCall w = .ok out := by
  obtain ⟨complete, s, hstarters⟩ : ∃ complete s,
      m.scheduleStarters w.env (m.prepared w.session) m.starters = .ok (complete, s) :=
    scheduleStarters_succeeds hm (prepared_statused w.session)
  have hprepared := hw.setStatuses.reschedules (setStarterInputs_reschedules m.starters _)
  have hs := hprepared.reschedules (scheduleStarters_reschedules hstarters)
  cases complete with
  | true =>
    obtain ⟨out, hnext⟩ := executeNext_succeeds (w := { w with session := s }) hs
    exact ⟨out, bind_eq_ok.mpr ⟨(true, s), hstarters, hnext⟩⟩
  | false => exact ⟨_, bind_eq_ok.mpr ⟨(false, s), hstarters, rfl⟩⟩

theorem errorReceived_succeeds (hm : Initialised m) {w : World ω} (hs : m.Statused w.session)
    (request : Request) : ∃ out, m.errorReceived w request = .ok out := by
  have hreset : ∃ out, m.receiveStep w .error = .ok out :=
    ⟨_, (receiveStep_eq_ok (by decide)).mpr ⟨hm.registered (.inr (.inl rfl)), rfl⟩⟩
  unfold errorReceived
  cases hptr : m.actions.find? request.target.action with
  | none => exact hreset
  | some ptr =>
    obtain ⟨status, hst⟩ := hs _ ⟨ptr, hptr⟩
    dsimp only
    rw [Session.getStatus_eq_ok.mpr hst]
    by_cases hcaught : (decide (status = .waiting) && ptr.canHandleError w.env w.session) = true
    · exact ⟨_, if_pos hcaught⟩
    · obtain ⟨out, h⟩ := hreset
      exact ⟨out, (if_neg hcaught).trans h⟩

theorem receive_succeeds (hm : Initialised m) {w : World ω} (hw : m.Grounded w.session)
    (hs : m.StatusedWhenStarted w.session) {message : Message}
    (hguard : m.Admissible (.returned w) (some message)) : ∃ out, m.receive w message = .ok out := by
  cases message with
  | asyncFinished result =>
    have hasync := hguard.completes result rfl
    exact actionExecuted_succeeds hm.laid hw (hs.statused hasync) (hw.inFlight _ (.inr hasync))
  | request request =>
    have hpush : m.Grounded (w.session.pushRequest request) := hw.congr rfl rfl rfl
    show ∃ out, m.execute w request = .ok out
    cases hfresh : w.session.status.isEmpty with
    | true =>
      have hfresh' : (w.session.pushRequest request).status.isEmpty = true := hfresh
      obtain ⟨out, h⟩ := firstCall_succeeds hm.laid (w := ⟨w.session.pushRequest request, w.env, w.trace⟩) hpush
      exact ⟨out, (if_pos hfresh').trans h⟩
    | false =>
      have hstatused : m.Statused w.session := hs.resolve_left (by rw [hfresh]; exact Bool.false_ne_true)
      have hstarted := started_pushRequest hfresh request
      by_cases herror : request.target.target = .error
      · obtain ⟨out, h⟩ := errorReceived_succeeds hm
          (w := ⟨w.session.pushRequest request, w.env, w.trace⟩) (hstatused.congr rfl) request
        exact ⟨out, (if_neg hstarted).trans ((if_pos herror).trans h)⟩
      by_cases hinterrupt : request.target.target = .interrupt
      · obtain ⟨out, hreceive⟩ : ∃ out, m.receiveStep ⟨w.session.pushRequest request, w.env, w.trace⟩
            .interrupt = .ok out :=
          ⟨_, (receiveStep_eq_ok (by decide)).mpr ⟨hguard.interrupts request rfl hinterrupt, rfl⟩⟩
        exact ⟨out, (if_neg hstarted).trans ((if_neg herror).trans ((if_pos hinterrupt).trans hreceive))⟩
      · exact execute_succeeds hstatused hfresh herror hinterrupt

/-! ### Results of registered actions -/

end StateMachine

/-- The action a result names is registered, and the execution is not lost. -/
def Config.Answerable {ω : Type} (m : StateMachine ω) : Config ω → Prop
  | .running (.actionExecuted result) _ => m.Registered result.actionId
  | .crashed _ _ => False
  | _ => True

namespace StateMachine

variable {ω : Type} {m : StateMachine ω} {w : World ω} {out : Onward ω}

theorem executeAction_answerable (hm : m.Laid) (hown : m.OwnResults) {id : ℤ}
    (hcalled : m.Called w.session id) (h : m.executeAction w id = .ok out) :
    (Config.after out).Answerable m := by
  cases executeAction_cases h with
  | die => trivial
  | nothing h => cases executeNone_cases (hcalled.nothing rfl) h <;> trivial
  | @action _ ptr _ _ hptr w' result hperform =>
    show m.Registered result.actionId
    rw [hown.perform hm hptr hperform]
    exact ⟨ptr, hptr⟩
  | absent => trivial

theorem actionExecuted_answerable {result : Result} (h : m.actionExecuted w result = .ok out) :
    (Config.after out).Answerable m := by
  obtain ⟨ptr, -, hconsumed⟩ := actionExecuted_cases h
  cases hconsumed <;> trivial

theorem receive_answerable (hm : m.Laid) (hown : m.OwnResults) {message : Message}
    (h : m.receive w message = .ok out) : (Config.after out).Answerable m := by
  cases receive_cases hm h with
  | firstCall _ h =>
    rcases firstCall_cases h with ⟨_, _, -, ⟨-, _, _, -, rfl⟩ | ⟨-, rfl⟩⟩ <;> trivial
  | @answered request ptr w' result _ _ hptr _ hreply =>
    show m.Registered result.actionId
    rw [hown.replyReceived hm hptr hreply]
    exact ⟨ptr, hptr⟩
  | reset => trivial
  | ignored => trivial
  | finished h => exact actionExecuted_answerable h

theorem run_answerable (hm : Initialised m) (hown : m.OwnResults) {request : Request} {env : ω}
    {c : Config ω} (hrun : m.system.Run m.Admissible (opened request env) c) :
    c.Grounded m ∧ c.Statused m ∧ c.Answerable m := by
  refine run_induction (I := fun c => c.Grounded m ∧ c.Statused m ∧ c.Answerable m) hrun
    ⟨Grounded.ofRequest request, .inl rfl, trivial⟩ ?_ ?_ ?_ ?_
  · rintro (id | result) w out ⟨hw, hs, hregistered⟩ - h
    · exact ⟨executeAction_grounded hw h, executeAction_statused hw hs h,
        executeAction_answerable hm.laid hown hw h⟩
    · exact ⟨actionExecuted_grounded hm.laid hw h, actionExecuted_statused hs h, actionExecuted_answerable h⟩
  · rintro message w out ⟨hw, hs, -⟩ hguard h
    exact ⟨receive_grounded hm.laid hw h, receive_statused hm.laid hs hguard.completes h,
      receive_answerable hm.laid hown h⟩
  · rintro (id | result) w fault ⟨hw, hs, hregistered⟩ - h
    · obtain ⟨out, hok⟩ := executeAction_succeeds hm hw.nothing hs
      cases hok.symm.trans h
    · obtain ⟨out, hok⟩ := actionExecuted_succeeds hm.laid hw hs hregistered
      cases hok.symm.trans h
  · rintro message w fault ⟨hw, hs, -⟩ hguard h
    obtain ⟨out, hok⟩ := receive_succeeds hm hw hs hguard
    cases hok.symm.trans h

/-- No admissible run crashes. -/
theorem never_crashes (hm : Initialised m) (hown : m.OwnResults) {request : Request} {env : ω}
    {fault : Fault} {w : World ω} : ¬m.system.Run m.Admissible (opened request env) (.crashed fault w) :=
  fun hrun => (run_answerable hm hown hrun).2.2

end StateMachine

end LibWorkflow
