import LibWorkflow.Engine.Steps

/-!
# Runs of a session

The induction rule for the runs of a session, call by call and message by message (`run_induction`),
and the first invariant, which holds in every run of every machine (`reachable_grounded`): what is
planned or pending is registered, -1 is executed only when there is nothing left, and another id only
when it is planned or is one of the two steps the engine goes to directly.
-/

namespace LibWorkflow

open Ordered Fallible

namespace Config

variable {ω : Type} {w : World ω} {step : Except Fault (Onward ω)}

@[simp] theorem world_after (out : Onward ω) : (after out).world = out.1 := by
  obtain ⟨w, _ | call⟩ := out <;> rfl

theorem ofStep_eq_running {w' : World ω} {call : Call} :
    ofStep w step = .running call w' ↔ step = .ok (w', some call) := by
  rcases step with fault | ⟨w₁, _ | call₁⟩ <;> simp [ofStep, after, and_comm]

theorem exists_ok_of_ofStep (h : ∀ fault w', ofStep w step ≠ .crashed fault w') :
    ∃ out, step = .ok out ∧ (ofStep w step).world = out.1 := by
  cases step with
  | ok out => exact ⟨out, rfl, world_after out⟩
  | error fault => exact absurd rfl (h fault w)

end Config

namespace StateMachine

variable {ω : Type} {m : StateMachine ω} {guard : Config ω → Option Message → Prop}

/-- What holds at the start, and is kept by every call and every message, holds along the run. -/
theorem run_induction {I : Config ω → Prop} {start c : Config ω} (hrun : m.system.Run guard start c)
    (hstart : I start)
    (hcall : ∀ call w out, I (.running call w) → guard (.running call w) none →
      m.makeCall w call = .ok out → I (.after out))
    (hmessage : ∀ message w out, I (.returned w) → guard (.returned w) (some message) →
      m.receive w message = .ok out → I (.after out))
    (hcallFault : ∀ call w fault, I (.running call w) → guard (.running call w) none →
      m.makeCall w call = .error fault → I (.crashed fault w))
    (hmessageFault : ∀ message w fault, I (.returned w) → guard (.returned w) (some message) →
      m.receive w message = .error fault → I (.crashed fault w)) : I c := by
  refine hrun.invariant_cases hstart ?_ ?_
  · rintro (⟨call, w⟩ | _ | _) c' hinv hguard hnext
    · cases hnext
      cases hout : m.makeCall w call with
      | ok out => exact hcall call w out hinv hguard hout
      | error fault => exact hcallFault call w fault hinv hguard hout
    all_goals cases hnext
  · rintro (_ | w | _) message c' hinv hguard haccept
    case returned =>
      cases haccept
      cases hout : m.receive w message with
      | ok out => exact hmessage message w out hinv hguard hout
      | error fault => exact hmessageFault message w fault hinv hguard hout
    all_goals cases haccept

/-! ### What is scheduled is registered -/

/-- What is planned, pending or in flight is registered; only Die is planned without being an action. -/
structure Grounded (m : StateMachine ω) (s : Session) : Prop where
  nexts : ∀ id ∈ s.nexts, id = Step.die.id ∨ m.Registered id
  pendings : ∀ id ∈ s.pendings, m.Registered id
  inFlight : ∀ id, s.InFlight id → m.Registered id

namespace Grounded

variable {s s' : Session}

theorem of_idle (h : s.Idle) (hquiet : s.Quiet) : m.Grounded s where
  nexts id hid := absurd (.inl hid) (Session.not_active_of_idle h id)
  pendings id hid := absurd (.inr hid) (Session.not_active_of_idle h id)
  inFlight id hid := absurd hid (hquiet id)

theorem ofRequest (request : Request) : m.Grounded (.ofRequest request) :=
  of_idle ⟨rfl, rfl⟩ (Session.quiet_ofRequest request)

theorem resetSchedule (s : Session) : m.Grounded (m.resetSchedule s) :=
  of_idle (resetSchedule_idle s) (quiet_resetSchedule s)

theorem reschedules {ids : ℤ → Prop} (hs : m.Grounded s) (h : m.Reschedules ids s s') : m.Grounded s' where
  nexts id hid := (h.nexts id hid).elim (hs.nexts id) And.right
  pendings id hid := (h.pendings id hid).elim (hs.pendings id) And.right
  inFlight id hid := hs.inFlight id (h.inFlight hid)

theorem plan (hs : m.Grounded s) {id : ℤ} (hreg : m.Registered id) : m.Grounded (s.plan id) :=
  hs.reschedules (Reschedules.plan (m := m) rfl (.inr hreg) : m.Reschedules (· = id) s (s.plan id))

theorem congr (hs : m.Grounded s) (hnexts : s'.nexts = s.nexts) (hpendings : s'.pendings = s.pendings)
    (hstatus : s'.status = s.status) : m.Grounded s' :=
  ⟨hnexts ▸ hs.nexts, hpendings ▸ hs.pendings, fun id hid => hs.inFlight id (hid.congr hstatus.symm)⟩

theorem sameFlow (hs : m.Grounded s) (h : s.SameFlow s') : m.Grounded s' :=
  hs.congr h.nexts h.pendings h.status

theorem setStatus (hs : m.Grounded s) {id : ℤ} (hid : m.Registered id) (status : ExecutionStatus) :
    m.Grounded (s.setStatus id status) where
  nexts := hs.nexts
  pendings := hs.pendings
  inFlight a ha := by
    by_cases heq : a = id
    · exact heq ▸ hid
    · exact hs.inFlight a (ha.of_setStatus heq)

theorem setStatuses (hs : m.Grounded s) : m.Grounded (s.setStatuses m.actions.keys .unplanned) where
  nexts := hs.nexts
  pendings := hs.pendings
  inFlight a ha := by
    unfold Session.InFlight Session.setStatuses at ha
    rw [OrdMap.find?_insertAll] at ha
    split_ifs at ha
    · simp at ha
    · exact hs.inFlight a ha

theorem beginAction (hs : m.Grounded s) (id : ℤ) : m.Grounded (m.beginAction s id) := by
  unfold StateMachine.beginAction
  dsimp only
  split_ifs
  · exact of_idle ⟨rfl, rfl⟩ (((quiet_resetSchedule _).awaitsOnly id).settle (by decide) (by decide))
  · exact ⟨fun a ha => hs.nexts a (OrdSet.mem_erase.mp ha).2,
      fun a ha => hs.pendings a (OrdSet.mem_erase.mp ha).2, hs.inFlight⟩

theorem getNext (hm : m.Laid) (hs : m.Grounded s) {next : ℤ} (h : m.getNext s = .ok (next, s')) :
    m.Grounded s' ∧ (next = -1 → s'.Idle) ∧ (next ≠ -1 → next ∈ s'.nexts) := by
  obtain ⟨hpromotes, hpicked⟩ := getNext_spec h
  have hs' := hs.reschedules hpromotes.reschedules
  have hneg : ¬m.Registered (-1) := hm.not_registered (.inl rfl)
  refine ⟨hs', ?_, hpicked.mem_nexts⟩
  rintro rfl
  exact hpicked.idle (fun h => (hs'.nexts _ h).elim (by decide) hneg) fun h => hneg (hs'.pendings _ h)

end Grounded

/-- What holds where a call to `executeAction` is made. -/
structure Called (m : StateMachine ω) (s : Session) (id : ℤ) : Prop where
  grounded : m.Grounded s
  nothing : id = -1 → s.Idle
  planned : id ≠ -1 → id ∈ s.nexts ∨ id = Step.finish.id ∨ id = Step.error.id

theorem Called.of_getNext (hm : m.Laid) {s s' : Session} (hs : m.Grounded s) {next : ℤ}
    (h : m.getNext s = .ok (next, s')) : m.Called s' next := by
  obtain ⟨hs', hidle, hplanned⟩ := hs.getNext hm h
  exact ⟨hs', hidle, fun hne => .inl (hplanned hne)⟩

theorem Called.of_step {s : Session} (hs : m.Grounded s) {step : Step}
    (hstep : step = .finish ∨ step = .error) : m.Called s step.id where
  grounded := hs
  nothing h := by rcases hstep with rfl | rfl <;> exact absurd h (by decide)
  planned _ := by
    rcases hstep with rfl | rfl
    · exact .inr (.inl rfl)
    · exact .inr (.inr rfl)

theorem Called.of_mem {s : Session} (hs : m.Grounded s) {id : ℤ} (hid : id ≠ -1) (hmem : id ∈ s.nexts) :
    m.Called s id := ⟨hs, fun h => absurd h hid, fun _ => .inl hmem⟩

theorem Called.registered {s : Session} {id : ℤ} (h : m.Called s id) (hfinish : m.Registered Step.finish.id)
    (herror : m.Registered Step.error.id) (hneg : id ≠ -1) (hdie : id ≠ Step.die.id) : m.Registered id := by
  rcases h.planned hneg with hmem | rfl | rfl
  · exact (h.grounded.nexts id hmem).resolve_left hdie
  · exact hfinish
  · exact herror

theorem Called.active {s : Session} {id : ℤ} (h : m.Called s id) (hpos : 0 ≤ id) : s.Active id := by
  have hneg : id ≠ -1 := by omega
  rcases h.planned hneg with hmem | rfl | rfl
  · exact .inl hmem
  · exact absurd hpos (by decide)
  · exact absurd hpos (by decide)

end StateMachine

/-- The invariant of every run. -/
def Config.Grounded {ω : Type} (m : StateMachine ω) : Config ω → Prop
  | .running (.executeAction id) w => m.Called w.session id
  | .running (.actionExecuted _) w => m.Grounded w.session
  | .returned w => m.Grounded w.session
  | .crashed _ w => m.Grounded w.session

namespace StateMachine

variable {ω : Type} {m : StateMachine ω}

theorem actionExecuted_grounded (hm : m.Laid) {w : World ω} (hw : m.Grounded w.session) {result : Result}
    {out : Onward ω} (h : m.actionExecuted w result = .ok out) : (Config.after out).Grounded m := by
  obtain ⟨ptr, hptr, hconsumed⟩ := actionExecuted_cases h
  have hset : ∀ status, m.Grounded (w.session.setStatus result.actionId status) := hw.setStatus ⟨ptr, hptr⟩
  cases hconsumed with
  | broken =>
    have hreport : m.Grounded (w.session.setLastErrorReport (some (brokenContract w.session))) :=
      hw.congr rfl rfl rfl
    exact Called.of_step hreport (.inr rfl)
  | done _ _ hbind hnext =>
    exact Called.of_getNext hm ((hset .done).reschedules (bindResults_reschedules hbind)) hnext
  | async => exact hset .async
  | finish _ hbind =>
    exact Called.of_step ((hset .done).reschedules (bindResults_reschedules hbind)) (.inl rfl)
  | wait => exact hset .waiting
  | error =>
    have hreport : m.Grounded ((w.session.setLastErrorReport result.error).setStatus result.actionId .done) :=
      (hset .done).congr rfl rfl rfl
    exact Called.of_step hreport (.inr rfl)

theorem executeAction_grounded {w : World ω} {id : ℤ} (hw : m.Called w.session id) {out : Onward ω}
    (h : m.executeAction w id = .ok out) : (Config.after out).Grounded m := by
  cases executeAction_cases h with
  | die => exact hw.grounded
  | nothing h =>
    cases executeNone_cases (hw.nothing rfl) h with
    | finish _ hreg =>
      exact Called.of_mem (hw.grounded.plan hreg) (by decide) (OrdSet.mem_insert.mpr (.inl rfl))
    | error _ hreg =>
      have hreport : m.Grounded ((w.session.plan Step.error.id).setLastErrorReport
          (some (noend w.session))) := (hw.grounded.plan hreg).congr rfl rfl rfl
      exact Called.of_mem hreport (by decide) (OrdSet.mem_insert.mpr (.inl rfl))
  | @action _ ptr _ _ _ _ _ hperform =>
    exact (hw.grounded.beginAction id).sameFlow (ptr.sameFlow_of_perform hperform)
  | absent => exact hw.grounded.beginAction id

theorem receive_grounded (hm : m.Laid) {w : World ω} (hw : m.Grounded w.session) {message : Message}
    {out : Onward ω} (h : m.receive w message = .ok out) : (Config.after out).Grounded m := by
  cases receive_cases hm h with
  | @firstCall request _ _ h =>
    obtain ⟨complete, s, hstarters, hcases⟩ := firstCall_cases h
    have hpush : m.Grounded (w.session.pushRequest request) := hw.congr rfl rfl rfl
    have hprepared := hpush.setStatuses.reschedules (setStarterInputs_reschedules m.starters _)
    have hs := hprepared.reschedules (scheduleStarters_reschedules hstarters)
    rcases hcases with ⟨-, next, s', hnext, rfl⟩ | ⟨-, rfl⟩
    · exact Called.of_getNext hm hs hnext
    · exact hs
  | @answered request ptr _ _ _ _ _ _ hreply =>
    have hflow := ptr.sameFlow_of_replyReceived hreply
    have hpush : m.Grounded (w.session.pushRequest request) := hw.congr rfl rfl rfl
    exact hpush.sameFlow hflow
  | @reset request step _ hkind hreg =>
    have hreset : m.Grounded (m.resetSchedule (w.session.pushRequest request)) := .resetSchedule _
    refine Called.of_mem (hreset.plan hreg) ?_ (OrdSet.mem_insert.mpr (.inl rfl))
    rcases hkind with ⟨-, rfl, -⟩ | ⟨-, rfl⟩ <;> decide
  | ignored => exact hw.congr rfl rfl rfl
  | finished h => exact actionExecuted_grounded hm hw h

/-- In every reachable state what is scheduled is registered. -/
theorem reachable_grounded (hm : m.Laid) {request : Request} {env : ω} {c : Config ω}
    (hrun : m.system.Reachable (opened request env) c) : c.Grounded m := by
  refine run_induction hrun (Grounded.ofRequest request) ?_ ?_ ?_ ?_
  · rintro (id | result) w out hw - h
    · exact executeAction_grounded hw h
    · exact actionExecuted_grounded hm hw h
  · intro message w out hw _ h
    exact receive_grounded hm hw h
  · rintro (id | result) w fault hw - -
    · exact hw.grounded
    · exact hw
  · intro message w fault hw _ _
    exact hw

theorem next_cases {c c' : Config ω} (h : m.system.next c = some c') : ∃ call w, c = .running call w ∧
    ((∃ out, m.makeCall w call = .ok out ∧ c' = .after out) ∨ ∃ fault, c' = .crashed fault w) := by
  rcases c with ⟨call, w⟩ | _ | _
  · have hc' : c' = Config.ofStep w (m.makeCall w call) := (Option.some.inj h).symm
    refine ⟨call, w, rfl, ?_⟩
    cases hout : m.makeCall w call with
    | ok out => exact .inl ⟨out, rfl, by rw [hc', hout]; rfl⟩
    | error fault => exact .inr ⟨fault, by rw [hc', hout]; rfl⟩
  · cases h
  · cases h

/-- The induction rule of runs, with what is scheduled known to be registered. -/
theorem grounded_induction (hm : m.Laid) {guard : Config ω → Option Message → Prop}
    {I : Config ω → Prop} {request : Request} {env : ω} {c : Config ω}
    (hrun : m.system.Run guard (opened request env) c) (hstart : I (opened request env))
    (hexecute : ∀ id w out, m.Called w.session id → I (.running (.executeAction id) w) →
      guard (.running (.executeAction id) w) none → m.executeAction w id = .ok out → I (.after out))
    (hconsume : ∀ result w out, m.Grounded w.session → I (.running (.actionExecuted result) w) →
      guard (.running (.actionExecuted result) w) none → m.actionExecuted w result = .ok out →
      I (.after out))
    (hmessage : ∀ message w out, m.Grounded w.session → I (.returned w) →
      guard (.returned w) (some message) → m.receive w message = .ok out → I (.after out))
    (hcallFault : ∀ call w fault, I (.running call w) → I (.crashed fault w))
    (hmessageFault : ∀ w fault, I (.returned w) → I (.crashed fault w)) : I c := by
  suffices h : c.Grounded m ∧ I c from h.2
  refine run_induction (I := fun c => c.Grounded m ∧ I c) hrun ⟨Grounded.ofRequest request, hstart⟩ ?_ ?_ ?_ ?_
  · rintro (id | result) w out ⟨hw, hinv⟩ hguard h
    · exact ⟨executeAction_grounded hw h, hexecute id w out hw hinv hguard h⟩
    · exact ⟨actionExecuted_grounded hm hw h, hconsume result w out hw hinv hguard h⟩
  · intro message w out ⟨hw, hinv⟩ hguard h
    exact ⟨receive_grounded hm hw h, hmessage message w out hw hinv hguard h⟩
  · rintro (id | result) w fault ⟨hw, hinv⟩ - -
    · exact ⟨hw.grounded, hcallFault _ w fault hinv⟩
    · exact ⟨hw, hcallFault _ w fault hinv⟩
  · intro message w fault ⟨hw, hinv⟩ _ _
    exact ⟨hw, hmessageFault w fault hinv⟩

/-- Results name the action that returns them: they are made with `done()`, `wait()`, `async()` and
`error()`, which put the action's own id. -/
def OwnResults (m : StateMachine ω) : Prop :=
  ∀ id ptr, m.actions.find? id = some ptr →
    (∀ env s, (ptr.action.perform id env s).result.actionId = id) ∧
      ∀ env s request, (ptr.action.replyReceived id env s request).result.actionId = id

theorem OwnResults.perform (h : m.OwnResults) (hm : m.Laid) {id : ℤ} {ptr : ActionPtr ω}
    (hptr : m.actions.find? id = some ptr) {expectedOutput : List String} {w w' : World ω} {result : Result}
    (hperform : ptr.perform expectedOutput w = (w', result)) : result.actionId = id := by
  have hresult : result = (ptr.perform expectedOutput w).2 := (congrArg Prod.snd hperform).symm
  rw [hresult, ActionPtr.perform, hm.own hptr]
  exact (h id ptr hptr).1 _ _

theorem OwnResults.replyReceived (h : m.OwnResults) (hm : m.Laid) {id : ℤ} {ptr : ActionPtr ω}
    (hptr : m.actions.find? id = some ptr) {w w' : World ω} {request : Request} {result : Result}
    (hreply : ptr.replyReceived w request = (w', result)) : result.actionId = id := by
  have hresult : result = (ptr.replyReceived w request).2 := (congrArg Prod.snd hreply).symm
  rw [hresult, ActionPtr.replyReceived, hm.own hptr]
  exact (h id ptr hptr).2 _ _ _

theorem ownResults_new : (new : StateMachine ω).OwnResults := fun _ _ h => nomatch h

theorem OwnResults.addAction (h : m.OwnResults) (id : ℤ) {action : Action ω}
    (hperform : ∀ id env s, (action.perform id env s).result.actionId = id)
    (hreply : ∀ id env s request, (action.replyReceived id env s request).result.actionId = id)
    (bindings : List OutputBinding) : (m.addAction id action bindings).OwnResults :=
  forall_addAction h ⟨hperform id, hreply id⟩ bindings

theorem ownResults_init : (new : StateMachine ω).init.OwnResults :=
  (((ownResults_new.addAction _ (fun _ _ _ => rfl) (fun _ _ _ _ => rfl) _).addAction _
    (fun _ _ _ => rfl) (fun _ _ _ _ => rfl) _).addAction _
    (fun _ _ _ => rfl) (fun _ _ _ _ => rfl) _).addAction _ (fun _ _ _ => rfl) (fun _ _ _ _ => rfl) _

/-- Completions are delivered for asynchronous actions only. -/
def CompletesAsync (c : Config ω) (label : Option Message) : Prop :=
  ∀ result, label = some (.asyncFinished result) →
    c.world.session.status.find? result.actionId = some .async

/-! ### Every registered action has a status -/

theorem prepared_statused (s : Session) : m.Statused (m.prepared s) := by
  refine (setStarterInputs_reschedules (m := m) m.starters _).statused fun id hid => ⟨.unplanned, ?_⟩
  show (s.status.insertAll m.actions.keys .unplanned).find? id = some .unplanned
  rw [OrdMap.find?_insertAll, if_pos (OrdMap.mem_keys.mpr hid)]

theorem quiet_prepared {s : Session} (hfresh : s.status.isEmpty = true) : (m.prepared s).Quiet := by
  refine (setStarterInputs_reschedules (m := m) _ _).quiet fun a ha => ?_
  have hnone : s.status.find? a = none := OrdMap.isEmpty_iff.mp hfresh a
  unfold Session.InFlight Session.setStatuses at ha
  rw [OrdMap.find?_insertAll, hnone] at ha
  split_ifs at ha <;> simp at ha

theorem beginAction_statused {s : Session} (hs : m.Statused s) (id : ℤ) :
    m.Statused (m.beginAction s id) := by
  unfold beginAction
  dsimp only
  split_ifs
  · exact (resetSchedule_statused _).setStatus id .planned
  · exact hs

theorem Statused.congr {s s' : Session} (hs : m.Statused s) (h : s'.status = s.status) : m.Statused s' := by
  unfold Statused
  rw [h]
  exact hs

/-- A session is not started, or every registered action has a status. -/
def StatusedWhenStarted (m : StateMachine ω) (s : Session) : Prop := s.status.isEmpty = true ∨ m.Statused s

theorem StatusedWhenStarted.statused {s : Session} (hs : m.StatusedWhenStarted s) {id : ℤ}
    {status : ExecutionStatus} (h : s.status.find? id = some status) : m.Statused s := by
  refine hs.resolve_left fun hempty => ?_
  rw [OrdMap.isEmpty_iff.mp hempty id] at h
  cases h

end StateMachine

/-- Calls are made in sessions where every registered action has a status. -/
def Config.Statused {ω : Type} (m : StateMachine ω) : Config ω → Prop
  | .running _ w => m.Statused w.session
  | .returned w => m.StatusedWhenStarted w.session
  | .crashed _ _ => True

namespace StateMachine

variable {ω : Type} {m : StateMachine ω}

theorem Statused.after {w : World ω} {next : Option Call} (h : m.Statused w.session) :
    (Config.after (w, next)).Statused m := by
  cases next with
  | none => exact .inr h
  | some call => exact h

theorem executeAction_statused {w : World ω} {id : ℤ} (hcalled : m.Called w.session id)
    (hs : m.Statused w.session) {out : Onward ω} (h : m.executeAction w id = .ok out) :
    (Config.after out).Statused m := by
  cases executeAction_cases h with
  | die => exact Statused.after (w := w.emit _) hs
  | nothing h =>
    have hplan : ∀ a, m.Registered a → m.Statused (w.session.plan a) := fun a ha =>
      Reschedules.statused (Reschedules.plan rfl (.inr ha) : m.Reschedules (· = a) w.session _) hs
    cases executeNone_cases (hcalled.nothing rfl) h with
    | finish _ hreg => exact (hplan _ hreg).after
    | error _ hreg =>
      exact Statused.after (w := ⟨(w.session.plan _).setLastErrorReport _, w.env, w.trace⟩) (hplan _ hreg)
  | @action _ ptr _ _ _ _ _ hperform =>
    have hflow := ptr.sameFlow_of_perform hperform
    exact ((beginAction_statused hs id).congr hflow.status).after
  | absent => exact Statused.after (w := ⟨_, w.env, w.trace⟩) (beginAction_statused hs id)

theorem actionExecuted_statused {w : World ω} {result : Result} (hs : m.Statused w.session)
    {out : Onward ω} (h : m.actionExecuted w result = .ok out) : (Config.after out).Statused m := by
  have hset : ∀ status, m.Statused (w.session.setStatus result.actionId status) := hs.setStatus _
  obtain ⟨ptr, -, hconsumed⟩ := actionExecuted_cases h
  cases hconsumed with
  | broken => exact Statused.after (w := ⟨w.session.setLastErrorReport _, w.env, w.trace⟩) hs
  | done _ _ hbind hnext =>
    have hbound := (bindResults_reschedules hbind).statused (hset .done)
    exact Statused.after (w := ⟨_, w.env, w.trace⟩)
      ((getNext_spec hnext).1.reschedules.statused hbound)
  | async => exact Statused.after (w := ⟨_, w.env, w.trace⟩) (hset .async)
  | finish _ hbind =>
    exact Statused.after (w := ⟨_, w.env, w.trace⟩) ((bindResults_reschedules hbind).statused (hset .done))
  | wait => exact Statused.after (w := ⟨_, w.env, w.trace⟩) (hset .waiting)
  | error =>
    exact Statused.after (w := ⟨(w.session.setLastErrorReport _).setStatus _ .done, w.env, w.trace⟩)
      (hset .done)

theorem receive_statused (hm : m.Laid) {w : World ω} {message : Message}
    (hs : m.StatusedWhenStarted w.session) (hguard : CompletesAsync (.returned w) (some message))
    {out : Onward ω} (h : m.receive w message = .ok out) : (Config.after out).Statused m := by
  cases receive_cases hm h with
  | firstCall _ h =>
    obtain ⟨complete, s, hstarters, hcases⟩ := firstCall_cases h
    have hscheduled := (scheduleStarters_reschedules hstarters).statused (prepared_statused _)
    rcases hcases with ⟨-, next, s', hnext, rfl⟩ | ⟨-, rfl⟩
    · exact Statused.after (w := ⟨_, w.env, w.trace⟩)
        ((getNext_spec hnext).1.reschedules.statused hscheduled)
    · exact Statused.after (w := ⟨_, w.env, w.trace⟩) hscheduled
  | @answered request ptr _ _ _ _ _ hwait hreply =>
    have hflow := ptr.sameFlow_of_replyReceived hreply
    exact Statused.after ((hs.statused hwait).congr hflow.status)
  | @reset request step _ _ hreg =>
    have hreset : m.Statused (m.resetSchedule (w.session.pushRequest request)) := resetSchedule_statused _
    exact Statused.after (w := ⟨_, w.env, w.trace⟩) (Reschedules.statused
      (Reschedules.plan rfl (.inr hreg) : m.Reschedules (· = step.id) _ _) hreset)
  | ignored => exact hs
  | @finished result _ h => exact actionExecuted_statused (hs.statused (hguard result rfl)) h

theorem run_statused (hm : m.Laid) {request : Request} {env : ω} {c : Config ω}
    (hrun : m.system.Run CompletesAsync (opened request env) c) : c.Statused m :=
  grounded_induction hm hrun (.inl rfl)
    (fun _ _ _ hcalled hs _ h => executeAction_statused hcalled hs h)
    (fun _ _ _ _ hs _ h => actionExecuted_statused hs h)
    (fun _ _ _ _ hs hguard h => receive_statused hm hs hguard h)
    (fun _ _ _ _ => trivial) (fun _ _ _ => trivial)

/-! ### Nothing is scheduled before the first call -/

/-- What is planned or pending has a status. -/
def Started (s : Session) : Prop := ∀ id, s.Active id → s.status.isEmpty = false

theorem Started.idle {s : Session} (h : Started s) (hfresh : s.status.isEmpty = true) : s.Idle := by
  have hnone : ∀ id, ¬s.Active id := fun id ha => by
    rw [h id ha] at hfresh
    cases hfresh
  exact ⟨OrdSet.ext_mem fun a => iff_of_false (fun ha => hnone a (.inl ha)) (nomatch ·),
    OrdSet.ext_mem fun a => iff_of_false (fun ha => hnone a (.inr ha)) (nomatch ·)⟩

theorem Started.congr {s s' : Session} (h : Started s) (hnexts : s'.nexts = s.nexts)
    (hpendings : s'.pendings = s.pendings) (hstatus : s'.status = s.status) : Started s' := by
  intro id ha
  unfold Session.Active at ha
  rw [hnexts, hpendings] at ha
  rw [hstatus]
  exact h id ha

theorem executeAction_started {w : World ω} {id : ℤ} (hcalled : m.Called w.session id)
    (hw : Started w.session) {out : Onward ω} (h : m.executeAction w id = .ok out) : Started out.1.session := by
  have hbegin : Started (m.beginAction w.session id) := fun a ha =>
    started_beginAction (.inr (hw a (active_beginAction ha).1))
  cases executeAction_cases h with
  | die => exact hw
  | nothing h =>
    cases executeNone_cases (hcalled.nothing rfl) h with
    | finish => exact fun _ _ => started_plan w.session _
    | error => exact fun _ _ => started_plan w.session _
  | @action _ ptr _ _ _ _ _ hperform =>
    have hflow := ptr.sameFlow_of_perform hperform
    exact hbegin.congr hflow.nexts hflow.pendings hflow.status
  | absent => exact hbegin

theorem actionExecuted_started {w : World ω} {result : Result} (hw : Started w.session) {out : Onward ω}
    (h : m.actionExecuted w result = .ok out) : Started out.1.session := by
  obtain ⟨ptr, -, hconsumed⟩ := actionExecuted_cases h
  have hset : ∀ status, (w.session.setStatus result.actionId status).status.isEmpty = false :=
    started_setStatus w.session result.actionId
  cases hconsumed with
  | broken => exact hw
  | done _ _ hbind hnext =>
    have hbound := (bindResults_reschedules hbind).started (hset .done)
    exact fun _ _ => (getNext_spec hnext).1.reschedules.started hbound
  | async => exact fun _ _ => hset .async
  | finish _ hbind => exact fun _ _ => (bindResults_reschedules hbind).started (hset .done)
  | wait => exact fun _ _ => hset .waiting
  | error => exact fun _ _ => hset .done

theorem firstCall_started {w : World ω} (hidle : w.session.Idle) {out : Onward ω}
    (h : m.firstCall w = .ok out) : Started out.1.session := by
  obtain ⟨complete, s, hstarters, hcases⟩ := firstCall_cases h
  have hs : Started s := by
    refine scheduleStarters_invariant hstarters (P := Started) ?_ ?_ ?_
    · intro a ha
      have hbefore := ((setStarterInputs_reschedules (m := m) _ _).active ha).resolve_right id
      exact absurd hbefore (Session.not_active_of_idle hidle a)
    · intro input _ ptr c _ _ _
      exact fun _ _ => started_plan c _
    · intro input _ ptr c _ _ _ _
      exact fun _ _ => started_iff.mpr ⟨input.actionId, .pending, OrdMap.find?_insert_self ..⟩
  rcases hcases with ⟨-, next, s', hnext, rfl⟩ | ⟨-, rfl⟩
  · have hpromotes := (getNext_spec hnext).1
    exact fun a ha => hpromotes.reschedules.started (hs a ((hpromotes.active_iff a).mp ha))
  · exact hs

theorem receive_started (hm : m.Laid) {w : World ω} {message : Message} (hw : Started w.session)
    {out : Onward ω} (h : m.receive w message = .ok out) : Started out.1.session := by
  cases receive_cases hm h with
  | @firstCall request _ hfresh h =>
    exact firstCall_started (w := ⟨w.session.pushRequest request, w.env, w.trace⟩) (hw.idle hfresh) h
  | @answered request ptr _ _ _ _ _ _ hreply =>
    have hflow := ptr.sameFlow_of_replyReceived hreply
    exact hw.congr hflow.nexts hflow.pendings hflow.status
  | reset => exact fun _ _ => started_plan _ _
  | ignored => exact hw
  | finished h => exact actionExecuted_started hw h

theorem reachable_started (hm : m.Laid) {request : Request} {env : ω} {c : Config ω}
    (hrun : m.system.Reachable (opened request env) c) : Started c.world.session := by
  have hafter : ∀ out : Onward ω, Started out.1.session → Started (Config.after out).world.session :=
    fun out h => (Config.world_after out).symm ▸ h
  refine grounded_induction hm (I := fun c => Started c.world.session) hrun ?_ ?_ ?_ ?_ ?_ ?_
  · exact fun id ha => absurd ha (Session.not_active_of_idle ⟨rfl, rfl⟩ id)
  · exact fun _ _ _ hcalled hw _ h => hafter _ (executeAction_started hcalled hw h)
  · exact fun _ _ _ _ hw _ h => hafter _ (actionExecuted_started hw h)
  · exact fun _ _ _ _ hw _ h => hafter _ (receive_started hm hw h)
  · exact fun _ _ _ hw => hw
  · exact fun _ _ hw => hw

/-! ### The trace -/

/-- The call a message makes comes to its end in `w'`. -/
def Returns (m : StateMachine ω) (w : World ω) (message : Message) (w' : World ω) : Prop :=
  ∃ n, m.system.advance n (.ofStep w (m.receive w message)) = .returned w'

theorem executeNone_trace {w : World ω} {out : Onward ω} (h : m.executeNone w = .ok out) :
    out.1.trace = w.trace := by
  cases executedNone_of_eq_ok h <;> rfl

theorem makeCall_trace {w : World ω} {call : Call} {out : Onward ω} (h : m.makeCall w call = .ok out) :
    w.trace <+: out.1.trace := by
  cases call with
  | executeAction id =>
    cases executeAction_cases h with
    | die => exact List.prefix_append _ _
    | nothing h => exact (executeNone_trace h).symm ▸ List.prefix_rfl
    | @action _ ptr _ _ _ _ _ hperform =>
      obtain ⟨sent, htrace⟩ := ptr.trace_of_perform hperform
      exact ⟨_, htrace.symm⟩
    | absent => exact List.prefix_rfl
  | actionExecuted result =>
    obtain ⟨ptr, -, hconsumed⟩ := actionExecuted_cases h
    cases hconsumed <;> exact List.prefix_rfl

/-- What a step adds to the trace where it performs no action: no perform and no reply. -/
def Unheard (events : List Event) : Prop := ∀ e ∈ events, e.performedId? = none ∧ e.isReply = false

theorem unheard_nil : Unheard [] := fun _ h => nomatch h

theorem unheard_sent (sent : List Request) : Unheard (sent.map Event.sent) := by
  intro e he
  obtain ⟨request, -, rfl⟩ := List.mem_map.mp he
  exact ⟨rfl, rfl⟩

theorem Unheard.cons {event : Event} {events : List Event} (hevents : Unheard events)
    (hperformed : event.performedId? = none) (hreply : event.isReply = false) : Unheard (event :: events) := by
  intro e he
  rcases List.mem_cons.mp he with rfl | he
  · exact ⟨hperformed, hreply⟩
  · exact hevents e he

/-- What one step adds to the trace: the perform of an action, with the replies of its wrapper, or
nothing of the kind. -/
inductive Heard (m : StateMachine ω) (c : Config ω) : List Event → Prop
  | unheard {events : List Event} (h : Unheard events) : Heard m c events
  | performed {id : ℤ} {ptr : ActionPtr ω} {w : World ω} (hc : c = .running (.executeAction id) w)
      (hneg : id ≠ -1) (hptr : m.actions.find? id = some ptr) (sent : List Request) :
      Heard m c (.performed id (m.beginAction w.session id) ::
        (ptr.wrapReplies m.getExpectedOutput (m.beginAction w.session id) ++ sent.map Event.sent))

theorem makeCall_heard (hm : m.Laid) {w : World ω} {call : Call} {out : Onward ω}
    (h : m.makeCall w call = .ok out) :
    ∃ events, out.1.trace = w.trace ++ events ∧ m.Heard (.running call w) events := by
  have hsame : out.1.trace = w.trace →
      ∃ events, out.1.trace = w.trace ++ events ∧ m.Heard (.running call w) events :=
    fun htrace => ⟨[], by rw [htrace, List.append_nil], .unheard unheard_nil⟩
  cases call with
  | executeAction id =>
    cases executeAction_cases h with
    | die => exact ⟨_, rfl, .unheard (unheard_nil.cons rfl rfl)⟩
    | nothing h => exact hsame (executeNone_trace h)
    | @action _ ptr _ hneg hptr _ _ hperform =>
      obtain ⟨sent, htrace⟩ := ptr.trace_of_perform hperform
      rw [hm.own hptr] at htrace
      exact ⟨_, htrace, .performed rfl hneg hptr sent⟩
    | absent => exact hsame rfl
  | actionExecuted result =>
    obtain ⟨ptr, -, hconsumed⟩ := actionExecuted_cases h
    cases hconsumed <;> exact hsame rfl

theorem receive_heard (hm : m.Laid) {w : World ω} {message : Message} {out : Onward ω}
    (h : m.receive w message = .ok out) : ∃ events, out.1.trace = w.trace ++ events ∧ Unheard events := by
  have hsame : out.1.trace = w.trace → ∃ events, out.1.trace = w.trace ++ events ∧ Unheard events :=
    fun htrace => ⟨[], by rw [htrace, List.append_nil], unheard_nil⟩
  cases receive_cases hm h with
  | firstCall _ h =>
    rcases firstCall_cases h with ⟨_, _, -, ⟨-, _, _, -, rfl⟩ | ⟨-, rfl⟩⟩ <;> exact hsame rfl
  | @answered _ ptr _ _ _ _ _ _ hreply =>
    obtain ⟨sent, htrace⟩ := ptr.trace_of_replyReceived hreply
    exact ⟨_, htrace, (unheard_sent sent).cons rfl rfl⟩
  | reset => exact hsame rfl
  | ignored => exact hsame rfl
  | finished h =>
    obtain ⟨ptr, -, hconsumed⟩ := actionExecuted_cases h
    cases hconsumed <;> exact hsame rfl

/-- **The trace of a step.** -/
theorem trans_heard (hm : m.Laid) {c c' : Config ω} {label : Option Message}
    (h : m.system.Trans c label c') : ∃ events, c'.world.trace = c.world.trace ++ events ∧ m.Heard c events := by
  have hcrash : ∀ w : World ω, ∃ events, w.trace = w.trace ++ events ∧ m.Heard c events :=
    fun w => ⟨[], (List.append_nil _).symm, .unheard unheard_nil⟩
  cases h with
  | internal hnext =>
    rcases c with ⟨call, w⟩ | _ | _
    · cases hnext
      cases hout : m.makeCall w call with
      | ok out =>
        obtain ⟨events, htrace, hheard⟩ := makeCall_heard hm hout
        exact ⟨events, by rw [Config.ofStep, Config.world_after]; exact htrace, hheard⟩
      | error fault => exact hcrash w
    all_goals cases hnext
  | @input _ message haccept =>
    rcases c with _ | w | _
    case returned =>
      cases haccept
      cases hout : m.receive w message with
      | ok out =>
        obtain ⟨events, htrace, hheard⟩ := receive_heard hm hout
        exact ⟨events, by rw [Config.ofStep, Config.world_after]; exact htrace, .unheard hheard⟩
      | error fault => exact hcrash w
    all_goals cases haccept

theorem isReply_of_mem_wrapReplies {ptr : ActionPtr ω} {expected : List String} {s : Session} {event : Event}
    (h : event ∈ ptr.wrapReplies expected s) : event.isReply = true := by
  unfold ActionPtr.wrapReplies at h
  split at h
  · rw [List.mem_singleton.mp h]
    rfl
  · rw [List.mem_singleton.mp h]
    rfl
  · cases h

theorem Heard.of_performed {c : Config ω} {events : List Event} (h : m.Heard c events) {id : ℤ} {s : Session}
    (hperformed : .performed id s ∈ events) :
    ∃ ptr w, c = .running (.executeAction id) w ∧ id ≠ -1 ∧ m.actions.find? id = some ptr ∧
      s = m.beginAction w.session id := by
  cases h with
  | unheard h => exact nomatch (h _ hperformed).1
  | @performed a ptr w hc hneg hptr sent =>
    rcases List.mem_cons.mp hperformed with h | h
    · cases h
      exact ⟨ptr, w, hc, hneg, hptr, rfl⟩
    rcases List.mem_append.mp h with h | h
    · exact nomatch isReply_of_mem_wrapReplies h
    · exact nomatch (unheard_sent sent _ h).1

theorem Heard.of_finishReply (hm : m.Laid) {c : Config ω} {events : List Event} (h : m.Heard c events)
    {reply : Request} (hreply : .finishReply reply ∈ events) :
    ∃ ptr w, c = .running (.executeAction Step.finish.id) w ∧ m.actions.find? Step.finish.id = some ptr ∧
      reply = ptr.finishReply m.getExpectedOutput (m.beginAction w.session Step.finish.id) := by
  cases h with
  | unheard h => exact nomatch (h _ hreply).2
  | @performed id ptr w hc _ hptr sent =>
    have hmem : .finishReply reply ∈ ptr.wrapReplies m.getExpectedOutput (m.beginAction w.session id) := by
      rcases List.mem_cons.mp hreply with h | h
      · cases h
      rcases List.mem_append.mp h with h | h
      · exact h
      · exact nomatch (unheard_sent sent _ h).2
    have hwrapper := hm.wrapper hptr
    unfold ActionPtr.wrapReplies at hmem
    split at hmem <;> rename_i hw
    · rw [hw] at hwrapper
      have hid : id = Step.finish.id := by
        unfold wrapperOf at hwrapper
        split_ifs at hwrapper with h₁ h₂ h₃ <;> first | exact h₃ | cases hwrapper
      subst hid
      exact ⟨ptr, w, hc, hptr, by simpa using hmem⟩
    · simp at hmem
    · cases hmem

theorem advance_trace (n : ℕ) (c : Config ω) : c.world.trace <+: (m.system.advance n c).world.trace := by
  induction n generalizing c with
  | zero => exact List.prefix_rfl
  | succ n ih =>
    rcases c with ⟨call, w⟩ | _ | _
    · refine List.IsPrefix.trans ?_ (ih _)
      cases hout : m.makeCall w call with
      | ok out =>
        have htrace := makeCall_trace hout
        rcases out with ⟨w', _ | call'⟩ <;> exact htrace
      | error fault => exact List.prefix_rfl
    all_goals exact List.prefix_rfl

theorem trace_ne_of_advance {c : Config ω} {t : List Event} (hlen : t.length < c.world.trace.length)
    {n : ℕ} {w : World ω} (h : m.system.advance n c = .returned w) : w.trace ≠ t := by
  have hle := (advance_trace (m := m) n c).length_le
  rw [h] at hle
  rintro rfl
  exact absurd (lt_of_lt_of_le hlen hle) (lt_irrefl _)

theorem executeAction_trace_lt {w : World ω} {id : ℤ} (hreg : m.Registered id) (hdie : id ≠ Step.die.id)
    (hneg : id ≠ -1) :
    ∃ w' result, m.executeAction w id = .ok (w', some (.actionExecuted result)) ∧
      w.trace.length < w'.trace.length := by
  obtain ⟨ptr, hptr⟩ := hreg
  obtain ⟨w', result, hexec, hperform⟩ := executeAction_of_find? hdie hneg hptr w
  obtain ⟨sent, htrace⟩ := ptr.trace_of_perform hperform
  refine ⟨_, _, hexec, ?_⟩
  rw [htrace, List.length_append, List.length_cons]
  exact Nat.lt_add_of_pos_right (Nat.succ_pos _)

theorem trace_ne_of_executeAction {w : World ω} {id : ℤ} (hreg : m.Registered id)
    (hdie : id ≠ Step.die.id) (hneg : id ≠ -1) {n : ℕ} {w' : World ω}
    (h : m.system.advance n (.running (.executeAction id) w) = .returned w') : w'.trace ≠ w.trace := by
  cases n with
  | zero => cases h
  | succ n =>
    obtain ⟨w₁, result, hexec, hlen⟩ := executeAction_trace_lt (w := w) hreg hdie hneg
    apply trace_ne_of_advance (m := m) (c := .running (.actionExecuted result) w₁) (n := n) hlen
    rw [← h]
    exact (Reactive.System.advance_succ_of_next (S := m.system)
      (c := .running (.executeAction id) w) (congrArg (fun r => some (Config.ofStep w r)) hexec) n).symm

end StateMachine

end LibWorkflow
