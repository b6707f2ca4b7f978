import LibWorkflow.Engine.Progress
import LibWorkflow.Engine.Samples

/-!
# The representation of the schedule

A session keeps its schedule three times: in `nexts`, in `pendings` and in `status`. Between calls the
three agree (`schedule_agrees`). During a call they agree but for the action that is being performed,
which keeps the status Planned after it has left `nexts`; the result of the action settles it, and a
broken output contract goes to Error, which rebuilds the schedule.
-/

namespace LibWorkflow

open Ordered Fallible

namespace Session

/-- The statuses Planned and Pending are those of the ids in `nexts` and in `pendings`. -/
structure Agrees (s : Session) : Prop where
  planned : ∀ id, s.status.find? id = some .planned ↔ id ∈ s.nexts
  pending : ∀ id, s.status.find? id = some .pending ↔ id ∈ s.pendings

/-- They agree but for `x`, which is in neither set. -/
structure AgreesBut (s : Session) (x : ℤ) : Prop where
  planned : ∀ id, id ≠ x → (s.status.find? id = some .planned ↔ id ∈ s.nexts)
  pending : ∀ id, id ≠ x → (s.status.find? id = some .pending ↔ id ∈ s.pendings)
  notNext : x ∉ s.nexts
  notPending : x ∉ s.pendings

variable {s s' : Session} {x : ℤ}

theorem Agrees.disjoint (h : s.Agrees) {id : ℤ} (hnext : id ∈ s.nexts) : id ∉ s.pendings := by
  intro hpend
  have hplanned := (h.planned id).mpr hnext
  rw [(h.pending id).mpr hpend] at hplanned
  cases hplanned

theorem Agrees.congr (h : s.Agrees) (hnexts : s'.nexts = s.nexts) (hpendings : s'.pendings = s.pendings)
    (hstatus : s'.status = s.status) : s'.Agrees := by
  refine ⟨fun id => ?_, fun id => ?_⟩
  · rw [hstatus, hnexts]
    exact h.planned id
  · rw [hstatus, hpendings]
    exact h.pending id

theorem AgreesBut.congr (h : s.AgreesBut x) (hnexts : s'.nexts = s.nexts)
    (hpendings : s'.pendings = s.pendings) (hstatus : s'.status = s.status) : s'.AgreesBut x := by
  refine ⟨fun id hid => ?_, fun id hid => ?_, ?_, ?_⟩
  · rw [hstatus, hnexts]
    exact h.planned id hid
  · rw [hstatus, hpendings]
    exact h.pending id hid
  · rw [hnexts]
    exact h.notNext
  · rw [hpendings]
    exact h.notPending

/-- An action with another status is in neither set. -/
theorem Agrees.agreesBut (h : s.Agrees) {status : ExecutionStatus}
    (hst : s.status.find? x = some status) (hplanned : status ≠ .planned) (hpending : status ≠ .pending) :
    s.AgreesBut x where
  planned id _ := h.planned id
  pending id _ := h.pending id
  notNext hx := by
    have hx := (h.planned x).mpr hx
    rw [hst] at hx
    exact hplanned (Option.some.inj hx)
  notPending hx := by
    have hx := (h.pending x).mpr hx
    rw [hst] at hx
    exact hpending (Option.some.inj hx)

/-! ### The writes of the engine -/

theorem Agrees.remove (h : s.Agrees) (x : ℤ) : ((s.removeFromNext x).removeFromPending x).AgreesBut x where
  planned id hid := by
    show s.status.find? id = _ ↔ id ∈ s.nexts.erase x
    rw [h.planned, OrdSet.mem_erase]
    exact ⟨fun hmem => ⟨hid, hmem⟩, And.right⟩
  pending id hid := by
    show s.status.find? id = _ ↔ id ∈ s.pendings.erase x
    rw [h.pending, OrdSet.mem_erase]
    exact ⟨fun hmem => ⟨hid, hmem⟩, And.right⟩
  notNext hx := (OrdSet.mem_erase.mp hx).1 rfl
  notPending hx := (OrdSet.mem_erase.mp hx).1 rfl

theorem AgreesBut.setStatus (h : s.AgreesBut x) {status : ExecutionStatus} (hplanned : status ≠ .planned)
    (hpending : status ≠ .pending) : (s.setStatus x status).Agrees := by
  refine ⟨fun id => ?_, fun id => ?_⟩
  all_goals
    unfold Session.setStatus
    rw [OrdMap.find?_insert]
    by_cases hid : id = x
  · rw [if_pos hid, hid]
    exact iff_of_false (fun heq => hplanned (Option.some.inj heq)) h.notNext
  · rw [if_neg hid]
    exact h.planned id hid
  · rw [if_pos hid, hid]
    exact iff_of_false (fun heq => hpending (Option.some.inj heq)) h.notPending
  · rw [if_neg hid]
    exact h.pending id hid

theorem AgreesBut.plan (h : s.AgreesBut x) : (s.plan x).Agrees := by
  refine ⟨fun id => ?_, fun id => ?_⟩
  all_goals
    unfold Session.plan
    rw [OrdMap.find?_insert]
    by_cases hid : id = x
  · rw [if_pos hid, OrdSet.mem_insert]
    exact iff_of_true rfl (.inl hid)
  · rw [if_neg hid, OrdSet.mem_insert, h.planned id hid]
    exact ⟨.inr, fun hmem => hmem.resolve_left hid⟩
  · rw [if_pos hid, hid]
    exact iff_of_false (nomatch ·) h.notPending
  · rw [if_neg hid]
    exact h.pending id hid

theorem AgreesBut.pend (h : s.AgreesBut x) : (s.pend x).Agrees := by
  refine ⟨fun id => ?_, fun id => ?_⟩
  all_goals
    unfold Session.pend
    rw [OrdMap.find?_insert]
    by_cases hid : id = x
  · rw [if_pos hid, hid]
    exact iff_of_false (nomatch ·) h.notNext
  · rw [if_neg hid]
    exact h.planned id hid
  · rw [if_pos hid, OrdSet.mem_insert]
    exact iff_of_true rfl (.inl hid)
  · rw [if_neg hid, OrdSet.mem_insert, h.pending id hid]
    exact ⟨.inr, fun hmem => hmem.resolve_left hid⟩

theorem plan_removeFromNext (s : Session) (x : ℤ) : (s.removeFromNext x).plan x = s.plan x := by
  have hnexts : (s.nexts.erase x).insert x = s.nexts.insert x := by
    refine OrdSet.ext_mem fun a => ?_
    rw [OrdSet.mem_insert, OrdSet.mem_insert, OrdSet.mem_erase]
    by_cases ha : a = x <;> simp [ha]
  unfold Session.plan Session.removeFromNext
  rw [hnexts]

theorem pend_removeFromPending (s : Session) (x : ℤ) : (s.removeFromPending x).pend x = s.pend x := by
  have hpendings : (s.pendings.erase x).insert x = s.pendings.insert x := by
    refine OrdSet.ext_mem fun a => ?_
    rw [OrdSet.mem_insert, OrdSet.mem_insert, OrdSet.mem_erase]
    by_cases ha : a = x <;> simp [ha]
  unfold Session.pend Session.removeFromPending
  rw [hpendings]

theorem Agrees.removeFromPending_plan (h : s.Agrees) (x : ℤ) : ((s.removeFromPending x).plan x).Agrees := by
  rw [← plan_removeFromNext]
  exact (h.remove x).plan

theorem Agrees.removeFromNext_pend (h : s.Agrees) (x : ℤ) : ((s.removeFromNext x).pend x).Agrees := by
  rw [← pend_removeFromPending]
  exact (h.remove x).pend

theorem Agrees.plan (h : s.Agrees) (hx : x ∉ s.pendings) : (s.plan x).Agrees := by
  have hself : s.removeFromPending x = s := by
    unfold Session.removeFromPending
    rw [OrdSet.erase_of_notMem hx]
  rw [← hself]
  exact h.removeFromPending_plan x

theorem Agrees.pend (h : s.Agrees) (hx : x ∉ s.nexts) : (s.pend x).Agrees := by
  have hself : s.removeFromNext x = s := by
    unfold Session.removeFromNext
    rw [OrdSet.erase_of_notMem hx]
  rw [← hself]
  exact h.removeFromNext_pend x

theorem Agrees.unschedule (h : s.Agrees) {status : ExecutionStatus} (hplanned : status ≠ .planned)
    (hpending : status ≠ .pending) : (s.unschedule x status).Agrees :=
  (h.remove x).setStatus hplanned hpending

end Session

namespace StateMachine

variable {ω : Type} {m : StateMachine ω} {s s' : Session}

theorem Placed.agrees {env : ω} {id : ℤ} {ptr : ActionPtr ω} (h : m.Placed env s id ptr s')
    (hs : s.Agrees) : s'.Agrees := by
  cases h with
  | skipped => exact hs.unschedule (by decide) (by decide)
  | planned => exact hs.removeFromPending_plan id
  | pending => exact hs.removeFromNext_pend id
  | unplanned => exact hs.unschedule (by decide) (by decide)

theorem Bound.agrees (hm : m.Laid) {env : ω} {id : ℤ} {binding : OutputBinding}
    (h : m.Bound env id binding s s') (hground : m.Grounded s) (hs : s.Agrees) : s'.Agrees := by
  cases h with
  | target _ h => exact h.agrees (hs.congr rfl rfl rfl)
  | die => exact hs.plan fun hmem => hm.not_registered (.inr (.inl rfl)) (hground.pendings _ hmem)
  | absent => exact hs

theorem bindResults_agrees (hm : m.Laid) {env : ω} {id : ℤ} (h : m.bindResults env s id = .ok s')
    (hground : m.Grounded s) (hs : s.Agrees) : s'.Agrees := by
  suffices hboth : m.Grounded s' ∧ s'.Agrees from hboth.2
  refine foldlM_invariant (P := fun c => m.Grounded c ∧ c.Agrees) h ⟨hground, hs⟩ ?_
  rintro c binding c' - ⟨hg, hc⟩ hstep
  have hbound := bindResult_cases hstep
  exact ⟨hg.reschedules hbound.reschedules, hbound.agrees hm hg hc⟩

theorem Promotes.agrees (h : m.Promotes s s') (hs : s.Agrees) : s'.Agrees := by
  induction h with
  | refl => exact hs
  | step _ _ _ ih => exact ih (hs.removeFromPending_plan _)

end StateMachine

/-- The action decides whether it can be executed by the inputs and the properties of the session. -/
def Action.ChecksPure {ω : Type} (action : Action ω) : Prop :=
  ∀ id env (s s' : Session), s.inputs = s'.inputs → s.bypass = s'.bypass →
    s.actionBypasses = s'.actionBypasses →
    action.checkInputs id env s = action.checkInputs id env s' ∧
      action.canPerform id env s = action.canPerform id env s'

theorem Action.checksPure_ofPerform {ω : Type} (name : String) (inputs outputs : OrdMap String PutDefinition)
    (perform : ℤ → ω → Session → Outcome ω) : (ofPerform name inputs outputs perform).ChecksPure := by
  intro id env s s' hinputs _ _
  refine ⟨?_, rfl⟩
  show checkDeclaredInputs inputs id s = checkDeclaredInputs inputs id s'
  unfold checkDeclaredInputs Session.getInput
  rw [hinputs]

namespace StateMachine

variable {ω : Type} {m : StateMachine ω} {s s' : Session}

def PureChecks (m : StateMachine ω) : Prop :=
  ∀ id ptr, m.actions.find? id = some ptr → ptr.action.ChecksPure

theorem PureChecks.addAction (h : m.PureChecks) (id : ℤ) {action : Action ω} (haction : action.ChecksPure)
    (bindings : List OutputBinding) : (m.addAction id action bindings).PureChecks := by
  have hnew : (ActionPtr.setActionId ⟨wrapperOf id, action⟩ id).action.ChecksPure := haction
  exact forall_addAction (P := fun _ ptr => ptr.action.ChecksPure) h hnew bindings

theorem pureChecks_init : (new : StateMachine ω).init.PureChecks := by
  have hnew : (new : StateMachine ω).PureChecks := fun _ _ h => nomatch h
  exact (((hnew.addAction _ (Action.checksPure_ofPerform _ _ _ _) _).addAction _
    (Action.checksPure_ofPerform _ _ _ _) _).addAction _ (Action.checksPure_ofPerform _ _ _ _) _).addAction _
    (Action.checksPure_ofPerform _ _ _ _) _

/-! ### The starters of a first call

Nothing is done yet, so whether a starter is planned or pending depends on its checks and on whether it
has predecessors, and not on the starters scheduled before it: the same action is never both. -/

/-- The action is planned by a first call that begins with the session `s`. -/
def Ready (m : StateMachine ω) (env : ω) (s : Session) (ptr : ActionPtr ω) : Prop :=
  ptr.checkInputs env s = true ∧ ptr.canPerform env s = true ∧ ∀ a, ¬m.Leads a ptr.getActionId

/-- A session on the way of `scheduleStarters` from `s`. -/
structure Starting (m : StateMachine ω) (env : ω) (s t : Session) : Prop where
  agrees : t.Agrees
  inputs : t.inputs = s.inputs
  bypass : t.bypass = s.bypass
  actionBypasses : t.actionBypasses = s.actionBypasses
  notDone : ∀ id, t.status.find? id ≠ some .done
  nexts : ∀ id ptr, id ∈ t.nexts → m.actions.find? id = some ptr → m.Ready env s ptr
  pendings : ∀ id ptr, id ∈ t.pendings → m.actions.find? id = some ptr → ¬m.Ready env s ptr

theorem Starting.ready_iff (hm : m.Laid) (hpure : m.PureChecks) {env : ω} {t : Session}
    (h : m.Starting env s t) {id : ℤ} {ptr : ActionPtr ω} (hptr : m.actions.find? id = some ptr) :
    m.canExecuteAction env t ptr = .ok true ↔ m.Ready env s ptr := by
  obtain ⟨hinputs, hperform⟩ := hpure id ptr hptr ptr.getActionId env t s h.inputs h.bypass h.actionBypasses
  rw [canExecuteAction_eq_true hm]
  unfold Ready ActionPtr.checkInputs ActionPtr.canPerform
  rw [hinputs, hperform]
  refine and_congr_right fun _ => and_congr_right fun _ => forall_congr' fun a => ?_
  exact ⟨fun hdone hleads => h.notDone a (hdone hleads), fun hnot hleads => absurd hleads (hnot)⟩

theorem Starting.plan {env : ω} {t : Session} (h : m.Starting env s t) {id : ℤ} {ptr : ActionPtr ω}
    (hptr : m.actions.find? id = some ptr) (hready : m.Ready env s ptr) : m.Starting env s (t.plan id) where
  agrees := h.agrees.plan fun hmem => h.pendings id ptr hmem hptr hready
  inputs := h.inputs
  bypass := h.bypass
  actionBypasses := h.actionBypasses
  notDone a := by
    unfold Session.plan
    rw [OrdMap.find?_insert]
    split_ifs
    · simp
    · exact h.notDone a
  nexts a p ha hp := by
    rcases OrdSet.mem_insert.mp ha with rfl | ha
    · cases hp.symm.trans hptr
      exact hready
    · exact h.nexts a p ha hp
  pendings := h.pendings

theorem Starting.pend {env : ω} {t : Session} (h : m.Starting env s t) {id : ℤ} {ptr : ActionPtr ω}
    (hptr : m.actions.find? id = some ptr) (hready : ¬m.Ready env s ptr) : m.Starting env s (t.pend id) where
  agrees := h.agrees.pend fun hmem => hready (h.nexts id ptr hmem hptr)
  inputs := h.inputs
  bypass := h.bypass
  actionBypasses := h.actionBypasses
  notDone a := by
    unfold Session.pend
    rw [OrdMap.find?_insert]
    split_ifs
    · simp
    · exact h.notDone a
  nexts := h.nexts
  pendings a p ha hp := by
    rcases OrdSet.mem_insert.mp ha with rfl | ha
    · cases hp.symm.trans hptr
      exact hready
    · exact h.pendings a p ha hp

theorem scheduleStarters_starting (hm : m.Laid) (hpure : m.PureChecks) {env : ω}
    {starters : List InputBinding} {t t' : Session} {complete : Bool} (ht : m.Starting env s t)
    (h : m.scheduleStarters env t starters = .ok (complete, t')) : m.Starting env s t' := by
  refine scheduleStarters_invariant h ht ?_ ?_
  · intro input _ ptr c hptr hc hexec
    exact hc.plan hptr ((hc.ready_iff hm hpure hptr).mp hexec)
  · intro input _ ptr c hptr hc hexec _
    refine hc.pend hptr fun hready => ?_
    rw [(hc.ready_iff hm hpure hptr).mpr hready] at hexec
    cases hexec

theorem starting_prepared {env : ω} {s : Session} (hs : s.Agrees) (hfresh : s.status.isEmpty = true) :
    m.Starting env (m.prepared s) (m.prepared s) := by
  have hnone : ∀ id, s.status.find? id = none := OrdMap.isEmpty_iff.mp hfresh
  have hrest := (setStarterInputs_reschedules (m := m) m.starters
    (s.setStatuses m.actions.keys .unplanned)).kept
  have hnexts : ∀ id, id ∉ (m.prepared s).nexts := fun id hid => by
    have hplanned := (hs.planned id).mpr ((hrest id not_false).1.mp hid)
    rw [hnone] at hplanned
    cases hplanned
  have hpendings : ∀ id, id ∉ (m.prepared s).pendings := fun id hid => by
    have hpending := (hs.pending id).mpr ((hrest id not_false).2.mp hid)
    rw [hnone] at hpending
    cases hpending
  have hstatus : ∀ id status, (m.prepared s).status.find? id = some status → status = .unplanned := by
    intro id status hst
    have hsame := ((setStarterInputs_reschedules (m := m) m.starters
      (s.setStatuses m.actions.keys .unplanned)).status id).resolve_right And.left
    have hst := hsame.symm.trans hst
    unfold Session.setStatuses at hst
    rw [OrdMap.find?_insertAll, hnone] at hst
    split_ifs at hst
    exact (Option.some.inj hst).symm
  refine ⟨⟨fun id => ?_, fun id => ?_⟩, rfl, rfl, rfl, fun id hdone => ?_, ?_, ?_⟩
  · exact iff_of_false (fun h => nomatch hstatus id _ h) (hnexts id)
  · exact iff_of_false (fun h => nomatch hstatus id _ h) (hpendings id)
  · exact nomatch hstatus id _ hdone
  · exact fun id _ hid => absurd hid (hnexts id)
  · exact fun id _ hid => absurd hid (hpendings id)

/-! ### Resets -/

theorem resetSchedule_agrees (s : Session) : (m.resetSchedule s).Agrees where
  planned id := iff_of_false (fun h => nomatch ((resetSchedule_status s id).mp h).2) (nomatch ·)
  pending id := iff_of_false (fun h => nomatch ((resetSchedule_status s id).mp h).2) (nomatch ·)

theorem beginAction_agreesBut {id : ℤ} (h : leavesFlow id = true ∨ s.Agrees) :
    (m.beginAction s id).AgreesBut id := by
  unfold beginAction
  dsimp only
  split_ifs with hleaves
  · have hreset := resetSchedule_agrees (m := m) ((s.removeFromNext id).removeFromPending id)
    have hkept : ∀ a status, a ≠ id → ((m.resetSchedule ((s.removeFromNext id).removeFromPending id)).setStatus
        id status).status.find? a =
        (m.resetSchedule ((s.removeFromNext id).removeFromPending id)).status.find? a :=
      fun a _ ha => OrdMap.find?_insert_of_ne _ _ ha
    refine ⟨fun a ha => ?_, fun a ha => ?_, (nomatch ·), (nomatch ·)⟩
    · rw [hkept a _ ha]
      exact hreset.planned a
    · rw [hkept a _ ha]
      exact hreset.pending a
  · exact (h.resolve_left hleaves).remove id

end StateMachine

/-- The invariant: where the representations agree during a call, and where only but for the action
that is performed. -/
def Config.Agrees {ω : Type} : Config ω → Prop
  | .running (.executeAction id) w => id = Step.error.id ∨ w.session.Agrees
  | .running (.actionExecuted result) w => w.session.AgreesBut result.actionId
  | .returned w => w.session.Agrees
  | .crashed _ _ => True

namespace StateMachine

variable {ω : Type} {m : StateMachine ω} {w : World ω} {out : Onward ω}

theorem executeAction_agrees (hm : Initialised m) (hown : m.OwnResults) {id : ℤ}
    (hcalled : m.Called w.session id) (hw : id = Step.error.id ∨ w.session.Agrees)
    (h : m.executeAction w id = .ok out) : (Config.after out).Agrees := by
  cases executeAction_cases h with
  | die => exact hw.resolve_left (by decide)
  | nothing h =>
    have hs := hw.resolve_left (by decide)
    have hidle := hcalled.nothing rfl
    have hplan : ∀ a, (w.session.plan a).Agrees := fun a =>
      hs.plan fun hmem => Session.not_active_of_idle hidle a (.inr hmem)
    cases executeNone_cases hidle h with
    | finish => exact .inr (hplan _)
    | error => exact .inl rfl
  | @action _ ptr _ _ hptr w' result hperform =>
    have hleaves : leavesFlow id = true ∨ w.session.Agrees := hw.imp_left fun heq => by rw [heq]; rfl
    have hflow := ptr.sameFlow_of_perform hperform
    show w'.session.AgreesBut result.actionId
    rw [hown.perform hm.laid hptr hperform]
    exact (beginAction_agreesBut hleaves).congr hflow.nexts hflow.pendings hflow.status
  | absent hdie hneg hreg =>
    have hfinish : m.Registered Step.finish.id := hm.registered (.inr (.inr (.inl rfl)))
    have herror : m.Registered Step.error.id := hm.registered (.inr (.inl rfl))
    exact absurd (hcalled.registered hfinish herror hneg hdie) hreg

theorem actionExecuted_agrees (hm : m.Laid) {result : Result} (hground : m.Grounded w.session)
    (hw : w.session.AgreesBut result.actionId) (h : m.actionExecuted w result = .ok out) :
    (Config.after out).Agrees := by
  obtain ⟨ptr, hptr, hconsumed⟩ := actionExecuted_cases h
  have hdone : (w.session.setStatus result.actionId .done).Agrees := hw.setStatus (by decide) (by decide)
  have hground' := hground.setStatus ⟨ptr, hptr⟩ .done
  cases hconsumed with
  | broken => exact .inl rfl
  | done _ _ hbind hnext =>
    exact .inr ((getNext_spec hnext).1.agrees (bindResults_agrees hm hbind hground' hdone))
  | async => exact hw.setStatus (by decide) (by decide)
  | finish _ hbind => exact .inr (bindResults_agrees hm hbind hground' hdone)
  | wait => exact hw.setStatus (by decide) (by decide)
  | error => exact .inl rfl

theorem receive_agrees (hm : m.Laid) (hown : m.OwnResults) (hpure : m.PureChecks) {message : Message}
    (hground : m.Grounded w.session) (hw : w.session.Agrees)
    (hguard : CompletesAsync (.returned w) (some message)) (h : m.receive w message = .ok out) :
    (Config.after out).Agrees := by
  cases receive_cases hm h with
  | @firstCall request _ hfresh h =>
    obtain ⟨complete, s, hstarters, hcases⟩ := firstCall_cases h
    have hpush : (w.session.pushRequest request).Agrees := hw.congr rfl rfl rfl
    have hs := (scheduleStarters_starting hm hpure (starting_prepared hpush hfresh) hstarters).agrees
    rcases hcases with ⟨-, next, s', hnext, rfl⟩ | ⟨-, rfl⟩
    · exact .inr ((getNext_spec hnext).1.agrees hs)
    · exact hs
  | @answered request ptr w' result _ _ hptr hwait hreply =>
    have hbut : (w.session.pushRequest request).AgreesBut request.target.action :=
      (hw.agreesBut hwait (by decide) (by decide)).congr rfl rfl rfl
    have hflow := ptr.sameFlow_of_replyReceived hreply
    show w'.session.AgreesBut result.actionId
    rw [hown.replyReceived hm hptr hreply]
    exact hbut.congr hflow.nexts hflow.pendings hflow.status
  | reset => exact .inr ((resetSchedule_agrees _).plan (nomatch ·))
  | ignored => exact hw.congr rfl rfl rfl
  | @finished result _ h =>
    exact actionExecuted_agrees hm hground (hw.agreesBut (hguard result rfl) (by decide) (by decide)) h

theorem run_agrees (hm : Initialised m) (hown : m.OwnResults) (hpure : m.PureChecks) {request : Request}
    {env : ω} {c : Config ω} (hrun : m.system.Run m.Admissible (opened request env) c) : c.Agrees :=
  grounded_induction hm.laid hrun
    ⟨fun _ => iff_of_false (nomatch ·) (nomatch ·), fun _ => iff_of_false (nomatch ·) (nomatch ·)⟩
    (fun _ _ _ hcalled hinv _ h => executeAction_agrees hm hown hcalled hinv h)
    (fun _ _ _ hground hinv _ h => actionExecuted_agrees hm.laid hground hinv h)
    (fun _ _ _ hground hinv hguard h => receive_agrees hm.laid hown hpure hground hinv hguard.completes h)
    (fun _ _ _ _ => trivial) (fun _ _ _ => trivial)

/-- **The schedule.** In every admissible run no lookup of the engine fails, and between calls of a
started session `nexts`, `pendings` and `status` agree: what is planned is in `nexts`, what is pending in
`pendings`, never in both, and every registered action has a status. -/
theorem schedule_agrees (hm : Initialised m) (hown : m.OwnResults) (hpure : m.PureChecks)
    {request : Request} {env : ω} {c : Config ω}
    (hrun : m.system.Run m.Admissible (opened request env) c) :
    (∀ fault w, c ≠ .crashed fault w) ∧
    ∀ w, c = .returned w → w.session.status.isEmpty = false →
      (∀ id ∈ w.session.nexts, id ∉ w.session.pendings) ∧
      (∀ id, w.session.status.find? id = some .planned ↔ id ∈ w.session.nexts) ∧
      (∀ id, w.session.status.find? id = some .pending ↔ id ∈ w.session.pendings) ∧
      (∀ id ∈ w.session.pendings, m.Registered id) ∧
      (∀ id ∈ w.session.nexts, id = Step.die.id ∨ m.Registered id) ∧
      ∀ id, m.Registered id → ∃ status, w.session.status.find? id = some status := by
  obtain ⟨hground, hstatused, -⟩ := run_answerable hm hown hrun
  have hagrees := run_agrees hm hown hpure hrun
  refine ⟨?_, ?_⟩
  · rintro fault w rfl
    exact never_crashes hm hown hrun
  · rintro w rfl hstarted
    have hs : w.session.Agrees := hagrees
    have hg : m.Grounded w.session := hground
    refine ⟨fun id => hs.disjoint, hs.planned, hs.pending, hg.pendings, hg.nexts, ?_⟩
    have hs : m.StatusedWhenStarted w.session := hstatused
    exact hs.resolve_left (by rw [hstarted]; exact Bool.false_ne_true)

end StateMachine

namespace Sample

open StateMachine

def joining : StateMachine Unit :=
  ((((StateMachine.new.init.addAction 0 (returning .done) [leadTo 1, leadTo 2, leadTo 3]).addAction 1
    (returning .wait) [leadTo 3]).addAction 2 (returning .done) [leadTo 3]).addAction 3 (returning .done)
      [leadTo Step.finish.id]).addInput ⟨"", 0, ""⟩

theorem joining_initialised : Initialised joining :=
  .addInput (.addAction (.addAction (.addAction (.addAction .refl _ _ _) _ _ _) _ _ _) _ _ _) _

theorem joining_ownResults : joining.OwnResults :=
  (((ownResults_init.addAction 0 (fun _ _ _ => rfl) (fun _ _ _ _ => rfl) _).addAction 1 (fun _ _ _ => rfl)
    (fun _ _ _ _ => rfl) _).addAction 2 (fun _ _ _ => rfl) (fun _ _ _ _ => rfl) _).addAction 3
      (fun _ _ _ => rfl) (fun _ _ _ _ => rfl) _

theorem joining_pureChecks : joining.PureChecks :=
  (((pureChecks_init.addAction 0 (Action.checksPure_ofPerform _ _ _ _) [leadTo 1, leadTo 2, leadTo 3]).addAction 1
    (Action.checksPure_ofPerform _ _ _ _) [leadTo 3]).addAction 2 (Action.checksPure_ofPerform _ _ _ _)
      [leadTo 3]).addAction 3 (Action.checksPure_ofPerform _ _ _ _) [leadTo Step.finish.id]

/-- The first of the two waits, the second is planned, and what comes after both is pending. -/
def divided : World Unit := (session joining [.request (request .defaultAction 0 0)]).world

theorem divided_schedule_agrees :
    (divided.session.nexts.elems = [2] ∧ divided.session.pendings.elems = [3]) ∧
    (∀ fault w, (.returned divided : Config Unit) ≠ .crashed fault w) ∧
    ∀ w, (.returned divided : Config Unit) = .returned w → w.session.status.isEmpty = false →
      (∀ id ∈ w.session.nexts, id ∉ w.session.pendings) ∧
      (∀ id, w.session.status.find? id = some .planned ↔ id ∈ w.session.nexts) ∧
      (∀ id, w.session.status.find? id = some .pending ↔ id ∈ w.session.pendings) ∧
      (∀ id ∈ w.session.pendings, joining.Registered id) ∧
      (∀ id ∈ w.session.nexts, id = Step.die.id ∨ joining.Registered id) ∧
      ∀ id, joining.Registered id → ∃ status, w.session.status.find? id = some status :=
  ⟨by decide, schedule_agrees joining_initialised joining_ownResults joining_pureChecks
    (session_admissible joining [request .defaultAction 0 0] (by decide))⟩

end Sample

end LibWorkflow
