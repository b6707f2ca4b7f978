import LibWorkflow.Flow.Deliveries

/-!
# Checks

An action is planned where `checkInputs` and `canPerform` hold, and is performed later. In between the code of
other actions, the requests that come in, and a promotion may leave it without its checks: a pending action
passed `checkInputs` once and is planned by `tryPromotePending` as it is. As long as no step does so
(`KeepsChecks`) an action is performed with its checks (`checks_hold`).
-/

namespace LibWorkflow

open Ordered Fallible Reactive

/-- `checkInputs` and `canPerform` hold. -/
def ActionPtr.Checks {ω : Type} (ptr : ActionPtr ω) (env : ω) (s : Session) : Prop :=
  ptr.checkInputs env s = true ∧ ptr.canPerform env s = true

namespace StateMachine

variable {ω : Type} {m : StateMachine ω}

/-- From `s` to `s'` only the schedule changes, and inputs of other actions than `id`. -/
structure SameFor (id : ℤ) (s s' : Session) : Prop where
  rest : s' = { s with
    nexts := s'.nexts, pendings := s'.pendings, status := s'.status, inputs := s'.inputs }
  inputs : s'.inputs.find? id = s.inputs.find? id

/-- The checks of an ordinary action look neither at the schedule nor at the inputs of other actions. -/
def Oblivious (m : StateMachine ω) : Prop :=
  ∀ id ptr, 0 ≤ id → m.actions.find? id = some ptr → ∀ env s s', SameFor id s s' →
    ptr.Checks env s → ptr.Checks env s'

/-- The ordinary actions among `ids` have their checks. -/
def ChecksHold (m : StateMachine ω) (ids : OrdSet ℤ) (env : ω) (s : Session) : Prop :=
  ∀ id ptr, 0 ≤ id → m.actions.find? id = some ptr → id ∈ ids → ptr.Checks env s

/-- No check of a planned ordinary action that holds in `w` is off in `w'`. -/
def Keeps (m : StateMachine ω) (w w' : World ω) : Prop :=
  ∀ id ptr, 0 ≤ id → m.actions.find? id = some ptr → id ∈ w.session.nexts →
    ptr.Checks w.env w.session → ptr.Checks w'.env w'.session

/-- The sessions in which a transition comes to choose among the planned and the pending actions. -/
inductive Chooses (m : StateMachine ω) : Config ω → Option Message → ω → Session → Prop
  | completed {c : Config ω} {label : Option Message} {result : Result} {w : World ω} {s : Session}
      (hc : completion? c label = some (result, w)) (hfulfils : m.Fulfils w result)
      (hbind : m.bindResults w.env (w.session.setStatus result.actionId .done) result.actionId = .ok s) :
      Chooses m c label w.env s
  | started {w : World ω} {request : Request} {s : Session} (hfresh : w.session.status.isEmpty = true)
      (hstarters : m.scheduleStarters w.env (m.prepared (w.session.pushRequest request)) m.starters =
        .ok (true, s)) : Chooses m (.returned w) (some (.request request)) w.env s

/-- The transition leaves no planned action without its checks: the code of the action it performs or answers
keeps them, so does a request that is pushed, and a pending action that is promoted has them. -/
structure KeepsChecks (m : StateMachine ω) (c : Config ω) (label : Option Message) : Prop where
  performs : ∀ id ptr w, c = .running (.executeAction id) w → m.actions.find? id = some ptr →
    m.Keeps { w with session := m.beginAction w.session id }
      (ptr.perform m.getExpectedOutput { w with session := m.beginAction w.session id }).1
  pushes : ∀ w request, c = .returned w → label = some (.request request) →
    m.Keeps w { w with session := w.session.pushRequest request }
  answers : ∀ w request ptr, c = .returned w → label = some (.request request) →
    m.actions.find? request.target.action = some ptr →
      m.Keeps { w with session := w.session.pushRequest request }
        (ptr.replyReceived { w with session := w.session.pushRequest request } request).1
  promotes : ∀ env s, m.Chooses c label env s → ∀ next s' id ptr, m.getNext s = .ok (next, s') → 0 ≤ id →
    m.actions.find? id = some ptr → id ∈ s.pendings → id ∈ s'.nexts → ptr.Checks env s

/-! ### What the engine writes -/

theorem SameFor.of_inputs {ids : ℤ → Prop} {s s' : Session} (h : m.Reschedules ids s s')
    (hinputs : s'.inputs = s.inputs) (id : ℤ) : SameFor id s s' := ⟨h.rest, by rw [hinputs]⟩

theorem SameFor.setInput {id a : ℤ} (h : a ≠ id) (s : Session) (name : String) (ctx : Option Context) :
    SameFor a s (s.setInput id name ctx) := ⟨rfl, OrdMap.find?_insert_of_ne _ _ h⟩

theorem SameFor.beginAction {s : Session} {id : ℤ} (h : leavesFlow id = false) (a : ℤ) :
    SameFor a s (m.beginAction s id) := by
  unfold StateMachine.beginAction
  rw [h]
  exact ⟨rfl, rfl⟩

/-- What was planned before and has its checks keeps them when the engine writes for other actions. -/
theorem ChecksHold.sameFor (hm : m.Oblivious) {ids ids' : OrdSet ℤ} {env : ω} {s s' : Session}
    (h : m.ChecksHold ids env s) (hids : ∀ id, 0 ≤ id → id ∈ ids' → id ∈ ids)
    (hsame : ∀ id, SameFor id s s') : m.ChecksHold ids' env s' := fun id ptr hid hptr hmem =>
  hm id ptr hid hptr env s s' (hsame id) (h id ptr hid hptr (hids id hid hmem))

theorem ChecksHold.keeps {w w' : World ω} (h : m.ChecksHold w.session.nexts w.env w.session)
    (hkeeps : m.Keeps w w') (hnexts : w'.session.nexts = w.session.nexts) :
    m.ChecksHold w'.session.nexts w'.env w'.session := by
  intro id ptr hid hptr hmem
  rw [hnexts] at hmem
  exact hkeeps id ptr hid hptr hmem (h id ptr hid hptr hmem)

theorem checksHold_empty (env : ω) (s : Session) : m.ChecksHold ∅ env s := fun _ _ _ _ hmem => nomatch hmem

theorem ChecksHold.plan_step (hm : m.Oblivious) {env : ω} {s : Session} (h : m.ChecksHold s.nexts env s)
    {id : ℤ} (hid : id < 0) : m.ChecksHold (s.plan id).nexts env (s.plan id) := by
  refine h.sameFor hm (fun a ha hmem => ?_) fun a => ⟨rfl, rfl⟩
  rcases OrdSet.mem_insert.mp hmem with rfl | hmem
  · exact absurd ha (not_le.mpr hid)
  · exact hmem

theorem ChecksHold.plan (hm : m.Oblivious) {env : ω} {s : Session} (h : m.ChecksHold s.nexts env s) {id : ℤ}
    {ptr : ActionPtr ω} (hptr : m.actions.find? id = some ptr) (hchecks : ptr.Checks env s) :
    m.ChecksHold (s.plan id).nexts env (s.plan id) := by
  intro a p ha hp hmem
  apply hm a p ha hp env s (s.plan id) ⟨rfl, rfl⟩
  rcases OrdSet.mem_insert.mp hmem with rfl | hmem
  · cases hp.symm.trans hptr
    exact hchecks
  · exact h a p ha hp hmem

theorem Placed.checks (hm : m.Laid) {env : ω} {s s' : Session} {id : ℤ} {ptr : ActionPtr ω}
    (h : m.Placed env s id ptr s') (hmem : id ∈ s'.nexts) : ptr.Checks env s := by
  cases h with
  | skipped => exact absurd rfl (OrdSet.mem_erase.mp hmem).1
  | planned _ hexec =>
    obtain ⟨hinputs, hperform, -⟩ := (canExecuteAction_eq_true hm).mp hexec
    exact ⟨hinputs, hperform⟩
  | pending => exact absurd rfl (OrdSet.mem_erase.mp hmem).1
  | unplanned => exact absurd rfl (OrdSet.mem_erase.mp hmem).1

theorem Bound.checksHold (hlaid : m.Laid) (hm : m.Oblivious) {env : ω} {id : ℤ} {binding : OutputBinding}
    {s s' : Session} (h : m.Bound env id binding s s') (hs : m.ChecksHold s.nexts env s) :
    m.ChecksHold s'.nexts env s' := by
  cases h with
  | @target ptr _ hptr hplaced =>
    intro a p ha hp hmem
    have hsame := SameFor.of_inputs hplaced.reschedules hplaced.inputs a
    apply hm a p ha hp env _ s' hsame
    by_cases hne : a = binding.toActionId
    · subst hne
      cases hp.symm.trans hptr
      exact hplaced.checks hlaid hmem
    · have hbefore : a ∈ s.nexts := (hplaced.reschedules.kept a hne).1.mp hmem
      exact hm a p ha hp env s _ (.setInput hne ..) (hs a p ha hp hbefore)
  | die => exact hs.plan_step hm (by decide)
  | absent => exact hs

theorem bindResults_checksHold (hlaid : m.Laid) (hm : m.Oblivious) {env : ω} {s s' : Session} {id : ℤ}
    (h : m.bindResults env s id = .ok s') (hs : m.ChecksHold s.nexts env s) : m.ChecksHold s'.nexts env s' :=
  foldlM_invariant (P := fun c => m.ChecksHold c.nexts env c) h hs fun _ _ _ _ hc hstep =>
    (bindResult_cases hstep).checksHold hlaid hm hc

/-- A choice leaves what is planned with its checks, if what it promotes has them. -/
theorem getNext_checksHold (hm : m.Oblivious) {env : ω} {s s' : Session} {next : ℤ}
    (h : m.getNext s = .ok (next, s')) (hs : m.ChecksHold s.nexts env s)
    (hpromoted : ∀ id ptr, 0 ≤ id → m.actions.find? id = some ptr → id ∈ s.pendings → id ∈ s'.nexts →
      ptr.Checks env s) : m.ChecksHold s'.nexts env s' := by
  intro id ptr hid hptr hmem
  have hpromotes := (getNext_spec h).1
  apply hm id ptr hid hptr env s s' (.of_inputs hpromotes.reschedules hpromotes.inputs id)
  rcases (hpromotes.active_iff id).mp (.inl hmem) with hbefore | hbefore
  · exact hs id ptr hid hptr hbefore
  · exact hpromoted id ptr hid hptr hbefore hmem

end StateMachine

/-- The invariant: what is planned has its checks, but where a step that leaves the flow is executed. -/
def Config.ChecksHold {ω : Type} (m : StateMachine ω) : Config ω → Prop
  | .running (.executeAction id) w => StateMachine.leavesFlow id = false →
      m.ChecksHold w.session.nexts w.env w.session
  | .running (.actionExecuted _) w | .returned w => m.ChecksHold w.session.nexts w.env w.session
  | .crashed _ _ => True

namespace StateMachine

variable {ω : Type} {m : StateMachine ω} {w : World ω} {out : Onward ω}

theorem executeAction_checksHold (hm : m.Oblivious) {id : ℤ} (hcalled : m.Called w.session id)
    (hw : leavesFlow id = false → m.ChecksHold w.session.nexts w.env w.session)
    (hkeeps : ∀ ptr, m.actions.find? id = some ptr →
      m.Keeps { w with session := m.beginAction w.session id }
        (ptr.perform m.getExpectedOutput { w with session := m.beginAction w.session id }).1)
    (h : m.executeAction w id = .ok out) : (Config.after out).ChecksHold m := by
  have hbegin : m.ChecksHold (m.beginAction w.session id).nexts w.env (m.beginAction w.session id) := by
    cases hleaves : leavesFlow id with
    | true =>
      have hempty : (m.beginAction w.session id).nexts = ∅ := by
        unfold beginAction
        rw [hleaves]
        rfl
      rw [hempty]
      exact checksHold_empty _ _
    | false =>
      refine (hw hleaves).sameFor hm (fun a _ ha => ?_) (.beginAction hleaves)
      unfold beginAction at ha
      rw [hleaves] at ha
      exact (OrdSet.mem_erase.mp ha).2
  cases executeAction_cases h with
  | die => exact hw (by decide)
  | nothing h =>
    have hidle := hcalled.nothing rfl
    have hplan : ∀ {step : ℤ}, step < 0 →
        m.ChecksHold (w.session.plan step).nexts w.env (w.session.plan step) := fun hstep =>
      ChecksHold.plan_step hm (hidle.1 ▸ checksHold_empty _ _) hstep
    cases executeNone_cases hidle h with
    | finish => exact fun _ => hplan (by decide)
    | error => exact fun hleaves => nomatch hleaves
  | @action _ ptr _ _ hptr w' _ hperform =>
    have hflow := ptr.sameFlow_of_perform hperform
    have hkeeps := hkeeps ptr hptr
    rw [hperform] at hkeeps
    exact ChecksHold.keeps (w := ⟨m.beginAction w.session id, w.env, w.trace⟩) hbegin hkeeps hflow.nexts
  | absent => exact hbegin

theorem actionExecuted_checksHold (hlaid : m.Laid) (hm : m.Oblivious) {result : Result}
    (hw : m.ChecksHold w.session.nexts w.env w.session)
    (hpromotes : ∀ s, m.Fulfils w result →
      m.bindResults w.env (w.session.setStatus result.actionId .done) result.actionId = .ok s →
      ∀ next s' id ptr, m.getNext s = .ok (next, s') → 0 ≤ id → m.actions.find? id = some ptr →
        id ∈ s.pendings → id ∈ s'.nexts → ptr.Checks w.env s)
    (h : m.actionExecuted w result = .ok out) : (Config.after out).ChecksHold m := by
  obtain ⟨ptr, hptr, hconsumed⟩ := actionExecuted_cases h
  have hset : ∀ status, m.ChecksHold (w.session.setStatus result.actionId status).nexts w.env
      (w.session.setStatus result.actionId status) := fun _ => hw.sameFor hm (fun _ _ h => h) fun _ => ⟨rfl, rfl⟩
  cases hconsumed with
  | broken => exact fun hleaves => nomatch hleaves
  | @done htype hcheck s s' next hbind hnext =>
    have hfulfils : m.Fulfils w result := ⟨htype, by rw [hptr]; exact hcheck⟩
    have hbound := bindResults_checksHold hlaid hm hbind (hset .done)
    exact fun _ => getNext_checksHold hm hnext hbound fun id ptr hid hptr hmem =>
      hpromotes s hfulfils hbind next s' id ptr hnext hid hptr hmem
  | async => exact hset .async
  | finish _ hbind => exact fun _ => bindResults_checksHold hlaid hm hbind (hset .done)
  | wait => exact hset .waiting
  | error => exact fun hleaves => nomatch hleaves

theorem firstCall_checksHold (hlaid : m.Laid) (hm : m.Oblivious) (hidle : w.session.Idle)
    (hpromotes : ∀ s, m.scheduleStarters w.env (m.prepared w.session) m.starters = .ok (true, s) →
      ∀ next s' id ptr, m.getNext s = .ok (next, s') → 0 ≤ id → m.actions.find? id = some ptr →
        id ∈ s.pendings → id ∈ s'.nexts → ptr.Checks w.env s)
    (h : m.firstCall w = .ok out) : (Config.after out).ChecksHold m := by
  obtain ⟨complete, s, hstarters, hcases⟩ := firstCall_cases h
  have hbegun : m.ChecksHold (m.prepared w.session).nexts w.env (m.prepared w.session) := by
    intro id ptr _ _ hmem
    have hbefore := ((setStarterInputs_reschedules (m := m) _ _).kept id not_false).1.mp hmem
    exact absurd (.inl hbefore) (Session.not_active_of_idle hidle id)
  have hs : m.ChecksHold s.nexts w.env s := by
    refine scheduleStarters_invariant (P := fun c => m.ChecksHold c.nexts w.env c) hstarters hbegun ?_ ?_
    · intro input _ ptr c hptr hc hexec
      obtain ⟨hinputs, hperform, -⟩ := (canExecuteAction_eq_true hlaid).mp hexec
      exact hc.plan hm hptr ⟨hinputs, hperform⟩
    · intro input _ ptr c _ hc _ _
      exact hc.sameFor hm (fun _ _ h => h) fun _ => ⟨rfl, rfl⟩
  rcases hcases with ⟨rfl, next, s', hnext, rfl⟩ | ⟨-, rfl⟩
  · exact fun _ => getNext_checksHold hm hnext hs fun id ptr hid hptr hmem =>
      hpromotes s hstarters next s' id ptr hnext hid hptr hmem
  · exact hs

theorem receive_checksHold (hlaid : m.Laid) (hm : m.Oblivious) {message : Message} (hstarted : Started w.session)
    (hw : m.ChecksHold w.session.nexts w.env w.session)
    (hguard : m.KeepsChecks (.returned w) (some message)) (h : m.receive w message = .ok out) :
    (Config.after out).ChecksHold m := by
  cases receive_cases hlaid h with
  | @firstCall request _ hfresh h =>
    exact firstCall_checksHold hlaid hm (w := ⟨w.session.pushRequest request, w.env, w.trace⟩)
      (hstarted.idle hfresh) (fun s hs => hguard.promotes w.env s (.started hfresh hs)) h
  | @answered request ptr w' _ _ _ hptr _ hreply =>
    have hpushed := hw.keeps (hguard.pushes w request rfl rfl) rfl
    have hflow := ptr.sameFlow_of_replyReceived hreply
    have hanswer := hguard.answers w request ptr rfl rfl hptr
    rw [hreply] at hanswer
    exact hpushed.keeps hanswer hflow.nexts
  | @reset _ step _ hkind _ =>
    intro hleaves
    rcases hkind with ⟨-, rfl, -⟩ | ⟨-, rfl⟩ <;> cases hleaves
  | @ignored request => exact hw.keeps (hguard.pushes w request rfl rfl) rfl
  | @finished result _ h =>
    exact actionExecuted_checksHold hlaid hm hw
      (fun s hfulfils hbind => hguard.promotes w.env s (.completed rfl hfulfils hbind)) h

theorem run_checksHold (hlaid : m.Laid) (hm : m.Oblivious) {request : Request} {env : ω} {c : Config ω}
    (hrun : m.system.Run m.KeepsChecks (opened request env) c) : c.ChecksHold m := by
  obtain ⟨h, hrun⟩ : ∃ h, (m.system.observed fun _ _ (h : Unit) => h).Run
      (fun x label => m.KeepsChecks x.1 label) (opened request env, ()) (c, h) := hrun.exists_history ()
  refine history_induction (I := fun c _ => c.ChecksHold m) hlaid hrun ?_ ?_ ?_ ?_ ?_ ?_
  · exact checksHold_empty _ _
  · intro id w out _ hcalled hw hguard h
    exact executeAction_checksHold hm hcalled hw (fun ptr hptr => hguard.performs id ptr w rfl hptr) h
  · intro result w out _ _ hw hguard h
    exact actionExecuted_checksHold hlaid hm hw
      (fun s hfulfils hbind => hguard.promotes w.env s (.completed rfl hfulfils hbind)) h
  · intro message w out _ hreach hw hguard h
    exact receive_checksHold hlaid hm (reachable_started hlaid hreach) hw hguard h
  · intros
    trivial
  · intros
    trivial

/-- **Checks.** On a machine whose ordinary actions check neither the schedule nor the inputs of others, after
steps that keep the checks, an ordinary action is performed in a session where its checks hold. -/
theorem checks_hold (hlaid : Constructed m) (hm : m.Oblivious) {request : Request} {env : ω} {c c' : Config ω}
    (hrun : m.system.Run m.KeepsChecks (opened request env) c) {label : Option Message}
    (htrans : m.system.Trans c label c') {events : List Event}
    (htrace : c'.world.trace = c.world.trace ++ events) :
    ∀ id s, .performed id s ∈ events → 0 ≤ id →
      ∃ ptr, m.actions.find? id = some ptr ∧ ptr.checkInputs c.world.env s = true ∧
        ptr.canPerform c.world.env s = true := by
  intro id s hmem hid
  have hreach : m.system.Reachable (opened request env) c := hrun.mono fun _ _ _ => trivial
  have hground := reachable_grounded hlaid.laid hreach
  have hchecks := run_checksHold hlaid.laid hm hrun
  obtain ⟨events', htrace', hheard⟩ := trans_heard hlaid.laid htrans
  cases List.append_cancel_left (htrace.symm.trans htrace')
  obtain ⟨ptr, w, rfl, hneg, hptr, rfl⟩ := hheard.of_performed hmem
  have hleaves : leavesFlow id = false := by
    have hne : ∀ {a : ℤ}, a < 0 → id ≠ a := fun ha => (lt_of_lt_of_le ha hid).ne'
    simp [leavesFlow, hne (show Step.interrupt.id < 0 by decide), hne (show Step.error.id < 0 by decide),
      hne (show Step.cleanup.id < 0 by decide)]
  have hnext : id ∈ w.session.nexts := by
    rcases hground.planned hneg with hnext | rfl | rfl
    · exact hnext
    · exact absurd hid (by decide)
    · exact absurd hid (by decide)
  exact ⟨ptr, hptr, hm id ptr hid hptr w.env _ _ (.beginAction hleaves id) (hchecks hleaves id ptr hid hptr hnext)⟩

theorem SameFor.getInput {id : ℤ} {s s' : Session} (h : SameFor id s s') (name : String) :
    s'.getInput id name = s.getInput id name := by
  unfold Session.getInput Session.puts
  rw [h.inputs]

theorem checkDeclaredInputs_of_sameFor {id : ℤ} {s s' : Session} (h : SameFor id s s')
    (inputs : OrdMap String PutDefinition) :
    Action.checkDeclaredInputs inputs id s' = Action.checkDeclaredInputs inputs id s := by
  unfold Action.checkDeclaredInputs
  simp only [h.getInput]

theorem Oblivious.addAction (h : m.Oblivious) {id : ℤ} {action : Action ω}
    (haction : ∀ env s s', SameFor id s s' → action.checkInputs id env s = true ∧ action.canPerform id env s = true →
      action.checkInputs id env s' = true ∧ action.canPerform id env s' = true) (bindings : List OutputBinding) :
    (m.addAction id action bindings).Oblivious := fun a ptr ha hptr =>
  forall_addAction (P := fun a ptr => 0 ≤ a → ∀ env s s', SameFor a s s' → ptr.Checks env s → ptr.Checks env s')
    (fun a ptr hptr ha => h a ptr ha hptr) (fun _ => haction) bindings a ptr hptr ha

theorem oblivious_init : (new : StateMachine ω).init.Oblivious := by
  have hnew : (new : StateMachine ω).Oblivious := fun _ _ _ h => nomatch h
  exact (((hnew.addAction (fun _ _ _ _ h => h) _).addAction (fun _ _ _ _ h => h) _).addAction
    (fun _ _ _ _ h => h) _).addAction (fun _ _ _ _ h => h) _

end StateMachine

namespace Sample

open StateMachine

def supplying : Action Unit :=
  .ofPerform "Sample" ∅ ((∅ : OrdMap String PutDefinition).insert "out"
    ⟨"out", "", "Sample", fun _ => true, true, false, false⟩) fun id env s =>
      { Outcome.ofResult env s ⟨id, .done, none⟩ with outputs := [("out", some (.leaf "Sample" "data"))] }

def demanding : Action Unit :=
  { Action.ofPerform "Sample" ((∅ : OrdMap String PutDefinition).insert "in"
      ⟨"in", "", "Sample", fun ctx => !ctx.isSkip, true, false, false⟩) ∅
      fun id env s => .ofResult env s ⟨id, .done, none⟩ with
    canPerform := fun id _ s => (s.getInput id "in").isSome }

def supplied : StateMachine Unit :=
  ((StateMachine.new.init.addAction 0 supplying [bindingTo 0 "out" 1 "in"]).addAction 1 demanding
    [bindingTo 1 "" Step.finish.id ""]).addInput ⟨"", 0, ""⟩

theorem demanding_of_sameFor (env : Unit) (s s' : Session) (h : SameFor 1 s s') :
    demanding.checkInputs 1 env s = true ∧ demanding.canPerform 1 env s = true →
      demanding.checkInputs 1 env s' = true ∧ demanding.canPerform 1 env s' = true := by
  rintro ⟨hinputs, hperform⟩
  refine ⟨(checkDeclaredInputs_of_sameFor h _).trans hinputs, ?_⟩
  show (s'.getInput 1 "in").isSome = true
  rwa [h.getInput]

theorem supplied_oblivious : supplied.Oblivious :=
  (oblivious_init.addAction (fun _ _ _ _ h => h) _).addAction demanding_of_sameFor [bindingTo 1 "" Step.finish.id ""]

theorem not_mem_of_elems {ids : OrdSet ℤ} {id : ℤ} (h : ids.elems = []) : id ∉ ids := fun hmem => by
  rw [OrdSet.mem_def, h] at hmem
  cases hmem

theorem supplied_keepsChecks_first : supplied.KeepsChecks (opened (request .defaultAction 0 0) ())
    (some (.request (request .defaultAction 0 0))) where
  performs _ _ _ hc := nomatch hc
  pushes w r hc _ id ptr _ _ hmem := by
    cases hc
    exact absurd hmem (not_mem_of_elems rfl)
  answers w r ptr hc _ _ id ptr' _ _ hmem := by
    cases hc
    exact absurd hmem (not_mem_of_elems rfl)
  promotes env s hchooses next s' id ptr _ _ _ hpending := by
    cases hchooses with
    | completed hc => cases hc
    | started _ hstarters =>
      have heq : Except.ok (true, _) = Except.ok (true, s) := hstarters
      cases heq
      exact absurd hpending (not_mem_of_elems rfl)

theorem supplied_keepsChecks_performed : supplied.KeepsChecks (started supplied 0) none where
  performs id ptr w hc _ a ptr' _ _ hmem := by
    have heq : Config.running (.executeAction 0) _ = .running (.executeAction id) w := hc
    cases heq
    exact absurd hmem (not_mem_of_elems rfl)
  pushes _ _ _ hlabel := nomatch hlabel
  answers _ _ _ _ hlabel := nomatch hlabel
  promotes env s hchooses := by
    generalize hc : started supplied 0 = c at hchooses
    cases hchooses with
    | completed hcompletion =>
      cases hc
      cases hcompletion

theorem supplied_keepsChecks_completed : supplied.KeepsChecks (started supplied 1) none where
  performs _ _ _ hc := nomatch hc
  pushes _ _ _ hlabel := nomatch hlabel
  answers _ _ _ _ hlabel := nomatch hlabel
  promotes env s hchooses next s' id ptr _ _ _ hpending := by
    generalize hc : started supplied 1 = c at hchooses
    cases hchooses with
    | completed hcompletion _ hbind =>
      cases hc
      cases hcompletion
      have heq : Except.ok _ = Except.ok s := hbind
      cases heq
      exact absurd hpending (not_mem_of_elems rfl)

theorem supplied_run : supplied.system.Run supplied.KeepsChecks
    (opened (request .defaultAction 0 0) ()) (started supplied 2) := by
  refine .advance_of (c := started supplied 0) (.input .start supplied_keepsChecks_first rfl) fun k hk => ?_
  match k with
  | 0 => exact supplied_keepsChecks_performed
  | 1 => exact supplied_keepsChecks_completed

theorem supplied_checks : ∃ c' events s, supplied.system.Trans (started supplied 2) none c' ∧
    c'.world.trace = (started supplied 2).world.trace ++ events ∧ .performed 1 s ∈ events ∧
      ∃ ptr, supplied.actions.find? 1 = some ptr ∧ ptr.checkInputs () s = true ∧ ptr.canPerform () s = true := by
  have hm : Constructed supplied :=
    Initialised.constructed (.addInput (.addAction (.addAction .refl _ _ _) _ _ _) _)
  have htrans : supplied.system.Trans (started supplied 2) none (started supplied 3) := .internal rfl
  have htrace : (started supplied 3).world.trace = (started supplied 2).world.trace ++ [_] := rfl
  exact ⟨_, _, _, htrans, htrace, .head _,
    checks_hold hm supplied_oblivious supplied_run htrans htrace 1 _ (.head _) (by decide)⟩

def refusing : StateMachine Unit :=
  (StateMachine.new.init.addAction 0 { returning .done with canPerform := fun _ _ _ => false }
    [leadTo Step.finish.id]).addInput ⟨"", 0, ""⟩

/-- It is performed nevertheless. -/
theorem refusing_performed : ∃ c c' events s,
    refusing.system.Reachable (opened (request .defaultAction 0 0) ()) c ∧ refusing.system.Trans c none c' ∧
    c'.world.trace = c.world.trace ++ events ∧ .performed 0 s ∈ events ∧
    ∃ ptr, refusing.actions.find? 0 = some ptr ∧ ptr.canPerform c.world.env s = false := by
  refine ⟨started refusing 0, _, [_], _, ?_, .internal rfl, rfl, .head _, _, rfl, rfl⟩
  exact System.Run.input (i := .request (request .defaultAction 0 0)) .start trivial rfl

end Sample

end LibWorkflow
