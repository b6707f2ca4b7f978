import LibWorkflow.Flow.Deliveries

/-!
# Skips

An action that was delivered a `SkipCtx` is not to be performed. The engine decides this by the contexts it
has stored for the action, in `bindResults` only. So a skip is honoured as long as the action still holds a
`SkipCtx` where one was delivered last, a first call does not schedule an action that holds one, and the
engine does not go to Error or Interrupt, which it executes without a look at their inputs, while they hold
one (`RetainsSkips`, `skips_honoured`).
-/

namespace LibWorkflow

open Ordered Fallible Reactive

/-- What delivers contexts to an action: a binding of another action, or a starter. -/
inductive Source where
  | output (binding : OutputBinding)
  | starter (input : InputBinding)
  deriving DecidableEq

def Source.target : Source → ℤ
  | .output binding => binding.toActionId
  | .starter input => input.actionId

namespace Session

theorem hasSkipInput_congr {s s' : Session} (h : s'.inputs = s.inputs) (id : ℤ) :
    s'.hasSkipInput id = s.hasSkipInput id := by
  unfold hasSkipInput
  rw [h]

theorem hasSkipInput_setInput_of_ne (s : Session) {id a : ℤ} (h : a ≠ id) (name : String)
    (ctx : Option Context) : (s.setInput id name ctx).hasSkipInput a = s.hasSkipInput a := by
  unfold hasSkipInput setInput
  rw [puts_insert, if_neg h]

end Session

namespace StateMachine

variable {ω : Type} {m : StateMachine ω}

def sources (m : StateMachine ω) : List Source :=
  (m.outputs.entries.flatMap Prod.snd).map .output ++ m.starters.map .starter

abbrev Delivered := Source → Option Context

def firstCall? : Config ω → Option Message → Option Session
  | .returned w, some (.request request) =>
    if w.session.status.isEmpty then some (w.session.pushRequest request) else none
  | _, _ => none

/-- The context a source delivers in a transition, if it delivers one. -/
def delivers (m : StateMachine ω) (c : Config ω) (label : Option Message) : Source → Option Context
  | .output binding =>
    match completion? c label with
    | some (result, w) =>
      if m.Completes w result ∧ binding ∈ m.bindings result.actionId ∧
          m.actions.contains binding.toActionId then
        w.session.getOutput result.actionId binding.fromActionOutput
      else none
    | none => none
  | .starter input =>
    match firstCall? c label with
    | some s =>
      if input.workflowInput.isEmpty || input.actionInput.isEmpty then none
      else s.request.getContext input.workflowInput
    | none => none

def recordDelivery (m : StateMachine ω) (c : Config ω) (label : Option Message) (last : Delivered) :
    Delivered := fun source => (m.delivers c label source).or (last source)

/-- The last context of the source is a `SkipCtx`. -/
def Skips (last : Delivered) (source : Source) : Prop := (last source).any Context.isSkip = true

instance (last : Delivered) (source : Source) : Decidable (Skips last source) :=
  inferInstanceAs (Decidable (_ = true))

/-- Each action some source skips holds a `SkipCtx`. -/
def Retained (m : StateMachine ω) (last : Delivered) (s : Session) : Prop :=
  ∀ source ∈ m.sources, source.target ≠ Step.finish.id → Skips last source →
    s.hasSkipInput source.target = true

instance (last : Delivered) (s : Session) : Decidable (m.Retained last s) :=
  inferInstanceAs (Decidable (∀ _ ∈ _, _ → _ → _))

def Refuses (m : StateMachine ω) (env : ω) (s : Session) (id : ℤ) : Prop :=
  ∀ ptr s', m.actions.find? id = some ptr → m.Reschedules (fun _ => True) s s' → s'.inputs = s.inputs →
    ptr.checkInputs env s' = false

/-- The transition loses no skip: what it stores leaves a `SkipCtx` with each action a source skips, a first
call schedules no action that holds one, and Error and Interrupt are executed without one. -/
structure RetainsSkips (m : StateMachine ω) (x : Config ω × Delivered) (label : Option Message) : Prop where
  completion : ∀ result w, completion? x.1 label = some (result, w) → m.Completes w result →
    m.Retained (m.recordDelivery x.1 label x.2) (m.deliverInputs w.session result.actionId)
  starters : ∀ w request, x.1 = .returned w → label = some (.request request) →
    w.session.status.isEmpty = true →
      m.Retained (m.recordDelivery x.1 label x.2) (m.prepared (w.session.pushRequest request)) ∧
      ∀ input ∈ m.starters, input.actionId ≠ Step.finish.id →
        (m.prepared (w.session.pushRequest request)).hasSkipInput input.actionId = true →
          m.Refuses w.env (m.prepared (w.session.pushRequest request)) input.actionId
  direct : ∀ id w, x.1 = .running (.executeAction id) w → id = Step.error.id ∨ id = Step.interrupt.id →
    w.session.hasSkipInput id = false

/-- The engine looks at the inputs of these before it schedules them. -/
def Heeded (m : StateMachine ω) (id : ℤ) : Prop :=
  m.Registered id ∧ id ≠ Step.finish.id ∧ id ≠ Step.error.id ∧ id ≠ Step.interrupt.id

/-- What is scheduled holds no `SkipCtx`. -/
def HeedsSkips (m : StateMachine ω) (s : Session) : Prop :=
  ∀ id, m.Heeded id → s.Active id → s.hasSkipInput id = false

theorem HeedsSkips.congr {s s' : Session} (h : m.HeedsSkips s) (hinputs : s'.inputs = s.inputs)
    (hactive : ∀ id, m.Heeded id → s'.Active id → s.Active id) : m.HeedsSkips s' := by
  intro id hid ha
  rw [Session.hasSkipInput_congr hinputs]
  exact h id hid (hactive id hid ha)

/-! ### What the engine schedules -/

theorem not_active_unschedule (s : Session) (id : ℤ) (status : ExecutionStatus) :
    ¬(s.unschedule id status).Active id := by
  rintro (h | h)
  · exact (OrdSet.mem_erase.mp h).1 rfl
  · exact (OrdSet.mem_erase.mp h).1 rfl

theorem Placed.noSkip {env : ω} {s s' : Session} {id : ℤ} {ptr : ActionPtr ω} (h : m.Placed env s id ptr s')
    (hactive : s'.Active id) : s.hasSkipInput id = false := by
  cases h with
  | skipped => exact absurd hactive (not_active_unschedule _ _ _)
  | planned hskip => exact hskip
  | pending hskip => exact hskip
  | unplanned => exact absurd hactive (not_active_unschedule _ _ _)

theorem Bound.heedsSkips (hm : m.Laid) {env : ω} {id : ℤ} {binding : OutputBinding} {s s' : Session}
    (h : m.Bound env id binding s s') (hs : m.HeedsSkips s) : m.HeedsSkips s' := by
  intro a ha hactive
  have hother : a ≠ binding.toActionId → s.Active a := fun hne =>
    (h.reschedules.active hactive).resolve_right hne
  cases h with
  | target _ hplaced =>
    rw [Session.hasSkipInput_congr hplaced.inputs]
    by_cases hne : a = binding.toActionId
    · subst hne
      exact hplaced.noSkip hactive
    · rw [Session.hasSkipInput_setInput_of_ne _ hne]
      exact hs a ha (hother hne)
  | die hdie =>
    have hne : a ≠ binding.toActionId := by
      rintro rfl
      exact hm.not_registered (.inr (.inl hdie)) ha.1
    exact hs a ha (hother hne)
  | absent => exact hs a ha hactive

theorem bindResults_heedsSkips (hm : m.Laid) {env : ω} {s s' : Session} {id : ℤ}
    (h : m.bindResults env s id = .ok s') (hs : m.HeedsSkips s) : m.HeedsSkips s' :=
  foldlM_invariant h hs fun _ _ _ _ hc hstep => (bindResult_cases hstep).heedsSkips hm hc

theorem Promotes.heedsSkips {s s' : Session} (h : m.Promotes s s') (hs : m.HeedsSkips s) : m.HeedsSkips s' :=
  hs.congr h.inputs fun a _ ha => (h.active_iff a).mp ha

theorem HeedsSkips.setStatus {s : Session} (hs : m.HeedsSkips s) (id : ℤ) (status : ExecutionStatus) :
    m.HeedsSkips (s.setStatus id status) := hs.congr rfl fun _ _ ha => ha

/-! ### The invariant -/

/-- What is kept along a run that retains skips. -/
structure Honours (m : StateMachine ω) (last : Delivered) (s : Session) : Prop where
  retained : m.Retained last s
  heeds : m.HeedsSkips s

theorem Retained.congr {last : Delivered} {s s' : Session} (h : m.Retained last s)
    (hinputs : s'.inputs = s.inputs) : m.Retained last s' := by
  intro source hmem hfinish hskips
  rw [Session.hasSkipInput_congr hinputs]
  exact h source hmem hfinish hskips

theorem Honours.congr {last : Delivered} {s s' : Session} (h : m.Honours last s)
    (hinputs : s'.inputs = s.inputs) (hnexts : s'.nexts = s.nexts) (hpendings : s'.pendings = s.pendings) :
    m.Honours last s' := by
  refine ⟨h.retained.congr hinputs, h.heeds.congr hinputs fun id _ ha => ?_⟩
  unfold Session.Active at ha
  rwa [hnexts, hpendings] at ha

theorem Honours.plan {last : Delivered} {s : Session} (h : m.Retained last s) (hidle : s.Idle) {id : ℤ}
    (hid : id = Step.finish.id ∨ id = Step.error.id ∨ id = Step.interrupt.id) :
    m.Honours last (s.plan id) := by
  refine ⟨h.congr rfl, fun a ha hactive => ?_⟩
  have heq : a = id := by
    rcases hactive with hmem | hmem
    · exact (OrdSet.mem_insert.mp hmem).resolve_right fun hmem => Session.not_active_of_idle hidle a (.inl hmem)
    · exact absurd (.inr hmem) (Session.not_active_of_idle hidle a)
  subst heq
  rcases hid with hid | hid | hid
  · exact absurd hid ha.2.1
  · exact absurd hid ha.2.2.1
  · exact absurd hid ha.2.2.2

end StateMachine

/-- The invariant, wherever the execution is not lost. -/
def Config.Honours {ω : Type} (m : StateMachine ω) (last : StateMachine.Delivered) : Config ω → Prop
  | .running _ w | .returned w => m.Honours last w.session
  | .crashed _ _ => True

namespace StateMachine

variable {ω : Type} {m : StateMachine ω} {last : Delivered} {w : World ω} {out : Onward ω}

theorem Honours.after (h : m.Honours last out.1.session) : (Config.after out).Honours m last := by
  obtain ⟨w, _ | call⟩ := out
  · exact h
  · exact h

theorem Honours.beginAction {s : Session} (h : m.Honours last s) (id : ℤ) :
    m.Honours last (m.beginAction s id) where
  retained := h.retained.congr (beginAction_inputs s id)
  heeds := h.heeds.congr (beginAction_inputs s id) fun _ _ ha => (active_beginAction ha).1

theorem Honours.executeAction {id : ℤ} (hcalled : m.Called w.session id) (hw : m.Honours last w.session)
    (h : m.executeAction w id = .ok out) : m.Honours last out.1.session := by
  cases executeAction_cases h with
  | die => exact hw
  | nothing h =>
    have hidle := hcalled.nothing rfl
    cases executeNone_cases hidle h with
    | finish => exact .plan hw.retained hidle (.inl rfl)
    | error =>
      have hplan : m.Honours last (w.session.plan Step.error.id) := .plan hw.retained hidle (.inr (.inl rfl))
      exact hplan.congr rfl rfl rfl
  | @action _ ptr _ _ _ _ _ hperform =>
    have hflow := ptr.sameFlow_of_perform hperform
    exact (hw.beginAction id).congr hflow.inputs hflow.nexts hflow.pendings
  | absent => exact hw.beginAction id

/-- A result leaves what is scheduled without skips, whatever inputs it delivers. -/
theorem actionExecuted_heedsSkips (hm : m.Laid) {result : Result} (hw : m.HeedsSkips w.session)
    (h : m.actionExecuted w result = .ok out) : m.HeedsSkips out.1.session := by
  obtain ⟨ptr, -, hconsumed⟩ := actionExecuted_cases h
  have hset := fun status => hw.setStatus result.actionId status
  cases hconsumed with
  | broken => exact hw.congr rfl fun _ _ ha => ha
  | done _ _ hbind hnext => exact (getNext_spec hnext).1.heedsSkips (bindResults_heedsSkips hm hbind (hset .done))
  | async => exact hset .async
  | finish _ hbind => exact bindResults_heedsSkips hm hbind (hset .done)
  | wait => exact hset .waiting
  | error => exact hw.congr rfl fun _ _ ha => ha

/-- A result keeps the invariant, if what it delivers retains the skips. -/
theorem Honours.actionExecuted (hm : m.Laid) {result : Result} {last' : Delivered}
    (hw : m.Honours last w.session)
    (hdelivered : m.Completes w result → m.Retained last' (m.deliverInputs w.session result.actionId))
    (hother : ¬m.Completes w result → last' = last) (h : m.actionExecuted w result = .ok out) :
    m.Honours last' out.1.session := by
  refine ⟨?_, actionExecuted_heedsSkips hm hw.heeds h⟩
  have hinputs := actionExecuted_inputs hm h
  split_ifs at hinputs with hcompletes
  · exact (hdelivered hcompletes).congr hinputs
  · rw [hother hcompletes]
    exact hw.retained.congr hinputs

theorem Honours.firstCall (hm : m.Laid) {last' : Delivered} (hidle : w.session.Idle)
    (hretained : m.Retained last' (m.prepared w.session))
    (hrefuses : ∀ input ∈ m.starters, input.actionId ≠ Step.finish.id →
      (m.prepared w.session).hasSkipInput input.actionId = true →
        m.Refuses w.env (m.prepared w.session) input.actionId)
    (h : m.firstCall w = .ok out) : m.Honours last' out.1.session := by
  obtain ⟨complete, s, hstarters, hcases⟩ := firstCall_cases h
  have hbegun : m.HeedsSkips (m.prepared w.session) := fun a _ ha => by
    have hbefore := ((setStarterInputs_reschedules (m := m) _ _).active ha).resolve_right id
    exact absurd hbefore (Session.not_active_of_idle hidle a)
  -- a starter is scheduled only where it takes its inputs
  have htaken : ∀ input ∈ m.starters, ∀ ptr c, m.actions.find? input.actionId = some ptr →
      m.Reschedules (fun _ => True) (m.prepared w.session) c → c.inputs = (m.prepared w.session).inputs →
      ptr.checkInputs w.env c = true → m.Heeded input.actionId → c.hasSkipInput input.actionId = false := by
    intro input hmem ptr c hptr hres hinputs hcheck hheeded
    rw [Session.hasSkipInput_congr hinputs]
    by_contra hskip
    rw [Bool.not_eq_false] at hskip
    rw [hrefuses input hmem hheeded.2.1 hskip ptr c hptr hres hinputs] at hcheck
    cases hcheck
  obtain ⟨-, hinputs, hheeds⟩ : m.Reschedules (fun _ => True) (m.prepared w.session) s ∧
      s.inputs = (m.prepared w.session).inputs ∧ m.HeedsSkips s := by
    refine scheduleStarters_invariant hstarters (P := fun c =>
      m.Reschedules (fun _ => True) (m.prepared w.session) c ∧ c.inputs = (m.prepared w.session).inputs ∧
        m.HeedsSkips c) ⟨.refl _, rfl, hbegun⟩ ?_ ?_
    · rintro input hmem ptr c hptr ⟨hres, hinputs, hc⟩ hexec
      have hcheck := ((canExecuteAction_eq_true hm).mp hexec).1
      refine ⟨hres.trans (.plan trivial (.inr ⟨ptr, hptr⟩)), hinputs, fun a ha hactive => ?_⟩
      have hplan : m.Reschedules (· = input.actionId) c (c.plan input.actionId) := .plan rfl (.inr ⟨ptr, hptr⟩)
      rcases hplan.active hactive with hbefore | rfl
      · exact hc a ha hbefore
      · exact htaken input hmem ptr c hptr hres hinputs hcheck ha
    · rintro input hmem ptr c hptr ⟨hres, hinputs, hc⟩ - hcheck
      refine ⟨hres.trans (.pend trivial ⟨ptr, hptr⟩), hinputs, fun a ha hactive => ?_⟩
      have hpend : m.Reschedules (· = input.actionId) c (c.pend input.actionId) := .pend rfl ⟨ptr, hptr⟩
      rcases hpend.active hactive with hbefore | rfl
      · exact hc a ha hbefore
      · exact htaken input hmem ptr c hptr hres hinputs hcheck ha
  rcases hcases with ⟨-, next, s', hnext, rfl⟩ | ⟨-, rfl⟩
  · have hpromotes := (getNext_spec hnext).1
    exact ⟨hretained.congr (hpromotes.inputs.trans hinputs), hpromotes.heedsSkips hheeds⟩
  · exact ⟨hretained.congr hinputs, hheeds⟩

theorem recordDelivery_of_silent {c : Config ω} {label : Option Message}
    (hcompletion : ∀ result w, completion? c label = some (result, w) → ¬m.Completes w result)
    (hfirst : firstCall? c label = none) : m.recordDelivery c label last = last := by
  funext source
  unfold recordDelivery
  rw [show m.delivers c label source = none from ?_, Option.none_or]
  cases source with
  | output binding =>
    unfold delivers
    cases hc : completion? c label with
    | none => rfl
    | some completion => exact if_neg fun h => hcompletion _ _ hc h.1
  | starter input =>
    unfold delivers
    rw [hfirst]

theorem Honours.request (hm : m.Laid) {request : Request} (hw : m.Honours last w.session)
    (hstarted : Started w.session)
    (hguard : m.RetainsSkips (.returned w, last) (some (.request request)))
    (h : m.receive w (.request request) = .ok out) :
    m.Honours (m.recordDelivery (.returned w) (some (.request request)) last) out.1.session := by
  have hsilent : w.session.status.isEmpty = false →
      m.recordDelivery (.returned w) (some (.request request)) last = last := fun hstarted =>
    recordDelivery_of_silent (fun _ _ h => nomatch h) (if_neg (by rw [hstarted]; exact Bool.false_ne_true))
  cases receive_cases hm h with
  | firstCall hfresh h =>
    obtain ⟨hretained, hrefuses⟩ := hguard.starters w request rfl rfl hfresh
    exact Honours.firstCall hm (w := ⟨w.session.pushRequest request, w.env, w.trace⟩) (hstarted.idle hfresh)
      hretained hrefuses h
  | @answered _ ptr _ _ hstarted _ _ _ hreply =>
    rw [hsilent hstarted]
    have hflow := ptr.sameFlow_of_replyReceived hreply
    exact hw.congr hflow.inputs hflow.nexts hflow.pendings
  | @reset _ step hstarted hkind _ =>
    rw [hsilent hstarted]
    have hstep : step.id = Step.finish.id ∨ step.id = Step.error.id ∨ step.id = Step.interrupt.id := by
      rcases hkind with ⟨-, rfl, -⟩ | ⟨-, rfl⟩
      · exact .inr (.inl rfl)
      · exact .inr (.inr rfl)
    have hretained : m.Retained last (m.resetSchedule (w.session.pushRequest request)) := hw.retained.congr rfl
    exact .plan hretained (resetSchedule_idle _) hstep
  | ignored hstarted =>
    rw [hsilent hstarted]
    exact hw.congr rfl rfl rfl

theorem run_honours (hm : m.Laid) {request : Request} {env : ω} {x : Config ω × Delivered}
    (hrun : (m.system.observed m.recordDelivery).Run m.RetainsSkips (opened request env, fun _ => none) x) :
    x.1.Honours m x.2 := by
  refine history_induction (I := fun c last => c.Honours m last) hm hrun ?_ ?_ ?_ ?_ ?_ ?_
  · show m.Honours (fun _ => none) (Session.ofRequest request)
    exact ⟨fun _ _ _ hskips => (nomatch hskips),
      fun id _ ha => absurd ha (Session.not_active_of_idle ⟨rfl, rfl⟩ id)⟩
  · intro id w out last hcalled hw _ hout
    have hw : m.Honours last w.session := hw
    have hsilent : m.recordDelivery (.running (.executeAction id) w) none last = last :=
      recordDelivery_of_silent (fun _ _ h => nomatch h) rfl
    rw [hsilent]
    exact (hw.executeAction hcalled hout).after
  · intro result w out last _ hw hguard hout
    have hw : m.Honours last w.session := hw
    refine (hw.actionExecuted hm (hguard.completion result w rfl) (fun hnot => ?_) hout).after
    exact recordDelivery_of_silent (fun _ _ h => by cases h; exact hnot) rfl
  · intro message w out last hreach hw hguard hout
    have hw : m.Honours last w.session := hw
    cases message with
    | request request => exact (hw.request hm (reachable_started hm hreach) hguard hout).after
    | asyncFinished result =>
      refine (hw.actionExecuted hm (hguard.completion result w rfl) (fun hnot => ?_) hout).after
      exact recordDelivery_of_silent (fun _ _ h => by cases h; exact hnot) rfl
  · intros
    trivial
  · intros
    trivial

/-- **Skips.** In a run that retains skips, a step performs no action but Finish while the last context of
one of its sources is a `SkipCtx`. -/
theorem skips_honoured (hm : Constructed m) {request : Request} {env : ω} {x : Config ω × Delivered}
    (hrun : (m.system.observed m.recordDelivery).Run m.RetainsSkips (opened request env, fun _ => none) x)
    {label : Option Message} (hguard : m.RetainsSkips x label) {c' : Config ω}
    (htrans : m.system.Trans x.1 label c') {events : List Event}
    (htrace : c'.world.trace = x.1.world.trace ++ events) :
    ∀ id s, .performed id s ∈ events → id ≠ Step.finish.id →
      ∀ source ∈ m.sources, source.target = id → ¬Skips x.2 source := by
  intro id s hmem hfinish source hsource htarget hskips
  have hw := run_honours hm.laid hrun
  have hground := reachable_grounded hm.laid hrun.source
  obtain ⟨events', htrace', hheard⟩ := trans_heard hm.laid htrans
  cases List.append_cancel_left (htrace.symm.trans htrace')
  obtain ⟨ptr, w, hc, hneg, hptr, -⟩ := hheard.of_performed hmem
  obtain ⟨c, last⟩ := x
  dsimp only at hc hw hground hskips
  subst hc
  have hw : m.Honours last w.session := hw
  have hskip : w.session.hasSkipInput id = true := by
    rw [← htarget]
    exact hw.retained source hsource (htarget ▸ hfinish) hskips
  have hnone : w.session.hasSkipInput id = false := by
    by_cases hdirect : id = Step.error.id ∨ id = Step.interrupt.id
    · exact hguard.direct id w rfl hdirect
    rw [not_or] at hdirect
    have hnext := (hground.planned hneg).resolve_right (not_or.mpr ⟨hfinish, hdirect.1⟩)
    exact hw.heeds id ⟨⟨ptr, hptr⟩, hfinish, hdirect.1, hdirect.2⟩ (.inl hnext)
  rw [hskip] at hnone
  cases hnone

end StateMachine

namespace Sample

open StateMachine

/-- Action 0 skips action 1 and leads to Finish. -/
def forked : StateMachine Unit :=
  ((StateMachine.new.init.addAction 0 skipping [bindingTo 0 "skip" 1 "in", leadTo Step.finish.id]).addAction 1
    (returning .done) [leadTo Step.finish.id]).addInput ⟨"", 0, ""⟩

/-- Its first call after `n` calls of the engine, with what was delivered. -/
def skipped (n : ℕ) : Config Unit × Delivered :=
  (forked.system.observed forked.recordDelivery).play n [.request (request .defaultAction 0 0)]
    (opened (request .defaultAction 0 0) (), fun _ => none)

theorem skipped_start : forked.RetainsSkips (opened (request .defaultAction 0 0) (), fun _ => none)
    (some (.request (request .defaultAction 0 0))) where
  completion _ _ h := nomatch h
  starters w r hw hlabel _ := by
    cases hw
    cases hlabel
    refine ⟨by decide, fun input hmem _ hskip => ?_⟩
    cases List.mem_singleton.mp hmem
    exact absurd hskip (by decide)
  direct _ _ h := nomatch h

theorem skipped_executes : forked.RetainsSkips (skipped 0) none where
  completion _ _ h := nomatch h
  starters _ _ h := nomatch h
  direct _ _ h := by
    cases h
    decide

theorem skipped_completes : forked.RetainsSkips (skipped 1) none where
  completion _ _ h _ := by
    cases h
    decide
  starters _ _ h := nomatch h
  direct _ _ h := nomatch h

theorem skipped_finishes : forked.RetainsSkips (skipped 2) none where
  completion _ _ h := nomatch h
  starters _ _ h := nomatch h
  direct _ _ h := by
    cases h
    decide

/-- The last context for action 1 is a `SkipCtx`, and action 1 is not performed. -/
theorem skipped_honoured : Skips (skipped 2).2 (.output (bindingTo 0 "skip" 1 "in")) ∧
    ∀ c' events s, forked.system.Trans (skipped 2).1 none c' →
      c'.world.trace = (skipped 2).1.world.trace ++ events → .performed 1 s ∉ events := by
  have hm : Constructed forked := Initialised.constructed (.addInput (.addAction (.addAction .refl _ _ _) _ _ _) _)
  have hstart : (forked.system.observed forked.recordDelivery).Run forked.RetainsSkips
      (opened (request .defaultAction 0 0) (), fun _ => none) (skipped 0) := .input .start skipped_start rfl
  have hrun : (forked.system.observed forked.recordDelivery).Run forked.RetainsSkips
      (opened (request .defaultAction 0 0) (), fun _ => none) (skipped 2) :=
    (hstart.internal skipped_executes rfl).internal skipped_completes rfl
  have hskips : Skips (skipped 2).2 (.output (bindingTo 0 "skip" 1 "in")) := by decide
  refine ⟨hskips, fun c' events s htrans htrace hmem => ?_⟩
  have hsource : .output (bindingTo 0 "skip" 1 "in") ∈ forked.sources := by decide
  exact skips_honoured hm hrun skipped_finishes htrans htrace 1 s hmem (by decide) _ hsource rfl hskips

def starting : StateMachine Unit :=
  (StateMachine.new.init.addAction 0 (returning .done) [leadTo Step.finish.id]).addInput ⟨"ctx", 0, "in"⟩

def skipStarted : Config Unit × Delivered :=
  (starting.system.observed starting.recordDelivery).play 0 [.request skipRequest]
    (opened skipRequest (), fun _ => none)

/-- The action is performed although its starter skips it. -/
theorem skip_performed :
    (starting.system.observed starting.recordDelivery).Reachable (opened skipRequest (), fun _ => none) skipStarted ∧
    .starter ⟨"ctx", 0, "in"⟩ ∈ starting.sources ∧ Skips skipStarted.2 (.starter ⟨"ctx", 0, "in"⟩) ∧
    ∃ c' events s, starting.system.Trans skipStarted.1 none c' ∧
      c'.world.trace = skipStarted.1.world.trace ++ events ∧ .performed 0 s ∈ events := by
  refine ⟨.play (fun _ => trivial) (fun _ _ _ => trivial) .start, by decide, by decide, ?_⟩
  exact ⟨_, [_], _, .internal rfl, rfl, .head _⟩

end Sample

end LibWorkflow
