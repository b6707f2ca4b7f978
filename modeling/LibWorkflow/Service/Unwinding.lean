import LibWorkflow.Core.Ancestry
import LibWorkflow.Flow.Reply
import LibWorkflow.Flow.Termination
import LibWorkflow.Messages.Causes
import LibWorkflow.Service.Network
import LibWorkflow.Sessions.Isolation

/-!
# Errors leave the calls they were raised in

A session that is sent an Error its action does not take performs Error, Cleanup and Die. It replies once, with the
report rethrown, and where it was called by another session the reply is an Error for that session. However deep
the calls are, the error climbs to the one that was made from outside (`errors_climb`).
-/

namespace LibWorkflow

open Ordered Fallible

namespace StateMachine

variable {ω : Type} {m : StateMachine ω} {w : World ω}

/-! ### The way out of a session -/

def performDefault (m : StateMachine ω) (w : World ω) (id : ℤ) : World ω where
  session := (m.beginAction w.session id).upCurrentExecutionLevel
  env := w.env
  trace := w.trace ++ .performed id (m.beginAction w.session id) ::
    (defaultPtr ω id).wrapReplies m.getExpectedOutput (m.beginAction w.session id)

/-- Error or Cleanup is executed next, in a session that can clean up. -/
structure Leaving (m : StateMachine ω) (id : ℤ) (s : Session) : Prop where
  step : id = Step.error.id ∨ id = Step.cleanup.id
  grounded : m.Grounded s
  statused : m.Statused s
  clean : Clean s

namespace Leaving

variable {id : ℤ} {s : Session}

theorem isDefault (h : m.Leaving id s) : IsDefault id := h.step.elim .inl fun h => .inr (.inr h)

theorem idle_beginAction (h : m.Leaving id s) : (m.beginAction s id).Idle := by
  have hleaves : leavesFlow id = true := by rcases h.step with rfl | rfl <;> rfl
  unfold StateMachine.beginAction
  dsimp only
  rw [if_pos hleaves]
  exact ⟨rfl, rfl⟩

theorem performDefault (h : m.Leaving id w.session) : m.Leaving id (m.performDefault w id).session where
  step := h.step
  grounded := (h.grounded.beginAction id).congr rfl rfl rfl
  statused := (beginAction_statused h.statused id).congr rfl
  clean := by
    obtain ⟨_, _, _, heq⟩ := m.exists_beginAction_eq w.session id
    unfold StateMachine.performDefault
    rw [heq]
    exact h.clean.congr rfl rfl

/-- The step is performed, is done, and is followed by its target. -/
theorem advance (hm : Ordinary m) (h : m.Leaving id w.session) :
    ∃ w', m.system.advance 2 (.running (.executeAction id) w) = .running (.executeAction (defaultTarget id)) w' ∧
      w'.trace = (m.performDefault w id).trace ∧ w'.session.request = w.session.request ∧
      m.Grounded w'.session ∧ m.Statused w'.session ∧ Clean w'.session := by
  have hid := h.isDefault
  have hlaid := hm.initialised.laid
  have hreg := hm.registered_default hid
  obtain ⟨-, hground, hstatused, hclean⟩ := h.performDefault
  have hdone : Clean ((m.performDefault w id).session.setStatus id .done) := hclean.congr rfl rfl
  -- the result schedules the target, and nothing else is scheduled
  obtain ⟨bound, hbind⟩ : ∃ s, m.bindResults w.env ((m.performDefault w id).session.setStatus id .done) id = .ok s :=
    bindResults_succeeds hlaid (hstatused.setStatus id .done) hreg
  have hreschedules := bindResults_reschedules hbind
  have hbound : m.Grounded bound := (hground.setStatus hreg .done).reschedules hreschedules
  obtain ⟨hactive, honly⟩ := active_of_default (w := w) hm hdone hid hbind
  obtain ⟨next, s, hnext⟩ := getNext_succeeds hbound.pendings
  have hpromotes := (getNext_spec hnext).1
  obtain rfl : next = defaultTarget id := getNext_of_only hlaid hbound hactive
    (fun a ha => (honly a ha).resolve_left (Session.not_active_of_idle h.idle_beginAction a)) hnext
  have hnamed : ∀ output ∈ m.bindings id, output.toActionId = Step.cleanup.id → output.toActionInput = "" := by
    intro output hmem _
    rw [hm.bindings_default hid, List.mem_singleton] at hmem
    rw [hmem]
    rfl
  refine ⟨{ m.performDefault w id with session := s }, ?_, rfl, ?_, hbound.reschedules hpromotes.reschedules,
    hpromotes.reschedules.statused (hreschedules.statused (hstatused.setStatus id .done)),
    (hdone.bindResults hnamed hbind).promotes hpromotes⟩
  · have hperformed : m.system.next (.running (.executeAction id) w) =
        some (.running (.actionExecuted ⟨id, .done, none⟩) (m.performDefault w id)) :=
      congrArg some (congrArg (Config.ofStep w) (hm.executeAction_default hid w))
    rw [Reactive.System.advance_succ_of_next hperformed]
    refine Reactive.System.advance_succ_of_next (congrArg some ?_) 0
    show Config.ofStep _ (m.actionExecuted _ _) = _
    rw [hm.actionExecuted_default hid]
    show Config.ofStep _ (m.bindResults w.env _ id >>= _) = _
    rw [hbind, ok_bind]
    unfold executeNext
    rw [hnext]
    rfl
  · have hbegun : (m.beginAction w.session id).request = w.session.request :=
      (sameHeader_beginAction w.session id).request
    exact (hpromotes.reschedules.sameHeader.request.trans hreschedules.sameHeader.request).trans hbegun

end Leaving

/-- From Error the session goes on to Cleanup and to Die, and comes to its end. -/
theorem advance_error (hm : Ordinary m) (h : m.Leaving Step.error.id w.session) :
    ∃ w' cleanup, m.system.advance 5 (.running (.executeAction Step.error.id) w) = .returned w' ∧
      w'.trace = w.trace ++ [.performed Step.error.id (m.beginAction w.session Step.error.id),
        .errorReply (ActionPtr.errorReply (m.beginAction w.session Step.error.id)),
        .performed Step.cleanup.id cleanup, .requestFinished w.session.request] := by
  obtain ⟨w₁, herror, htrace₁, hrequest₁, hground, hstatused, hclean⟩ := h.advance hm
  have hleaving : m.Leaving Step.cleanup.id w₁.session := ⟨.inr rfl, hground, hstatused, hclean⟩
  obtain ⟨w₂, hcleanup, htrace₂, hrequest₂, -⟩ := hleaving.advance hm
  refine ⟨w₂.emit (.requestFinished w₂.session.request), m.beginAction w₁.session Step.cleanup.id, ?_, ?_⟩
  · rw [show 5 = 2 + (2 + 1) from rfl, Reactive.System.advance_add, herror]
    show m.system.advance (2 + 1) (.running (.executeAction Step.cleanup.id) w₁) = _
    rw [Reactive.System.advance_add, hcleanup]
    exact Reactive.System.advance_succ_of_next rfl 0
  · show w₂.trace ++ _ = _
    rw [htrace₂, hrequest₂, hrequest₁]
    show w₁.trace ++ [.performed Step.cleanup.id _] ++ _ = _
    rw [htrace₁]
    show w.trace ++ [.performed Step.error.id _, .errorReply _] ++ _ ++ _ = _
    rw [List.append_assoc, List.append_assoc]
    rfl

/-! ### Sessions that others depend on -/

/-- The messages of an undisturbed session; what its actions read may change at any time. -/
def Calm (c : Config ω) (label : Option (Message ⊕ ω)) : Prop :=
  ∀ message, label = some (.inl message) → Undisturbed c (some message)

/-- What holds at each point of the session after its first message. -/
structure Composed (m : StateMachine ω) (c : Config ω) : Prop where
  grounded : c.Grounded m
  statused : c.Statused m
  tidy : c.Tidy

/-- The session is as it was opened, or composed. -/
def Upright (m : StateMachine ω) (request : Request) (c : Config ω) : Prop :=
  (∃ env, c = opened request env) ∨ m.Composed c

theorem Composed.withEnv {c : Config ω} (h : m.Composed c) (env : ω) : m.Composed (c.withEnv env) := by
  obtain ⟨hground, hstatused, htidy⟩ := h
  rcases c with ⟨_ | _, w⟩ | w | ⟨fault, w⟩ <;> exact ⟨hground, hstatused, htidy⟩

theorem composed_ofStep {step : Except Fault (Onward ω)} (hw : m.Grounded w.session)
    (h : ∀ out, step = .ok out → m.Composed (.after out)) : m.Composed (.ofStep w step) := by
  cases step with
  | error fault => exact ⟨hw, trivial, trivial⟩
  | ok out => exact h out rfl

theorem Composed.makeCall (hm : Ordinary m) (hown : m.OwnResults) (hvalid : m.validate = none) {call : Call}
    (h : m.Composed (.running call w)) : m.Composed (.ofStep w (m.makeCall w call)) := by
  obtain ⟨hground, hstatused, htidy⟩ := h
  cases call with
  | executeAction id =>
    refine composed_ofStep hground.grounded fun out hout => ⟨?_, ?_, ?_⟩
    · exact executeAction_grounded hground hout
    · exact executeAction_statused hground hstatused hout
    · exact executeAction_tidy hm hown hground hstatused htidy hout
  | actionExecuted result =>
    refine composed_ofStep hground fun out hout => ⟨?_, ?_, ?_⟩
    · exact actionExecuted_grounded hm.initialised.laid hground hout
    · exact actionExecuted_statused hstatused hout
    · exact actionExecuted_tidy hm hvalid htidy.1 htidy.2 hout

theorem Composed.receive (hm : Ordinary m) (hown : m.OwnResults) (hvalid : m.validate = none) {request : Request}
    (hspares : m.SparesCleanup request)
    (h : m.Upright request (.returned w)) {message : Message}
    (hguard : Undisturbed (.returned w) (some message)) : m.Composed (.ofStep w (m.receive w message)) := by
  have hlaid := hm.initialised.laid
  have hground : m.Grounded w.session := by
    rcases h with ⟨env, heq⟩ | h
    · cases heq
      exact Grounded.ofRequest request
    · exact h.grounded
  have hstatused : m.StatusedWhenStarted w.session := by
    rcases h with ⟨env, heq⟩ | h
    · cases heq
      exact .inl rfl
    · exact h.statused
  have hstart : w = ⟨.ofRequest request, w.env, []⟩ ∨ (Config.returned w).Tidy := by
    refine h.imp (fun ⟨env, heq⟩ => ?_) Composed.tidy
    cases heq
    rfl
  refine composed_ofStep hground fun out hout => ⟨?_, ?_, ?_⟩
  · exact receive_grounded hlaid hground hout
  · exact receive_statused hlaid hstatused hguard.completes hout
  · exact receive_tidy hm hown hvalid hspares hstart hguard hout

theorem run_upright (hm : Ordinary m) (hown : m.OwnResults) (hvalid : m.validate = none) {request : Request}
    {env : ω} (hspares : m.SparesCleanup request) {c : Config ω}
    (hrun : m.shared.Run Calm (opened request env) c) : m.Upright request c := by
  have hstart : m.Upright request (opened request env) := .inl ⟨env, rfl⟩
  refine hrun.invariant_cases hstart ?_ ?_
  · rintro (⟨call, w⟩ | _ | _) c' hc - hnext <;> cases hnext
    refine .inr (Composed.makeCall hm hown hvalid (hc.resolve_left ?_))
    rintro ⟨env, heq⟩
    cases heq
  · rintro c (message | env') c' hc hguard haccept
    · rcases c with _ | w | _ <;> cases haccept
      exact .inr (Composed.receive hm hown hvalid hspares hc (hguard message rfl))
    · cases haccept
      exact hc.imp (fun ⟨env, heq⟩ => ⟨env', by rw [heq]; rfl⟩) (·.withEnv env')

/-! ### An error that is not taken -/

/-- The session after `errorReceived`, where Error is planned and nothing else. -/
def erring (m : StateMachine ω) (w : World ω) (p : Request) : World ω :=
  { w with session := (m.resetSchedule (w.session.pushRequest p)).plan Step.error.id }

/-- What a started session does with an Error that the action it names does not take. -/
theorem receive_uncaught (hm : Ordinary m) (hstarted : w.session.status.isEmpty = false)
    (hstatused : m.Statused w.session) {p : Request} (hkind : p.target.target = .error)
    (huncaught : ¬m.Caught { w with session := w.session.pushRequest p } p) :
    m.receive w (.request p) = .ok (m.erring w p, some (.executeAction Step.error.id)) := by
  have hstep : m.receiveStep { w with session := w.session.pushRequest p } .error = .ok
      (m.erring w p, some (.executeAction Step.error.id)) :=
    (receiveStep_eq_ok (by decide)).mpr ⟨hm.registered_default (.inl rfl), rfl⟩
  show m.execute w p = _
  unfold execute
  dsimp only
  rw [if_neg (started_pushRequest hstarted p), if_pos hkind]
  unfold errorReceived
  cases hptr : m.actions.find? p.target.action with
  | none => exact hstep
  | some ptr =>
    obtain ⟨status, hstatus⟩ := hstatused p.target.action ⟨ptr, hptr⟩
    have hget : (w.session.pushRequest p).getStatus p.target.action = .ok status :=
      Session.getStatus_eq_ok.mpr hstatus
    dsimp only
    rw [hget, ok_bind, if_neg]
    · exact hstep
    · intro h
      rw [Bool.and_eq_true, decide_eq_true_eq] at h
      exact huncaught ⟨ptr, hptr, h.1 ▸ hstatus, h.2⟩

theorem Composed.leaving_erring (hm : Ordinary m) (h : m.Composed (.returned w)) (p : Request) :
    m.Leaving Step.error.id (m.erring w p).session := by
  have hreg : m.Registered Step.error.id := hm.registered_default (.inl rfl)
  have hplan : m.Reschedules (· = Step.error.id) (m.resetSchedule (w.session.pushRequest p))
      (m.erring w p).session := .plan rfl (.inr hreg)
  refine ⟨.inl rfl, (Grounded.resetSchedule _).plan hreg, hplan.statused (resetSchedule_statused _), ?_⟩
  exact h.tidy.1.clean.congr rfl rfl

/-- It replies once, with the report of the Error rethrown, and comes to its end. -/
theorem returns_uncaught (hm : Ordinary m) (hstarted : w.session.status.isEmpty = false)
    (hw : m.Composed (.returned w)) {p : Request} (hkind : p.target.target = .error)
    (huncaught : ¬m.Caught { w with session := w.session.pushRequest p } p) :
    ∃ w' events, m.Returns w (.request p) w' ∧ w'.trace = w.trace ++ events ∧
      replies events = [.errorReply (ActionPtr.errorReply (w.session.pushRequest p))] ∧
      .requestFinished w.session.request ∈ events := by
  have hstatused : m.Statused w.session :=
    (hw.statused : m.StatusedWhenStarted w.session).resolve_left (by rw [hstarted]; exact Bool.false_ne_true)
  obtain ⟨w', cleanup, hadvance, htrace⟩ := advance_error hm (hw.leaving_erring hm p)
  have hbegun : ActionPtr.errorReply (m.beginAction (m.erring w p).session Step.error.id) =
      ActionPtr.errorReply (w.session.pushRequest p) := by
    unfold ActionPtr.errorReply
    rw [lastRequest_beginAction, (sameHeader_beginAction (m.erring w p).session Step.error.id).request]
    rfl
  rw [hbegun] at htrace
  refine ⟨w', _, ⟨5, ?_⟩, htrace, rfl, ?_⟩
  · rw [receive_uncaught hm hstarted hstatused hkind huncaught]
    exact hadvance
  · have hrequest : (m.erring w p).session.request = w.session.request := rfl
    simp [hrequest]

end StateMachine

/-! ### Calls inside calls -/

/-- A session, and the action of it that waits for the answer to a call. -/
structure Frame (ω : Type) where
  machine : StateMachine ω
  world : World ω
  caller : ℤ
  ordinary : machine.Ordinary
  ownResults : machine.OwnResults
  valid : machine.validate = none
  reached : ∃ request env, machine.SparesCleanup request ∧
    machine.shared.Run StateMachine.Calm (StateMachine.opened request env) (.returned world)
  started : world.session.status.isEmpty = false

namespace Frame

variable {ω : Type} (f g : Frame ω) (p : Request)

def request : Request := f.world.session.request

/-- The session of `f` was opened with a request whose answer goes to the action of `g`. -/
def CalledBy : Prop := ∃ s : Session, s.request = g.request ∧ f.request.reply = s.address g.caller

/-- The message is an Error for the action, routed as the request of the session was. -/
structure Concerns : Prop where
  kind : p.target.target = .error
  action : p.target.action = f.caller
  id : p.getId = f.request.getId
  host : ∀ {α : Type} (s : Managers α), s.host? p.target = s.host? f.request.target

def given : World ω := { f.world with session := f.world.session.pushRequest p }

def Takes : Prop := f.machine.Caught (f.given p) p

/-- What the session answers its own request with when it is sent the Error. -/
def passOn : Request := ActionPtr.errorReply (f.world.session.pushRequest p)

/-- The message is taken by a call that returns; the session replies once, passing the Error on, and is over. -/
def Leaves : Prop := ∃ w' events, f.machine.Returns f.world (.request p) w' ∧ w'.trace = f.world.trace ++ events ∧
  replies events = [.errorReply (f.passOn p)] ∧ .requestFinished f.request ∈ events

def Hears : Prop := ∃ w' result sent, f.machine.receive f.world (.request p) = .ok (w', some (.actionExecuted result)) ∧
  w'.trace = f.world.trace ++ .replyReceived f.caller p :: List.map Event.sent sent

/-- What the innermost of the sessions is sent, passed on by all of them. -/
def climb (frames : List (Frame ω)) (p : Request) : Request := frames.foldl (fun p f => f.passOn p) p

variable {f g p}

theorem composed : f.machine.Composed (.returned f.world) := by
  obtain ⟨request, env, hspares, hrun⟩ := f.reached
  refine (StateMachine.run_upright f.ordinary f.ownResults f.valid hspares hrun).resolve_left ?_
  rintro ⟨env', heq⟩
  have hstarted := f.started
  rw [Config.returned.inj heq] at hstarted
  exact Bool.noConfusion hstarted

theorem leaves (hp : f.Concerns p) (huncaught : ¬f.Takes p) : f.Leaves p :=
  StateMachine.returns_uncaught f.ordinary f.started f.composed hp.kind huncaught

theorem hears (hp : f.Concerns p) (hcaught : f.Takes p) : f.Hears p := by
  obtain ⟨ptr, hptr, hwait, hcan⟩ := hcaught
  have hreply : ptr.replyReceived (f.given p) p = _ := rfl
  obtain ⟨sent, htrace⟩ := ptr.trace_of_replyReceived hreply
  have hown : ptr.getActionId = f.caller := (f.ordinary.initialised.laid.own hptr).trans hp.action
  refine ⟨(ptr.replyReceived (f.given p) p).1, (ptr.replyReceived (f.given p) p).2, sent, ?_, hown ▸ htrace⟩
  show f.machine.execute f.world p = _
  unfold StateMachine.execute
  dsimp only
  rw [if_neg (StateMachine.started_pushRequest f.started p), if_pos hp.kind]
  show f.machine.errorReceived (f.given p) p = _
  unfold StateMachine.errorReceived
  rw [hptr]
  dsimp only
  rw [Session.getStatus_eq_ok.mpr hwait, ok_bind, if_pos (by rw [hcan]; rfl)]
  rfl

theorem CalledBy.concerns (h : f.CalledBy g) (p : Request) : g.Concerns (f.passOn p) := by
  obtain ⟨s, hrequest, hreply⟩ := h
  have htarget : (f.passOn p).target = { s.address g.caller with target := .error } :=
    congrArg (fun t : Target => { t with target := .error }) hreply
  refine ⟨rfl, congrArg Target.action htarget, ?_, fun managers => ?_⟩
  · show (f.passOn p).target.identifier = _
    rw [htarget, ← hrequest]
    rfl
  · rw [htarget, ← hrequest]
    rfl

/-- The report keeps its root, and each session adds the target of its own request. -/
theorem report_climb {er : ErrorReport} (frames : List (Frame ω)) (hreport : p.report = some er) :
    ∃ report, (climb frames p).report = some report ∧ report.root = er.root ∧
      report.getAncestry.map (·.target) = er.getAncestry.map (·.target) ++ frames.map (·.request.target) := by
  induction frames generalizing p er with
  | nil => exact ⟨er, hreport, rfl, by simp⟩
  | cons f frames ih =>
    have hpassed : (f.passOn p).report = some (er.rethrown ⟨f.request.target, "", "", none⟩) := by
      rw [← ErrorReportOf.rethrow_eq, ← hreport]
      rfl
    obtain ⟨report, hclimb, hroot, hancestry⟩ := ih hpassed
    refine ⟨report, hclimb, hroot.trans (ErrorReportOf.root_rethrown er _), ?_⟩
    rw [hancestry, ErrorReportOf.getAncestry_rethrown, List.map_append, List.append_assoc]
    rfl

theorem concerns_climb {pre post : List (Frame ω)} (hcalls : (pre ++ f :: post).IsChain CalledBy)
    (hp : ∀ inner ∈ (pre ++ f :: post).head?, inner.Concerns p) : f.Concerns (climb pre p) := by
  induction pre generalizing p with
  | nil => exact hp f rfl
  | cons inner pre ih =>
    rw [List.cons_append, List.isChain_cons] at hcalls
    exact ih hcalls.2 fun outer houter => (hcalls.1 outer houter).concerns p

/-- **Errors climb.** An Error for the innermost of some sessions, each of which was called by the next and none of
which takes it, is passed on by each of them to the next: it concerns the session, which replies once and is over.
The outermost answers its own request, with the id of this request. The report names the sessions that were left, in
order, and keeps its key and its message. A further session whose action takes the Error is given what was passed
on. -/
theorem errors_climb {frames : List (Frame ω)} (hcalls : frames.IsChain CalledBy)
    (hp : ∀ f ∈ frames.head?, f.Concerns p)
    (huncaught : ∀ pre f post, frames = pre ++ f :: post → ¬f.Takes (climb pre p)) :
    (∀ pre f post, frames = pre ++ f :: post → f.Concerns (climb pre p) ∧ f.Leaves (climb pre p)) ∧
      (∀ f ∈ frames.getLast?, (climb frames p).target = { f.request.reply with target := .error } ∧
        (climb frames p).requestId = f.request.requestId ∧
        ∀ g, f.CalledBy g → g.Takes (climb frames p) → g.Hears (climb frames p)) ∧
      ∀ er, p.report = some er → ∃ report, (climb frames p).report = some report ∧
        report.getErrorKey = er.getErrorKey ∧ report.getErrorMessage = er.getErrorMessage ∧
        report.getAncestry.map (·.target) = er.getAncestry.map (·.target) ++ frames.map (·.request.target) := by
  refine ⟨fun pre f post hsplit => ?_, fun f hlast => ?_, fun er her => ?_⟩
  · have hconcerns : f.Concerns (climb pre p) := by
      rw [hsplit] at hcalls hp
      exact concerns_climb hcalls hp
    exact ⟨hconcerns, leaves hconcerns (huncaught pre f post hsplit)⟩
  · obtain ⟨pre, rfl⟩ := List.getLast?_eq_some_iff.mp hlast
    have hclimb : climb (pre ++ [f]) p = f.passOn (climb pre p) := List.foldl_append
    rw [hclimb]
    exact ⟨rfl, rfl, fun g hcalled htakes => hears (hcalled.concerns _) htakes⟩
  · obtain ⟨report, hclimb, hroot, hancestry⟩ := report_climb frames her
    refine ⟨report, hclimb, ?_, ?_, hancestry⟩
    · rw [ErrorReportOf.getErrorKey_eq, hroot, ErrorReportOf.getErrorKey_eq]
    · rw [ErrorReportOf.getErrorMessage_eq, hroot, ErrorReportOf.getErrorMessage_eq]

end Frame

namespace Sample

open StateMachine

def called (r : Request) : Config Unit := (single .wait).shared.play 30 [.inl (.request r)] (opened r ())

theorem called_calm {r : Request} (hkind : r.target.target = .defaultAction) :
    (single .wait).shared.Run Calm (opened r ()) (called r) := by
  refine .play (fun _ _ h => nomatch h) (fun c input hinput message heq => ?_) .start
  obtain rfl := List.mem_singleton.mp hinput
  cases heq
  constructor
  · rintro result h
    cases h
  · rintro request h
    cases h
    rw [hkind]
    decide

def waitingFrame (r : Request) (hkind : r.target.target = .defaultAction)
    (hreturned : called r = .returned (called r).world) (hspares : (single .wait).SparesCleanup r)
    (hstarted : (called r).world.session.status.isEmpty = false) : Frame Unit where
  machine := single .wait
  world := (called r).world
  caller := 0
  ordinary := single_ordinary .wait
  ownResults := single_ownResults .wait
  valid := by decide
  reached := ⟨r, (), hspares, hreturned ▸ called_calm hkind⟩
  started := hstarted

def outerFrame : Frame Unit := waitingFrame (request .defaultAction 0 0) rfl rfl rfl rfl

def innerFrame : Frame Unit :=
  waitingFrame { query with reply := outerFrame.world.session.address 0 } rfl rfl rfl rfl

theorem not_caught {w : World Unit} {p : Request} (haction : p.target.action = 0) : ¬(single .wait).Caught w p := by
  rintro ⟨ptr, hptr, -, hcan⟩
  have hnone : ((single .wait).actions.find? 0).map (·.canHandleError w.env w.session) = some false := rfl
  rw [← haction, hptr, Option.map_some, hcan] at hnone
  cases hnone

def raised : Request :=
  { query with
    target := { innerFrame.world.session.address 0 with target := .error }
    report := some (.ofError query.target "key" "message") }

/-- The client is answered with the error, which has left both sessions. -/
theorem raised_climbs :
    (Frame.climb [innerFrame, outerFrame] raised).target = { outerFrame.request.reply with target := .error } ∧
      outerFrame.Leaves (innerFrame.passOn raised) ∧
      ∃ report, (Frame.climb [innerFrame, outerFrame] raised).report = some report ∧ report.getErrorKey = "key" ∧
        report.getAncestry.map (·.target) = [query.target, innerFrame.request.target, outerFrame.request.target] := by
  have hcalled : innerFrame.CalledBy outerFrame := ⟨outerFrame.world.session, rfl, rfl⟩
  have hcalls : [innerFrame, outerFrame].IsChain Frame.CalledBy := .cons_cons hcalled (.singleton _)
  have huncaught : ∀ pre f post, [innerFrame, outerFrame] = pre ++ f :: post → ¬f.Takes (Frame.climb pre raised) := by
    rintro (_ | ⟨f₁, _ | ⟨f₂, pre⟩⟩) f post hsplit
    · cases hsplit
      exact not_caught rfl
    · cases hsplit
      exact not_caught rfl
    · exact absurd (congrArg List.length hsplit) (by simp)
  obtain ⟨hleft, hlast, hreport⟩ := Frame.errors_climb hcalls
    (fun f hf => by cases hf; exact ⟨rfl, rfl, rfl, fun _ => rfl⟩) huncaught
  obtain ⟨report, hclimb, hkey, -, hancestry⟩ := hreport _ rfl
  exact ⟨(hlast outerFrame rfl).1, (hleft [innerFrame] outerFrame [] rfl).2, report, hclimb, hkey, hancestry⟩

end Sample

end LibWorkflow
