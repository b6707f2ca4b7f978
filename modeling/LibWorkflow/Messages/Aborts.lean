import LibWorkflow.Flow.Deliveries
import LibWorkflow.Sessions.Entries

/-!
# Aborting sub-requests

The wrapper of Interrupt, Error, Finish and Cleanup is to interrupt what the session still waits for. It
builds the Interrupt requests and drops them, from a list that `executeSyncRequest` writes nothing in: so it
aborts the sub-requests of a session just where there are none to be answered (`aborts_iff`).
-/

namespace LibWorkflow

open Ordered Fallible Reactive

/-! ### Sub-requests, their answers and their interrupts -/

namespace Request

/-- Prepared by `prepareSyncRequest` in the session of the request `o`. -/
def IsQueryOf (r o : Request) : Prop :=
  r.reply = { o.target with
    executionLevel := r.reply.executionLevel, action := r.reply.action, target := .reply } ∧
  r.requestId = o.requestId

instance (r o : Request) : Decidable (r.IsQueryOf o) := inferInstanceAs (Decidable (_ ∧ _))

/-- What comes back for the sub-request `r`: a reply, or an error. -/
def IsAnswerTo (p r : Request) : Prop :=
  (p.target.target = .reply ∨ p.target.target = .error) ∧ p.reply.identifier = r.target.identifier

instance (p r : Request) : Decidable (p.IsAnswerTo r) := inferInstanceAs (Decidable (_ ∧ _))

/-- An Interrupt that asks for no reply, whatever the level. -/
def IsAbort (p : Request) : Prop :=
  p.target.target = .interrupt ∧ p.target.executionLevel = 0 ∧ p.reply.target = .noReply

/-- The Interrupt for what the sub-request `r` was sent to. -/
def Aborts (p r : Request) : Prop :=
  p.target = { r.target with executionLevel := 0, target := .interrupt } ∧ p.reply.target = .noReply

theorem Aborts.isAbort {p r : Request} (h : p.Aborts r) : p.IsAbort := by
  refine ⟨?_, ?_, h.2⟩ <;> rw [h.1]

theorem isQueryOf_prepareSyncRequest (id : ℤ) (s : Session) (req : Option Request) (fresh : Request) :
    (Action.prepareSyncRequest id s req fresh).IsQueryOf s.request := ⟨rfl, rfl⟩

theorem isAnswerTo_createReply {r o : Request} (h : r.IsQueryOf o) : r.createReply.IsAnswerTo r := by
  refine ⟨.inl ?_, rfl⟩
  show r.reply.target = .reply
  rw [h.1]

end Request

namespace Event

def sent? : Event → Option Request
  | .sent request => some request
  | _ => none

def emitted? : Event → Option Request
  | .sent request | .finishReply request | .errorReply request => some request
  | _ => none

end Event

namespace World

variable {ω : Type} (w : World ω)

def received : List Request := w.session.requests ++ [w.session.lastRequest]

/-- The sub-requests sent in the session for which no answer was received. -/
def outstanding : List Request :=
  (w.trace.filterMap Event.sent?).filter fun r =>
    decide (r.IsQueryOf w.session.request) && !w.received.any fun p => decide (p.IsAnswerTo r)

end World

theorem ActionPtr.finishReply_reply {ω : Type} (ptr : ActionPtr ω) (expectedOutput : List String) (s : Session) :
    (ptr.finishReply expectedOutput s).reply = s.request.target := by
  unfold finishReply
  have hreply : ∀ reply : Request, reply.reply = s.request.target →
      (expectedOutput.foldl (fun reply output =>
        reply.setContext output (s.getInput ptr.getActionId output)) reply).reply = s.request.target := by
    induction expectedOutput with
    | nil => exact fun _ h => h
    | cons output rest ih =>
      intro reply h
      refine ih _ ?_
      dsimp only [Request.setContext]
      cases s.getInput ptr.getActionId output <;> exact h
  exact hreply _ rfl

/-! ### Performances -/

/-- A step with a wrapper, as it is performed: in `world` the wrapper goes first. -/
structure Performance (ω : Type) where
  ptr : ActionPtr ω
  world : World ω

namespace Performance

variable {ω : Type} (m : StateMachine ω) (e : Performance ω)

def emitted : List Request :=
  ((e.ptr.wrapPerform m.getExpectedOutput e.world).trace.drop e.world.trace.length).filterMap Event.emitted?

/-- The wrapper emits an Interrupt for each sub-request that waits for its answer, and no other. -/
def AbortsOutstanding : Prop :=
  (∀ r ∈ e.world.outstanding, ∃ p ∈ e.emitted m, p.Aborts r) ∧
    ∀ p ∈ e.emitted m, p.IsAbort → ∃ r ∈ e.world.outstanding, p.Aborts r

variable {m e}

theorem reply_of_mem_emitted {p : Request} (h : p ∈ e.emitted m) : p.reply = e.world.session.request.target := by
  unfold emitted at h
  rw [e.ptr.wrapPerform_eq, List.drop_left] at h
  unfold ActionPtr.wrapReplies at h
  split at h
  · have hp : p = e.ptr.finishReply m.getExpectedOutput e.world.session := by simpa [Event.emitted?] using h
    rw [hp, ActionPtr.finishReply_reply]
  · have hp : p = ActionPtr.errorReply e.world.session := by simpa [Event.emitted?] using h
    rw [hp]
    rfl
  · cases h

theorem abortsOutstanding_iff (hopen : e.world.session.request.target.target ≠ .noReply) :
    e.AbortsOutstanding m ↔ e.world.outstanding = [] := by
  have hnone : ∀ p ∈ e.emitted m, ¬p.IsAbort := fun p hp habort =>
    hopen (reply_of_mem_emitted hp ▸ habort.2.2)
  constructor
  · intro h
    rw [List.eq_nil_iff_forall_not_mem]
    intro r hr
    obtain ⟨p, hp, haborts⟩ := h.1 r hr
    exact hnone p hp haborts.isAbort
  · intro h
    refine ⟨fun r hr => ?_, fun p hp habort => absurd habort (hnone p hp)⟩
    rw [h] at hr
    cases hr

end Performance

namespace StateMachine

variable {ω : Type} {m : StateMachine ω} {request : Request} {env : ω}

/-- The history of a run adds each performance of Interrupt, Error, Finish and Cleanup. -/
def recordPerformance (m : StateMachine ω) : Config ω → Option Message → List (Performance ω) → List (Performance ω)
  | .running (.executeAction id) w, _, h =>
    match m.actions.find? id with
    | some ptr =>
      let w := { w with session := m.beginAction w.session id }
      if id ∈ Step.aborting.map Step.id then h ++ [⟨ptr, w.emit (.performed ptr.getActionId w.session)⟩] else h
    | none => h
  | _, _, h => h

theorem mem_recordPerformance {c : Config ω} {label : Option Message} {h : List (Performance ω)}
    {e : Performance ω} (he : e ∈ m.recordPerformance c label h) :
    e ∈ h ∨ ∃ id, e.world.session = m.beginAction c.world.session id := by
  unfold recordPerformance at he
  split at he
  · rename_i id w
    cases hptr : m.actions.find? id with
    | none =>
      rw [hptr] at he
      exact .inl he
    | some ptr =>
      rw [hptr] at he
      dsimp only at he
      split_ifs at he
      · rcases List.mem_append.mp he with he | he
        · exact .inl he
        · rw [List.mem_singleton.mp he]
          exact .inr ⟨id, rfl⟩
      · exact .inl he
  · exact .inl he

/-- The performances of a run are performances in sessions of its request. -/
theorem run_performances (hm : m.Laid) {x : Config ω × List (Performance ω)}
    (hrun : (m.system.observed m.recordPerformance).Reachable (opened request env, []) x) :
    x.1.world.session.request = request ∧ ∀ e ∈ x.2, e.world.session.request = request := by
  have hrecord : ∀ c label h, c.world.session.request = request ∧ (∀ e ∈ h, e.world.session.request = request) →
      ∀ e ∈ m.recordPerformance c label h, e.world.session.request = request := by
    rintro c label h ⟨hc, hh⟩ e he
    rcases mem_recordPerformance he with he | ⟨id, hsession⟩
    · exact hh e he
    · rw [hsession, (sameHeader_beginAction _ id).request]
      exact hc
  have hcall : ∀ call w out, m.makeCall w call = .ok out → w.session.request = request →
      (Config.after out).world.session.request = request := by
    intro call w out h hw
    rw [Config.world_after]
    rcases makeCall_sameHeader h with hsame | ⟨id, ptr, -, -, hsame⟩
    · exact hsame.request.trans hw
    · exact hsame.request.trans ((ptr.wrapped_request _).trans ((sameHeader_beginAction _ id).request.trans hw))
  refine history_induction (I := fun c h => c.world.session.request = request ∧
    ∀ e ∈ h, e.world.session.request = request) hm hrun ⟨rfl, fun _ h => nomatch h⟩ ?_ ?_ ?_ ?_ ?_
  · exact fun id w out h _ hw _ hout => ⟨hcall (.executeAction id) w out hout hw.1, hrecord _ _ h hw⟩
  · exact fun result w out h _ hw _ hout => ⟨hcall (.actionExecuted result) w out hout hw.1, hrecord _ _ h hw⟩
  · intro message w out h _ hw _ hout
    refine ⟨?_, hrecord _ _ h hw⟩
    rw [Config.world_after]
    exact (receive_sameHeader hm hout).request.trans hw.1
  · exact fun call w fault h hw _ => ⟨hw.1, hrecord _ _ h hw⟩
  · exact fun message w fault h hw _ => ⟨hw.1, hrecord _ _ h hw⟩

/-- **Sub-requests are not aborted.** In every run of a session, opened by a request that
`canExecuteRequest` lets open one, the steps that are to abort the sub-requests do so if and only if no
sub-request waits for its answer when they are performed. -/
theorem aborts_iff (hm : Constructed m)
    (hopen : request.target.target = .defaultAction ∨ request.target.target = .status)
    {x : Config ω × List (Performance ω)}
    (hrun : (m.system.observed m.recordPerformance).Reachable (opened request env, []) x) :
    (∀ e ∈ x.2, e.AbortsOutstanding m) ↔ ∀ e ∈ x.2, e.world.outstanding = [] := by
  have hkind : request.target.target ≠ .noReply := by
    rcases hopen with h | h <;> rw [h] <;> decide
  have heach : ∀ e ∈ x.2, e.AbortsOutstanding m ↔ e.world.outstanding = [] := fun e he =>
    Performance.abortsOutstanding_iff ((run_performances hm.laid hrun).2 e he ▸ hkind)
  exact forall₂_congr heach

end StateMachine

namespace Sample

open StateMachine

def abandoned : Config Unit × List (Performance Unit) :=
  (inquiry.system.observed inquiry.recordPerformance).play 30
    [.request (request .defaultAction 0 0), .request (request .error (-1) 0)]
    (opened (request .defaultAction 0 0) (), [])

theorem abandoned_reachable : (inquiry.system.observed inquiry.recordPerformance).Reachable
    (opened (request .defaultAction 0 0) (), []) abandoned :=
  .play (fun _ => trivial) (fun _ _ _ => trivial) .start

theorem abandoned_asks : ∃ e ∈ abandoned.2, e.ptr.getActionId = Step.error.id ∧
    e.world.outstanding.map (·.target.workflow) = ["other"] := by
  have hperformed : (abandoned.2.map fun e => (e.ptr.getActionId, e.world.outstanding.map (·.target.workflow))) =
      [(Step.error.id, ["other"]), (Step.cleanup.id, ["other"])] := by decide
  have hmem : (Step.error.id, ["other"]) ∈
      abandoned.2.map fun e => (e.ptr.getActionId, e.world.outstanding.map (·.target.workflow)) := by
    rw [hperformed]
    exact .head _
  obtain ⟨e, he, heq⟩ := List.mem_map.mp hmem
  obtain ⟨hid, houtstanding⟩ := Prod.mk.inj heq
  exact ⟨e, he, hid, houtstanding⟩

/-- A session that has asked and is answered. The action does not expect the reply, and Error is performed. -/
def answered : Config Unit × List (Performance Unit) :=
  (inquiry.system.observed inquiry.recordPerformance).play 30
    [.request (request .defaultAction 0 0), .request (Request.ofTargets (target .reply 0 0) query.target)]
    (opened (request .defaultAction 0 0) (), [])

theorem answered_reachable : (inquiry.system.observed inquiry.recordPerformance).Reachable
    (opened (request .defaultAction 0 0) (), []) answered :=
  .play (fun _ => trivial) (fun _ _ _ => trivial) .start

theorem answered_performances : (answered.2.map fun e => (e.ptr.getActionId, e.world.outstanding)) =
    [(Step.error.id, []), (Step.cleanup.id, [])] := rfl

/-- Where the query was answered, each step aborts what is outstanding, and where it was not, one does not. -/
theorem answered_aborts : (∀ e ∈ answered.2, e.AbortsOutstanding inquiry) ∧
    ¬∀ e ∈ abandoned.2, e.AbortsOutstanding inquiry := by
  constructor
  · refine (aborts_iff inquiry_initialised.constructed (.inl rfl) answered_reachable).mpr fun e he => ?_
    have hmem := List.mem_map_of_mem (f := fun e => (e.ptr.getActionId, e.world.outstanding)) he
    rw [answered_performances, List.mem_pair] at hmem
    rcases hmem with heq | heq
    · exact (Prod.mk.inj heq).2
    · exact (Prod.mk.inj heq).2
  · intro haborts
    obtain ⟨e, he, -, houtstanding⟩ := abandoned_asks
    rw [(aborts_iff inquiry_initialised.constructed (.inl rfl) abandoned_reachable).mp haborts e he] at houtstanding
    cases houtstanding

/-- The query of the session waits for its answer when Error is performed, and Error interrupts nothing. -/
theorem query_not_aborted : (inquiry.system.observed inquiry.recordPerformance).Reachable
      (opened (request .defaultAction 0 0) (), []) abandoned ∧
    ∃ e ∈ abandoned.2, e.ptr.getActionId = Step.error.id ∧
      e.world.outstanding.map (·.target.workflow) = ["other"] ∧ ¬e.AbortsOutstanding inquiry := by
  obtain ⟨e, he, hid, houtstanding⟩ := abandoned_asks
  have hsession := (run_performances inquiry_initialised.laid abandoned_reachable).2 e he
  refine ⟨abandoned_reachable, e, he, hid, houtstanding, fun haborts => ?_⟩
  rw [(Performance.abortsOutstanding_iff (by rw [hsession]; decide)).mp haborts] at houtstanding
  cases houtstanding

end Sample

end LibWorkflow
