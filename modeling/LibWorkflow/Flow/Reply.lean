import LibWorkflow.Engine.Samples

/-!
# Replies to the requester

Finish and Error reply when they are performed, and nothing remembers that a reply was sent. A session
goes on taking messages and consuming results after it has replied, so it replies again each time the
flow comes back to one of the two steps. `SilentAfterReply` lists what brings it back;
`at_most_one_reply` says that nothing else does.
-/

namespace LibWorkflow

open Ordered

def replies (trace : List Event) : List Event := trace.filter Event.isReply

def Answered (trace : List Event) : Prop := replies trace ≠ []

theorem replies_append (trace events : List Event) :
    replies (trace ++ events) = replies trace ++ replies events := List.filter_append ..

theorem replies_sent (sent : List Request) : replies (sent.map Event.sent) = [] := by
  induction sent with
  | nil => rfl
  | cons request sent ih => exact ih

theorem replies_eq_nil {trace : List Event} (h : ¬Answered trace) : replies trace = [] := not_not.mp h

namespace StateMachine

variable {ω : Type} {m : StateMachine ω} {w : World ω} {out : Onward ω}

/-! ### What performing an action replies -/

def Replies (id : ℤ) : Prop := id = Step.finish.id ∨ id = Step.error.id

theorem replies_perform {ptr : ActionPtr ω} {expected : List String} {w w' : World ω} {result : Result}
    (hperform : ptr.perform expected w = (w', result)) :
    replies w'.trace = replies w.trace ++ ptr.wrapReplies expected w.session := by
  obtain ⟨sent, htrace⟩ := ptr.trace_of_perform hperform
  have hperformed : replies (.performed ptr.getActionId w.session ::
      (ptr.wrapReplies expected w.session ++ sent.map Event.sent)) =
      replies (ptr.wrapReplies expected w.session ++ sent.map Event.sent) := rfl
  have hwrap : replies (ptr.wrapReplies expected w.session) = ptr.wrapReplies expected w.session := by
    unfold ActionPtr.wrapReplies
    rcases ptr.wrapper with _ | _ | _ | _ | _ <;> rfl
  rw [htrace, replies_append, hperformed, replies_append, replies_sent, List.append_nil, hwrap]

theorem replies_replyReceived {ptr : ActionPtr ω} {w w' : World ω} {request : Request} {result : Result}
    (hreply : ptr.replyReceived w request = (w', result)) : replies w'.trace = replies w.trace := by
  obtain ⟨sent, htrace⟩ := ptr.trace_of_replyReceived hreply
  have hreceived : replies (.replyReceived ptr.getActionId request :: sent.map Event.sent) =
      replies (sent.map Event.sent) := rfl
  rw [htrace, replies_append, hreceived, replies_sent, List.append_nil]

theorem length_wrapReplies (ptr : ActionPtr ω) (expected : List String) (s : Session) :
    (ptr.wrapReplies expected s).length ≤ 1 := by
  unfold ActionPtr.wrapReplies
  rcases ptr.wrapper with _ | _ | _ | _ | _ <;> simp

theorem wrapReplies_eq_nil (hm : m.Laid) {id : ℤ} {ptr : ActionPtr ω}
    (hptr : m.actions.find? id = some ptr) (hid : ¬Replies id) (expected : List String) (s : Session) :
    ptr.wrapReplies expected s = [] := by
  have hwrapper := hm.wrapper hptr
  simp only [Replies, not_or] at hid
  unfold wrapperOf at hwrapper
  rw [if_neg hid.2, if_neg hid.1] at hwrapper
  unfold ActionPtr.wrapReplies
  split_ifs at hwrapper <;> rw [hwrapper]

/-! ### The condition -/

/-- The result leads on without a reply: it is no error and no early end, it meets its contract if it is
done, and no binding of the action goes to Finish or Error. -/
def SilentResult (m : StateMachine ω) (w : World ω) (result : Result) : Prop :=
  result.type ≠ .error ∧ result.type ≠ .finish ∧
    (result.type = .done → (∀ ptr, m.actions.find? result.actionId = some ptr →
      ptr.checkOutputs w.env w.session = true) ∧ ∀ id, Replies id → ¬m.Leads result.actionId id)

/-- Before each transition: once a reply was sent, results lead on without a reply, the flow does not
run dry, and Error messages are caught; and Finish is not executed while Error is planned or pending. -/
structure SilentAfterReply (m : StateMachine ω) (c : Config ω) (label : Option Message) : Prop where
  results : ∀ result w, c = .running (.actionExecuted result) w → Answered w.trace → m.SilentResult w result
  completions : ∀ result w, c = .returned w → label = some (.asyncFinished result) → Answered w.trace →
    m.SilentResult w result
  notDry : ∀ w, c = .running (.executeAction (-1)) w → ¬Answered w.trace
  errors : ∀ request w, c = .returned w → label = some (.request request) → Answered w.trace →
    request.target.target = .error →
    m.Caught { w with session := w.session.pushRequest request } request
  finish : ∀ w, c = .running (.executeAction Step.finish.id) w → ¬w.session.Active Step.error.id

theorem silentAfterReply_of_unanswered {c : Config ω} {label : Option Message}
    (hunanswered : ¬Answered c.world.trace) (herror : ¬c.world.session.Active Step.error.id) :
    m.SilentAfterReply c label where
  results _ _ hc hanswered := by
    rw [hc] at hunanswered
    exact absurd hanswered hunanswered
  completions _ _ hc _ hanswered := by
    rw [hc] at hunanswered
    exact absurd hanswered hunanswered
  notDry _ hc := by
    rw [hc] at hunanswered
    exact hunanswered
  errors _ _ hc _ hanswered := by
    rw [hc] at hunanswered
    exact absurd hanswered hunanswered
  finish _ hc := by
    rw [hc] at herror
    exact herror

theorem silentAfterReply_executeAction {id : ℤ} (hdry : id ≠ -1) (herror : ¬w.session.Active Step.error.id) :
    m.SilentAfterReply (.running (.executeAction id) w) none where
  results _ _ hc := nomatch hc
  completions _ _ hc := nomatch hc
  notDry _ hc := by
    cases hc
    exact absurd rfl hdry
  errors _ _ hc := nomatch hc
  finish _ hc := by
    cases hc
    exact herror

theorem silentAfterReply_actionExecuted {result : Result} (h : m.SilentResult w result) :
    m.SilentAfterReply (.running (.actionExecuted result) w) none where
  results _ _ hc _ := by
    cases hc
    exact h
  completions _ _ hc := nomatch hc
  notDry _ hc := nomatch hc
  errors _ _ hc := nomatch hc
  finish _ hc := nomatch hc

/-! ### The invariant -/

/-- Finish and Error are neither planned nor pending, and the session is started. -/
structure Over (s : Session) : Prop where
  started : s.status.isEmpty = false
  notActive : ∀ id, Replies id → ¬s.Active id

theorem Over.congr {s s' : Session} (h : Over s) (hnexts : s'.nexts = s.nexts)
    (hpendings : s'.pendings = s.pendings) (hstatus : s'.status = s.status) : Over s' where
  started := hstatus ▸ h.started
  notActive id hid := by
    unfold Session.Active
    rw [hnexts, hpendings]
    exact h.notActive id hid

theorem Over.reschedules {ids : ℤ → Prop} {s s' : Session} (h : Over s) (hs : m.Reschedules ids s s')
    (hids : ∀ id, Replies id → ¬ids id) : Over s' where
  started := hs.started h.started
  notActive id hid hactive := (hs.active hactive).elim (h.notActive id hid) (hids id hid)

theorem Over.beginAction {s : Session} (h : Over s) (id : ℤ) : Over (m.beginAction s id) where
  started := started_beginAction (.inr h.started)
  notActive a ha hactive := h.notActive a ha (active_beginAction hactive).1

end StateMachine

/-- At most one reply was sent, and once it was the flow is over. -/
structure Config.RepliesOnce {ω : Type} (m : StateMachine ω) (c : Config ω) : Prop where
  once : (replies c.world.trace).length ≤ 1
  closed : Answered c.world.trace → StateMachine.Over c.world.session
  call : ∀ id w, c = .running (.executeAction id) w →
    (Answered w.trace → ¬StateMachine.Replies id) ∧
    (m.Registered id → StateMachine.leavesFlow id = true ∨ w.session.status.isEmpty = false)

namespace StateMachine

variable {ω : Type} {m : StateMachine ω} {w : World ω} {out : Onward ω}

/-- A transition that sends nothing. -/
theorem repliesOnce_of_silent {w' : World ω} {next : Option Call} (hw : (replies w.trace).length ≤ 1)
    (htrace : replies w'.trace = replies w.trace) (hover : Answered w.trace → Over w'.session)
    (hcall : ∀ id, next = some (.executeAction id) → (Answered w.trace → ¬Replies id) ∧
      (m.Registered id → leavesFlow id = true ∨ w'.session.status.isEmpty = false)) :
    (Config.after (w', next)).RepliesOnce m := by
  have hanswered : Answered w'.trace ↔ Answered w.trace := by
    unfold Answered
    rw [htrace]
  rcases next with _ | call
  · exact ⟨htrace ▸ hw, fun h => hover (hanswered.mp h), fun _ _ h => nomatch h⟩
  · refine ⟨htrace ▸ hw, fun h => hover (hanswered.mp h), ?_⟩
    intro id w'' heq
    cases heq
    exact ⟨fun h => (hcall id rfl).1 (hanswered.mp h), (hcall id rfl).2⟩

theorem executeAction_repliesOnce (hm : m.Laid) {id : ℤ} (hcalled : m.Called w.session id)
    (hw : (Config.running (.executeAction id) w).RepliesOnce m)
    (hguard : m.SilentAfterReply (.running (.executeAction id) w) none)
    (h : m.executeAction w id = .ok out) : (Config.after out).RepliesOnce m := by
  obtain ⟨honce, hover, hcall⟩ := hw
  obtain ⟨hnot, hstarted⟩ := hcall id w rfl
  cases executeAction_cases h with
  | die =>
    refine repliesOnce_of_silent honce ?_ hover fun _ h => nomatch h
    exact (replies_append _ _).trans (List.append_nil _)
  | nothing h =>
    have hunanswered := hguard.notDry w rfl
    cases executeNone_cases (hcalled.nothing rfl) h with
    | finish =>
      refine repliesOnce_of_silent honce rfl (fun h => absurd h hunanswered) ?_
      exact fun _ _ => ⟨fun h => absurd h hunanswered, fun _ => .inr (started_plan ..)⟩
    | error =>
      refine repliesOnce_of_silent honce rfl (fun h => absurd h hunanswered) ?_
      exact fun _ _ => ⟨fun h => absurd h hunanswered, fun _ => .inr (started_plan w.session _)⟩
  | @action _ ptr _ _ hptr w' result hperform =>
    have hflow := ptr.sameFlow_of_perform hperform
    have hreplies : replies w'.trace = replies w.trace ++
        ptr.wrapReplies m.getExpectedOutput (m.beginAction w.session id) := replies_perform hperform
    by_cases hid : Replies id
    · -- the reply of this step is the first
      have hunanswered : ¬Answered w.trace := fun h => hnot h hid
      have hlen := length_wrapReplies ptr m.getExpectedOutput (m.beginAction w.session id)
      have hnone : replies w.trace = [] := replies_eq_nil hunanswered
      have hbegin : Over (m.beginAction w.session id) := by
        refine ⟨started_beginAction (hstarted ⟨ptr, hptr⟩), fun a ha hbegun => ?_⟩
        obtain ⟨hactive, hne, hstays⟩ := active_beginAction hbegun
        rcases hid with rfl | rfl
        · rcases ha with rfl | rfl
          · exact hne rfl
          · exact hguard.finish w rfl hactive
        · cases hstays
      refine ⟨?_, fun _ => hbegin.congr hflow.nexts hflow.pendings hflow.status, fun _ _ h => nomatch h⟩
      show (replies w'.trace).length ≤ 1
      rw [hreplies, hnone]
      exact hlen
    · refine repliesOnce_of_silent (w := w) honce ?_ ?_ fun _ h => nomatch h
      · rw [hreplies, wrapReplies_eq_nil hm hptr hid, List.append_nil]
      · intro h
        exact ((hover h).beginAction id).congr hflow.nexts hflow.pendings hflow.status
  | absent => exact repliesOnce_of_silent (w := w) honce rfl (fun h => (hover h).beginAction id) fun _ h => nomatch h

/-- Consuming a result sends nothing, and after a reply a silent one stays over. -/
theorem actionExecuted_repliesOnce (hm : m.Laid) {result : Result} (hground : m.Grounded w.session)
    (honce : (replies w.trace).length ≤ 1) (hover : Answered w.trace → Over w.session)
    (hsilent : Answered w.trace → m.SilentResult w result) (h : m.actionExecuted w result = .ok out) :
    (Config.after out).RepliesOnce m := by
  obtain ⟨ptr, hptr, hconsumed⟩ := actionExecuted_cases h
  have hset : ∀ status, Over w.session → Over (w.session.setStatus result.actionId status) :=
    fun status hw => ⟨started_setStatus .., hw.notActive⟩
  have hbound : ∀ {s}, m.bindResults w.env (w.session.setStatus result.actionId .done) result.actionId =
      .ok s → m.Reschedules (m.Leads result.actionId) _ s := bindResults_reschedules
  cases hconsumed with
  | broken htype hcheck =>
    have hunanswered : ¬Answered w.trace := fun hanswered => by
      have hmet := ((hsilent hanswered).2.2 htype).1 ptr hptr
      rw [hcheck] at hmet
      cases hmet
    refine repliesOnce_of_silent (w := w) honce rfl (fun h => absurd h hunanswered) ?_
    intro id heq
    cases heq
    exact ⟨fun h => absurd h hunanswered, fun _ => .inl rfl⟩
  | @done htype _ s s' next hbind hnext =>
    have hstarted := (hbound hbind).started (started_setStatus _ _ _)
    have hpromoted := (getNext_spec hnext).1.reschedules
    have hover' : Answered w.trace → Over s' := fun hanswered => by
      have hleads := ((hsilent hanswered).2.2 htype).2
      have hs : Over s := (hset .done (hover hanswered)).reschedules (hbound hbind) hleads
      exact hs.reschedules hpromoted fun id hid hmem => hs.notActive id hid (.inr hmem)
    have hnext' := Grounded.getNext hm ((hground.setStatus ⟨ptr, hptr⟩ .done).reschedules (hbound hbind)) hnext
    refine repliesOnce_of_silent (w := w) honce rfl hover' ?_
    intro id heq
    cases heq
    refine ⟨fun hanswered hid => ?_, fun _ => .inr (hpromoted.started hstarted)⟩
    have hne : next ≠ -1 := by rcases hid with rfl | rfl <;> decide
    exact (hover' hanswered).notActive next hid (.inl (hnext'.2.2 hne))
  | async => exact repliesOnce_of_silent (w := w) honce rfl (fun h => hset _ (hover h)) fun _ h => nomatch h
  | finish htype hbind =>
    have hunanswered : ¬Answered w.trace := fun hanswered => (hsilent hanswered).2.1 htype
    refine repliesOnce_of_silent (w := w) honce rfl (fun h => absurd h hunanswered) ?_
    intro id heq
    cases heq
    exact ⟨fun h => absurd h hunanswered, fun _ => .inr ((hbound hbind).started (started_setStatus _ _ _))⟩
  | wait => exact repliesOnce_of_silent (w := w) honce rfl (fun h => hset _ (hover h)) fun _ h => nomatch h
  | error htype =>
    have hunanswered : ¬Answered w.trace := fun hanswered => (hsilent hanswered).1 htype
    refine repliesOnce_of_silent (w := w) honce rfl (fun h => absurd h hunanswered) ?_
    intro id heq
    cases heq
    exact ⟨fun h => absurd h hunanswered, fun _ => .inl rfl⟩

theorem receive_repliesOnce (hm : m.Laid) {message : Message} (hground : m.Grounded w.session)
    (hw : (Config.returned w).RepliesOnce m)
    (hguard : m.SilentAfterReply (.returned w) (some message)) (h : m.receive w message = .ok out) :
    (Config.after out).RepliesOnce m := by
  obtain ⟨honce, hover, -⟩ := hw
  cases receive_cases hm h with
  | @firstCall request _ hfresh h =>
    -- a session that replied has been started
    have hunanswered : ¬Answered w.trace := fun hanswered => by
      have hstarted := (hover hanswered).started
      rw [show w.session.status.isEmpty = false from hstarted] at hfresh
      cases hfresh
    obtain ⟨complete, s, hstarters, hcases⟩ := firstCall_cases h
    have hstatused := (scheduleStarters_reschedules hstarters).statused (prepared_statused _)
    rcases hcases with ⟨-, next, s', hnext, rfl⟩ | ⟨-, rfl⟩
    · refine repliesOnce_of_silent (w := w) honce rfl (fun h => absurd h hunanswered) ?_
      intro id heq
      cases heq
      refine ⟨fun h => absurd h hunanswered, fun hreg => .inr ?_⟩
      exact started_of_statused ((getNext_spec hnext).1.reschedules.statused hstatused) hreg
    · exact repliesOnce_of_silent (w := w) honce rfl (fun h => absurd h hunanswered) fun _ h => nomatch h
  | @answered request ptr w' result _ _ _ _ hreply =>
    have hflow := ptr.sameFlow_of_replyReceived hreply
    have hsilent := replies_replyReceived hreply
    refine repliesOnce_of_silent (w := w) honce hsilent ?_ fun _ h => nomatch h
    intro hanswered
    have hpush : Over (w.session.pushRequest request) := (hover hanswered).congr rfl rfl rfl
    exact hpush.congr hflow.nexts hflow.pendings hflow.status
  | @reset request step _ hkind hreg =>
    -- after a reply the Error of a message is caught by an action: only Interrupt resets
    have hstep : Answered w.trace → step = .interrupt := fun hanswered => by
      rcases hkind with ⟨herror, -, hcaught⟩ | ⟨-, hstep⟩
      · exact absurd (hguard.errors request w rfl rfl hanswered herror) hcaught
      · exact hstep
    have hnot : Answered w.trace → ¬Replies step.id := fun hanswered => by
      have hinterrupt : ¬(Step.interrupt.id = Step.finish.id ∨ Step.interrupt.id = Step.error.id) := by
        decide
      rw [hstep hanswered]
      exact hinterrupt
    refine repliesOnce_of_silent (w := w) honce rfl ?_ ?_
    · intro hanswered
      refine ⟨started_plan _ _, fun a ha hactive => ?_⟩
      rcases hactive with hactive | hactive
      · rcases OrdSet.mem_insert.mp hactive with rfl | hmem
        · exact hnot hanswered ha
        · cases hmem
      · cases hactive
    · intro id heq
      cases heq
      exact ⟨hnot, fun _ => .inr (started_plan _ _)⟩
  | ignored =>
    exact repliesOnce_of_silent (w := w) honce rfl (fun h => (hover h).congr rfl rfl rfl)
      fun _ h => nomatch h
  | @finished result _ h =>
    exact actionExecuted_repliesOnce hm hground honce hover (hguard.completions result w rfl rfl) h

/-- **At most one reply.** In a run of any machine in which, once a reply was sent, no result and no
message brings the flow back to Finish or Error, at most one reply is sent. -/
theorem at_most_one_reply (hm : Constructed m) {request : Request} {env : ω} {c : Config ω}
    (hrun : m.system.Run m.SilentAfterReply (opened request env) c) :
    (replies c.world.trace).length ≤ 1 := by
  have hcrash : ∀ (w : World ω) fault, (replies w.trace).length ≤ 1 → (Answered w.trace → Over w.session) →
      (Config.crashed fault w).RepliesOnce m := fun w fault honce hover => ⟨honce, hover, fun _ _ h => nomatch h⟩
  have hinv : c.RepliesOnce m := by
    refine grounded_induction hm.laid hrun ?_ ?_ ?_ ?_ ?_ ?_
    · exact ⟨Nat.zero_le 1, fun h => absurd rfl h, fun _ _ h => nomatch h⟩
    · intro id w out hcalled hinv hguard h
      exact executeAction_repliesOnce hm.laid hcalled hinv hguard h
    · intro result w out hground hinv hguard h
      exact actionExecuted_repliesOnce hm.laid hground hinv.once hinv.closed (hguard.results result w rfl) h
    · intro message w out hground hinv hguard h
      exact receive_repliesOnce hm.laid hground hinv hguard h
    · exact fun call w fault hinv => hcrash w fault hinv.once hinv.closed
    · exact fun w fault hinv => hcrash w fault hinv.once hinv.closed
  exact hinv.once

end StateMachine

namespace Sample

open StateMachine

theorem finish_silentResult {w : World Unit} : (single .done).SilentResult w ⟨Step.finish.id, .done, none⟩ := by
  refine ⟨by decide, by decide, fun _ => ⟨fun ptr hptr => ?_, fun id hid ⟨output, hmem, htarget⟩ => ?_⟩⟩
  · cases hptr
    rfl
  · obtain rfl : output = bindingTo Step.finish.id "" Step.cleanup.id "" := List.mem_singleton.mp hmem
    rcases hid with rfl | rfl
    · exact absurd htarget (by decide)
    · exact absurd htarget (by decide)

theorem cleanup_silentResult {w : World Unit} : (single .done).SilentResult w ⟨Step.cleanup.id, .done, none⟩ := by
  refine ⟨by decide, by decide, fun _ => ⟨fun ptr hptr => ?_, fun id hid ⟨output, hmem, htarget⟩ => ?_⟩⟩
  · cases hptr
    rfl
  · obtain rfl : output = bindingTo Step.cleanup.id "" Step.die.id "" := List.mem_singleton.mp hmem
    rcases hid with rfl | rfl
    · exact absurd htarget (by decide)
    · exact absurd htarget (by decide)

theorem replying_errorless : ∀ n < 7, Step.error.id ∉ (started (single .done) n).world.session.nexts ∧
    Step.error.id ∉ (started (single .done) n).world.session.pendings := by decide

theorem replying_silent : ∀ k < 7, (single .done).SilentAfterReply (started (single .done) k) none := by
  intro k hk
  have herror : ¬(started (single .done) k).world.session.Active Step.error.id := fun hactive =>
    hactive.elim (replying_errorless k hk).1 (replying_errorless k hk).2
  match k with
  | 0 => exact silentAfterReply_executeAction (by decide) herror
  | 1 => exact silentAfterReply_of_unanswered (not_not.mpr rfl) herror
  | 2 => exact silentAfterReply_executeAction (by decide) herror
  | 3 => exact silentAfterReply_actionExecuted finish_silentResult
  | 4 => exact silentAfterReply_executeAction (by decide) herror
  | 5 => exact silentAfterReply_actionExecuted cleanup_silentResult
  | 6 => exact silentAfterReply_executeAction (by decide) herror

/-- A run to Die, which sends one reply on its way. -/
theorem replying_at_most_one :
    (∃ w r, started (single .done) 7 = .returned w ∧ w.trace.getLast? = some (.requestFinished r)) ∧
      (replies (started (single .done) 7).world.trace).length = 1 ∧
      (replies (started (single .done) 7).world.trace).length ≤ 1 := by
  have hopened : (single .done).system.accept (opened (request .defaultAction 0 0) ())
      (.request (request .defaultAction 0 0)) = some (started (single .done) 0) := rfl
  refine ⟨⟨_, _, rfl, rfl⟩, by decide, at_most_one_reply (single_initialised .done).constructed
    (.advance_of (.input .start ?_ hopened) replying_silent)⟩
  apply silentAfterReply_of_unanswered (not_not.mpr rfl)
  exact Session.not_active_of_idle ⟨rfl, rfl⟩ _

/-- After the request was answered and the session has executed Die, an Error message is answered with a
second reply. -/
theorem two_replies : (single .done).validate = none ∧
    (single .done).system.Reachable (opened (request .defaultAction 0 0) ())
      (session (single .done) [.request (request .defaultAction 0 0), .request (request .error 0 0)]) ∧
    ¬(replies (session (single .done) [.request (request .defaultAction 0 0),
      .request (request .error 0 0)]).world.trace).length ≤ 1 :=
  ⟨by decide, session_reachable _ _, by decide⟩

end Sample

end LibWorkflow
