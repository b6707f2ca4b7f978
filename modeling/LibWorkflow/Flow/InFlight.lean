import LibWorkflow.Engine.Samples

/-!
# One action in flight

Nothing in a session records which action it waits for. The statuses do: in every reachable state at
most one action is waiting or asynchronous, no action is performed while one is, and until that one is
answered, or an Error or Interrupt resets the session, the session ignores what it receives
(`one_in_flight`).
-/

namespace LibWorkflow

open Ordered

namespace StateMachine

variable {ω : Type} {m : StateMachine ω}

/-! ### Along a run -/

def QuietTrace (trace : List Event) : Prop := ∀ id s, Event.performed id s ∈ trace → s.Quiet

theorem QuietTrace.append {trace : List Event} (h : QuietTrace trace) {events : List Event}
    (hnone : ∀ id s, Event.performed id s ∉ events) : QuietTrace (trace ++ events) := by
  intro id s hmem
  rcases List.mem_append.mp hmem with hmem | hmem
  · exact h id s hmem
  · exact absurd hmem (hnone id s)

theorem performed_notMem_sent (sent : List Request) (id : ℤ) (s : Session) :
    Event.performed id s ∉ sent.map Event.sent := by
  simp

theorem performed_notMem_wrapReplies (ptr : ActionPtr ω) (expected : List String) (s₀ : Session) (id : ℤ)
    (s : Session) : Event.performed id s ∉ ptr.wrapReplies expected s₀ := by
  unfold ActionPtr.wrapReplies
  rcases ptr.wrapper with _ | _ | _ | _ | _ <;> simp

theorem quietTrace_perform {ptr : ActionPtr ω} {expected : List String} {w w' : World ω} {result : Result}
    (hperform : ptr.perform expected w = (w', result)) (htrace : QuietTrace w.trace)
    (hquiet : w.session.Quiet) : QuietTrace w'.trace := by
  obtain ⟨sent, heq⟩ := ptr.trace_of_perform hperform
  rw [heq]
  intro id s hmem
  rcases List.mem_append.mp hmem with hmem | hmem
  · exact htrace id s hmem
  rcases List.mem_cons.mp hmem with hhead | hmem
  · cases hhead
    exact hquiet
  · rcases List.mem_append.mp hmem with hmem | hmem
    · exact absurd hmem (performed_notMem_wrapReplies ptr expected w.session id s)
    · exact absurd hmem (performed_notMem_sent sent id s)

theorem quietTrace_replyReceived {ptr : ActionPtr ω} {w w' : World ω} {request : Request} {result : Result}
    (hreply : ptr.replyReceived w request = (w', result)) (htrace : QuietTrace w.trace) :
    QuietTrace w'.trace := by
  obtain ⟨sent, heq⟩ := ptr.trace_of_replyReceived hreply
  rw [heq]
  refine htrace.append fun id s hmem => ?_
  rcases List.mem_cons.mp hmem with hhead | hmem
  · cases hhead
  · exact performed_notMem_sent sent id s hmem

end StateMachine

/-- The invariant: what may be in flight at each point of the execution. -/
def Config.Awaits {ω : Type} (c : Config ω) : Prop :=
  StateMachine.QuietTrace c.world.trace ∧ match c with
  | .running (.executeAction id) w => w.session.AtMostOneInFlight ∧
      (w.session.Quiet ∨ StateMachine.leavesFlow id = true)
  | .running (.actionExecuted result) w => w.session.AwaitsOnly result.actionId
  | .returned w | .crashed _ w => w.session.AtMostOneInFlight

namespace StateMachine

variable {ω : Type} {m : StateMachine ω} {w : World ω} {out : Onward ω}

theorem actionExecuted_awaits {result : Result} (htrace : QuietTrace w.trace)
    (hw : w.session.AwaitsOnly result.actionId) (h : m.actionExecuted w result = .ok out) :
    (Config.after out).Awaits := by
  have hdone : (w.session.setStatus result.actionId .done).Quiet := hw.settle (by decide) (by decide)
  obtain ⟨ptr, -, hconsumed⟩ := actionExecuted_cases h
  cases hconsumed with
  | broken => exact ⟨htrace, (hw.congr rfl).atMostOne, .inr rfl⟩
  | done _ _ hbind hnext =>
    have hbound := (bindResults_reschedules hbind).quiet hdone
    have hchosen := (getNext_spec hnext).1.reschedules.quiet hbound
    exact ⟨htrace, hchosen.atMostOne, .inl hchosen⟩
  | async => exact ⟨htrace, (hw.setStatus .async).atMostOne⟩
  | finish _ hbind =>
    have hbound := (bindResults_reschedules hbind).quiet hdone
    exact ⟨htrace, hbound.atMostOne, .inl hbound⟩
  | wait => exact ⟨htrace, (hw.setStatus .waiting).atMostOne⟩
  | error =>
    have hquiet : ((w.session.setLastErrorReport result.error).setStatus result.actionId .done).Quiet :=
      hdone.congr rfl
    exact ⟨htrace, hquiet.atMostOne, .inl hquiet⟩

theorem executeAction_awaits {id : ℤ} (hcalled : m.Called w.session id)
    (hw : (Config.running (.executeAction id) w).Awaits) (h : m.executeAction w id = .ok out) :
    (Config.after out).Awaits := by
  obtain ⟨htrace, hone, hquiet⟩ := hw
  have hbegin : (m.beginAction w.session id).Quiet := quiet_beginAction hquiet
  cases executeAction_cases h with
  | die => exact ⟨htrace.append (by simp), hone⟩
  | nothing h =>
    have hquiet := hquiet.resolve_right (by decide)
    cases executeNone_cases (hcalled.nothing rfl) h with
    | finish _ hreg =>
      have hplan := quiet_plan hquiet (.inr hreg)
      exact ⟨htrace, hplan.atMostOne, .inl hplan⟩
    | error _ hreg =>
      have hplan : ((w.session.plan Step.error.id).setLastErrorReport (some (noend w.session))).Quiet :=
        (quiet_plan hquiet (.inr hreg)).congr rfl
      exact ⟨htrace, hplan.atMostOne, .inl hplan⟩
  | @action _ ptr _ _ hptr w' result hperform =>
    have hflow := ptr.sameFlow_of_perform hperform
    have htrace' : QuietTrace w'.trace := quietTrace_perform hperform htrace hbegin
    exact ⟨htrace', (hbegin.congr hflow.status).awaitsOnly _⟩
  | absent => exact ⟨htrace, hbegin.atMostOne⟩

theorem receive_awaits (hm : m.Laid) (hown : m.OwnResults) {message : Message}
    (hw : (Config.returned w).Awaits) (hguard : CompletesAsync (.returned w) (some message))
    (h : m.receive w message = .ok out) : (Config.after out).Awaits := by
  obtain ⟨htrace, hone⟩ := hw
  cases receive_cases hm h with
  | @firstCall request _ hfresh h =>
    obtain ⟨complete, s, hstarters, hcases⟩ := firstCall_cases h
    have hs := (scheduleStarters_reschedules hstarters).quiet (quiet_prepared hfresh)
    rcases hcases with ⟨-, next, s', hnext, rfl⟩ | ⟨-, rfl⟩
    · have hchosen := (getNext_spec hnext).1.reschedules.quiet hs
      exact ⟨htrace, hchosen.atMostOne, .inl hchosen⟩
    · exact ⟨htrace, hs.atMostOne⟩
  | @answered request ptr w' result _ _ hptr hwait hreply =>
    have hawaits : (w.session.pushRequest request).AwaitsOnly request.target.action :=
      (hone.awaitsOnly (.inl hwait)).congr rfl
    have hflow := ptr.sameFlow_of_replyReceived hreply
    have htrace' : QuietTrace w'.trace := quietTrace_replyReceived hreply htrace
    refine ⟨htrace', ?_⟩
    show w'.session.AwaitsOnly result.actionId
    rw [hown.replyReceived hm hptr hreply]
    exact hawaits.congr hflow.status
  | @reset request _ _ _ hreg =>
    have hplan := quiet_plan (quiet_resetSchedule (m := m) (w.session.pushRequest request)) (.inr hreg)
    exact ⟨htrace, hplan.atMostOne, .inl hplan⟩
  | ignored => exact ⟨htrace, hone⟩
  | @finished result _ h =>
    exact actionExecuted_awaits htrace (hone.awaitsOnly (.inr (hguard result rfl))) h

theorem run_awaits (hm : m.Laid) (hown : m.OwnResults) {request : Request} {env : ω} {c : Config ω}
    (hrun : m.system.Run CompletesAsync (opened request env) c) : c.Awaits := by
  refine grounded_induction hm hrun ?_ ?_ ?_ ?_ ?_ ?_
  · refine ⟨fun _ _ hmem => (nomatch hmem), fun a b ha => ?_⟩
    rcases ha with ha | ha <;> cases ha
  · intro id w out hcalled hinv _ h
    exact executeAction_awaits hcalled hinv h
  · intro result w out _ hinv _ h
    exact actionExecuted_awaits hinv.1 hinv.2 h
  · intro message w out _ hinv hguard h
    exact receive_awaits hm hown hinv hguard h
  · rintro (id | result) w fault ⟨htrace, hinv⟩
    · exact ⟨htrace, hinv.1⟩
    · exact ⟨htrace, hinv.atMostOne⟩
  · exact fun w fault hinv => hinv

/-- The messages that answer `x`, or reset the session. -/
def Answers (x : ℤ) : Message → Prop
  | .request request => request.target.target = .reply ∧ request.target.action = x ∨
      request.target.target = .error ∨ request.target.target = .interrupt
  | .asyncFinished result => result.actionId = x

/-- While `x` is in flight a message that does not answer it is recorded, and nothing else. -/
theorem receive_of_inFlight (hm : m.Laid) {x : ℤ} (hone : w.session.AtMostOneInFlight)
    (hstatused : m.Statused w.session) (hx : w.session.InFlight x) {message : Message}
    (hguard : CompletesAsync (.returned w) (some message)) (hnot : ¬Answers x message) :
    ∃ request, m.receive w message = .ok ({ w with session := w.session.pushRequest request }, none) := by
  have hstarted : w.session.status.isEmpty = false := by
    rw [← Bool.not_eq_true, OrdMap.isEmpty_iff]
    intro hnone
    rcases hx with hx | hx <;> rw [hnone x] at hx <;> cases hx
  cases message with
  | asyncFinished result => exact absurd (hone _ _ (.inr (hguard result rfl)) hx) hnot
  | request request =>
    simp only [Answers, not_or, not_and] at hnot
    obtain ⟨hreply, herror, hinterrupt⟩ := hnot
    obtain ⟨out, hout⟩ := execute_succeeds hstatused hstarted herror hinterrupt
    refine ⟨request, ?_⟩
    show m.execute w request = _
    rw [hout]
    have hreceive : m.receive w (.request request) = .ok out := hout
    cases receive_cases hm hreceive with
    | firstCall hfresh => rw [hstarted] at hfresh; cases hfresh
    | answered _ hkind _ hwait =>
      exact absurd (hone _ _ (.inl hwait) hx) (hreply (hkind.resolve_left herror))
    | reset _ hkind => exact absurd (hkind.elim And.left fun h => absurd h.1 hinterrupt) herror
    | ignored => rfl

end StateMachine

namespace Sample

open StateMachine

end Sample

end LibWorkflow
