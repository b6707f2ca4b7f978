import LibWorkflow.Engine.Samples

/-!
# Stale messages

A sub-request is asked at an execution level, and the answer carries it: once the session has moved on
to another level the answer is stale. `execute` compares the levels after it has dispatched Error
messages, so a stale reply is ignored and a stale error is not (`ignores_stale_iff`).
-/

namespace LibWorkflow

namespace StateMachine

variable {ω : Type} {m : StateMachine ω}

def Stale (s : Session) (request : Request) : Prop :=
  request.target.executionLevel ≠ 0 ∧ request.target.executionLevel ≠ s.currentExecutionLevel

/-- The request makes nothing happen: `execute` returns, nothing was performed, answered or sent, and
the session is where it was. -/
def Ignores (m : StateMachine ω) (w : World ω) (request : Request) : Prop :=
  ∃ w', m.Returns w (.request request) w' ∧ w'.trace = w.trace ∧
    w'.session.status = w.session.status ∧ w'.session.nexts = w.session.nexts ∧
    w'.session.pendings = w.session.pendings ∧ w'.session.inputs = w.session.inputs ∧
    w'.session.outputs = w.session.outputs ∧
    w'.session.currentExecutionLevel = w.session.currentExecutionLevel

/-- A stale reply comes as far as the comparison of levels. -/
theorem ignores_stale_reply {w : World ω} (hstarted : w.session.status.isEmpty = false)
    {request : Request} (hkind : request.target.target = .reply) (hstale : Stale w.session request) :
    m.Ignores w request := by
  have hexec : m.execute w request =
      .ok ({ w with session := w.session.pushRequest request }, none) := by
    unfold execute
    dsimp only
    rw [if_neg (started_pushRequest hstarted request), hkind]
    exact if_pos hstale
  refine ⟨{ w with session := w.session.pushRequest request }, ⟨0, ?_⟩, rfl, rfl, rfl, rfl, rfl, rfl, rfl⟩
  rw [Reactive.System.advance_zero]
  exact congrArg (Config.ofStep w) hexec

/-- An Error message of a started session either is answered or performs Error. -/
theorem not_ignores_error (hm : m.Laid) {w : World ω} (hstarted : w.session.status.isEmpty = false)
    {request : Request} (hkind : request.target.target = .error) : ¬m.Ignores w request := by
  rintro ⟨w', ⟨n, hreturned⟩, htrace, -⟩
  cases hout : m.receive w (.request request) with
  | error fault =>
    rw [hout] at hreturned
    rw [Reactive.System.advance_of_settled rfl] at hreturned
    cases hreturned
  | ok out =>
    rw [hout] at hreturned
    cases receive_cases hm hout with
    | firstCall hfresh => rw [hstarted] at hfresh; cases hfresh
    | @answered _ ptr _ _ _ _ _ _ hreply =>
      obtain ⟨sent, hsent⟩ := ptr.trace_of_replyReceived hreply
      refine trace_ne_of_advance (t := w.trace) ?_ hreturned htrace
      show w.trace.length < _
      dsimp only [Config.ofStep, Config.after, Config.world]
      rw [hsent, List.length_append, List.length_cons]
      exact Nat.lt_add_of_pos_right (Nat.succ_pos _)
    | @reset _ step _ hstep hreg =>
      have hne : step.id ≠ Step.die.id ∧ step.id ≠ -1 := by
        rcases hstep with ⟨-, rfl, -⟩ | ⟨-, rfl⟩ <;> decide
      exact trace_ne_of_executeAction hreg hne.1 hne.2 hreturned htrace
    | ignored _ herror => exact herror hkind

/-- **Stale messages.** Of the answers a sub-workflow gives too late, a started session ignores the
replies, and no error. -/
theorem ignores_stale_iff (hm : Constructed m) {w : World ω} (hstarted : w.session.status.isEmpty = false)
    {request : Request} (hkind : request.target.target = .reply ∨ request.target.target = .error)
    (hstale : Stale w.session request) : m.Ignores w request ↔ request.target.target = .reply := by
  constructor
  · intro hignores
    exact hkind.resolve_right fun herror => not_ignores_error hm.laid hstarted herror hignores
  · exact fun hreply => ignores_stale_reply hstarted hreply hstale

end StateMachine

namespace Sample

open StateMachine

theorem stale_reply_ignored : (single .wait).Ignores waiting (request .reply 0 7) ↔
    (request .reply 0 7).target.target = .reply :=
  ignores_stale_iff (single_initialised .wait).constructed (by decide) (.inl rfl) ⟨by decide, by decide⟩

/-- The answer of a level the session is not at reaches the error flow when it is an error. -/
theorem stale_error_not_ignored :
    (single .wait).system.Reachable (opened (request .defaultAction 0 0) ()) (.returned waiting) ∧
    waiting.session.status.isEmpty = false ∧ (request .error 0 7).target.target = .error ∧
    Stale waiting.session (request .error 0 7) ∧ ¬(single .wait).Ignores waiting (request .error 0 7) :=
  ⟨session_reachable _ [.request (request .defaultAction 0 0)], by decide, rfl, ⟨by decide, by decide⟩,
    not_ignores_error (single_initialised .wait).constructed.laid (by decide) rfl⟩

end Sample

end LibWorkflow
