import LibWorkflow.Engine.Samples

/-!
# Completions of asynchronous actions

`asyncDone`, `asyncWait` and `asyncError` hand a result to `actionAsyncFinished`, which consumes it like
the result of an action performed just now: it does not look at the status of the action. A completion
that comes late, or a second time, is therefore discarded only where consuming it changes nothing
(`discards_iff`).
-/

namespace LibWorkflow

namespace StateMachine

variable {ω : Type} {m : StateMachine ω}

/-- The completion makes nothing happen: the call returns, and the session and the trace are as they
were. -/
def Discards (m : StateMachine ω) (w : World ω) (result : Result) : Prop :=
  ∃ w', m.Returns w (.asyncFinished result) w' ∧ w'.session = w.session ∧ w'.trace = w.trace

/-- A call to `executeAction` never returns without a trace: it performs an action, or the request is
finished. -/
theorem trace_ne_of_called (hm : Initialised m) {w w' : World ω} {id : ℤ} (hcalled : m.Called w.session id)
    {n : ℕ} (h : m.system.advance n (.running (.executeAction id) w) = .returned w') :
    w'.trace ≠ w.trace := by
  have hfinish : m.Registered Step.finish.id := hm.registered (.inr (.inr (.inl rfl)))
  have herror : m.Registered Step.error.id := hm.registered (.inr (.inl rfl))
  cases n with
  | zero => cases h
  | succ n =>
    have hnext : m.system.advance n (.ofStep w (m.executeAction w id)) = .returned w' := h
    cases hout : m.executeAction w id with
    | error fault =>
      rw [hout, Reactive.System.advance_of_settled rfl] at hnext
      cases hnext
    | ok out =>
      rw [hout] at hnext
      cases executeAction_cases hout with
      | die =>
        refine trace_ne_of_advance (t := w.trace) ?_ hnext
        show w.trace.length < (w.trace ++ [_]).length
        rw [List.length_append]
        exact Nat.lt_add_of_pos_right Nat.one_pos
      | nothing hnone =>
        cases executeNone_cases (hcalled.nothing rfl) hnone with
        | finish =>
          change m.system.advance n (.running (.executeAction Step.finish.id) ⟨_, w.env, w.trace⟩) = _ at hnext
          have hne := trace_ne_of_executeAction hfinish (by decide) (by decide) hnext
          exact hne
        | error =>
          change m.system.advance n (.running (.executeAction Step.error.id) ⟨_, w.env, w.trace⟩) = _ at hnext
          have hne := trace_ne_of_executeAction herror (by decide) (by decide) hnext
          exact hne
      | action hdie hneg hptr => exact trace_ne_of_executeAction ⟨_, hptr⟩ hdie hneg h
      | absent hdie hneg hreg => exact absurd (hcalled.registered hfinish herror hneg hdie) hreg

theorem not_discards_of_call (hm : Initialised m) {w : World ω} {result : Result} {s : Session} {id : ℤ}
    (hcalled : m.Called s id)
    (hexec : m.actionExecuted w result = .ok ({ w with session := s }, some (.executeAction id))) :
    ¬m.Discards w result := by
  rintro ⟨w', ⟨n, hreturned⟩, -, htrace⟩
  have hreturned : m.system.advance n (.ofStep w (m.actionExecuted w result)) = .returned w' := hreturned
  rw [hexec] at hreturned
  exact trace_ne_of_called hm (w := { w with session := s }) hcalled hreturned htrace

theorem discards_wait_iff {w : World ω} {result : Result} (hreg : m.Registered result.actionId)
    (htype : result.type = .wait) :
    m.Discards w result ↔ w.session.status.find? result.actionId = some .waiting := by
  have hexec : m.receive w (.asyncFinished result) =
      .ok ({ w with session := w.session.setStatus result.actionId .waiting }, none) := by
    obtain ⟨ptr, hptr⟩ := exists_actionAt hreg
    show m.actionExecuted w result = _
    unfold actionExecuted
    rw [hptr, htype]
    rfl
  have hreturns : ∀ w', m.Returns w (.asyncFinished result) w' ↔
      w' = { w with session := w.session.setStatus result.actionId .waiting } := by
    intro w'
    unfold Returns
    rw [hexec]
    constructor
    · rintro ⟨n, h⟩
      rw [Reactive.System.advance_of_settled rfl] at h
      cases h
      rfl
    · rintro rfl
      exact ⟨0, rfl⟩
  have hself : w.session.setStatus result.actionId .waiting = w.session ↔
      w.session.status.find? result.actionId = some .waiting := by
    rw [← Ordered.OrdMap.insert_eq_self_iff]
    constructor
    · exact fun h => congrArg Session.status h
    · intro h
      unfold Session.setStatus
      rw [h]
  unfold Discards
  simp only [hreturns]
  rw [← hself]
  constructor
  · rintro ⟨_, rfl, h, -⟩
    exact h
  · exact fun h => ⟨_, rfl, h, rfl⟩

/-- A completion that reports success or an error goes on to execute an action. -/
theorem not_discards (hm : Initialised m) {w : World ω} (hw : m.Grounded w.session) {result : Result}
    (htype : result.type = .done ∨ result.type = .error) : ¬m.Discards w result := by
  intro hdiscards
  obtain ⟨w', ⟨n, hreturned⟩, -⟩ := id hdiscards
  cases hout : m.receive w (.asyncFinished result) with
  | error fault =>
    rw [hout, Reactive.System.advance_of_settled rfl] at hreturned
    cases hreturned
  | ok out =>
    have hgrounded := actionExecuted_grounded hm.laid hw hout
    obtain ⟨ptr, -, hconsumed⟩ := actionExecuted_cases hout
    cases hconsumed with
    | broken => exact not_discards_of_call hm hgrounded hout hdiscards
    | done => exact not_discards_of_call hm hgrounded hout hdiscards
    | error => exact not_discards_of_call hm hgrounded hout hdiscards
    | async h | finish h | wait h => rw [h] at htype; simp at htype

/-- **Late completions.** Whatever the status of the action, a session discards just the completions
that set to waiting an action that is waiting already. -/
theorem discards_iff (hm : Initialised m) {request : Request} {env : ω} {w : World ω}
    (hreach : m.system.Reachable (opened request env) (.returned w)) {result : Result}
    (hreg : m.Registered result.actionId)
    (htype : result.type = .done ∨ result.type = .wait ∨ result.type = .error) :
    m.Discards w result ↔
      result.type = .wait ∧ w.session.status.find? result.actionId = some .waiting := by
  by_cases hwait : result.type = .wait
  · rw [discards_wait_iff hreg hwait]
    exact ⟨fun h => ⟨hwait, h⟩, And.right⟩
  · have hgrounded : m.Grounded w.session := reachable_grounded hm.laid hreach
    have htype' : result.type = .done ∨ result.type = .error :=
      htype.elim .inl fun h => .inr (h.resolve_left hwait)
    exact iff_of_false (not_discards hm hgrounded htype') fun h => hwait h.1

end StateMachine

namespace Sample

open StateMachine

def finished : World Unit := (session (single .done) [.request (request .defaultAction 0 0)]).world

theorem finished_reachable : (single .done).system.Reachable
    (opened (request .defaultAction 0 0) ()) (.returned finished) :=
  session_reachable _ [.request (request .defaultAction 0 0)]

theorem waiting_reachable : (single .wait).system.Reachable
    (opened (request .defaultAction 0 0) ()) (.returned waiting) :=
  session_reachable _ [.request (request .defaultAction 0 0)]

/-- A completion that has an action wait that waits already is discarded, and one that has it done is not. -/
theorem waiting_discards : (single .wait).Discards waiting ⟨0, .wait, none⟩ ∧
    ¬(single .wait).Discards waiting ⟨0, .done, none⟩ := by
  have hreg : (single .wait).Registered 0 := ⟨_, rfl⟩
  refine ⟨(discards_iff (single_initialised .wait) waiting_reachable hreg (.inr (.inl rfl))).mpr ⟨rfl, by decide⟩,
    fun hdiscards => ?_⟩
  obtain ⟨htype, -⟩ := (discards_iff (single_initialised .wait) waiting_reachable hreg (.inl rfl)).mp hdiscards
  cases htype

/-- A second completion of an action that is done restarts the flow of a session that is over. -/
theorem late_completion_not_discarded :
    (single .done).system.Reachable (opened (request .defaultAction 0 0) ()) (.returned finished) ∧
    (single .done).Registered 0 ∧ finished.session.status.find? 0 ≠ some .async ∧
    ¬(single .done).Discards finished ⟨0, .done, none⟩ :=
  ⟨finished_reachable, ⟨_, rfl⟩, by decide,
    not_discards (single_initialised .done) (reachable_grounded (single_initialised .done).laid
      finished_reachable) (.inl rfl)⟩

end Sample

end LibWorkflow
