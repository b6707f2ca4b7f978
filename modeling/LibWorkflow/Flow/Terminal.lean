import LibWorkflow.Flow.Graph

/-!
# Error and Finish in one call

Whether a step is performed again in the same call is decided by what leads the engine to it: a result, or
nothing left to execute (`TurnsTo`), and the bindings of an action that is done (`BoundTo`). Each of them may
come from the actions at the terminal steps themselves, and then the call comes back to the step. A step
that was performed is out of the schedule (`Spent`), so that nothing else brings it back
(`terminal_steps_once`).
-/

namespace LibWorkflow

open Ordered Fallible Reactive

namespace StateMachine

variable {ω : Type} {m : StateMachine ω}

/-! ### The branches -/

/-- The branches that go on with Error or with Finish at once: an error or a broken contract, a call for
Finish, and nothing left to execute, where Finish is next if a predecessor of it is done. -/
def TurnsTo (m : StateMachine ω) (w : World ω) (id : ℤ) : Call → Prop
  | .executeAction next => next = -1 ∧
      (id = Step.error.id ∧ m.canExecuteFinish w.session = .ok false ∨
        id = Step.finish.id ∧ m.canExecuteFinish w.session = .ok true)
  | .actionExecuted result => m.Registered result.actionId ∧
      (id = Step.error.id ∧ (result.type = .error ∨ result.type = .done ∧ ¬m.Fulfils w result) ∨
        id = Step.finish.id ∧ result.type = .finish)

/-- The results of an action that the author bound to `id` are bound. -/
def BoundTo (m : StateMachine ω) (w : World ω) (id : ℤ) : Call → Prop
  | .executeAction _ => False
  | .actionExecuted result =>
    (result.type = .finish ∨ m.Fulfils w result) ∧ m.Leads result.actionId id

/-- The call goes on with the execution of `id`. -/
def GoesTo (m : StateMachine ω) (w : World ω) (call : Call) (id : ℤ) : Prop :=
  ∃ w', m.makeCall w call = .ok (w', some (.executeAction id))

theorem goesTo_of_turnsTo (hm : Initialised m) {call : Call} {w : World ω} {id : ℤ}
    (hgrounded : (Config.running call w).Grounded m) (hs : m.Statused w.session) (h : m.TurnsTo w id call) :
    m.GoesTo w call id := by
  cases call with
  | executeAction next =>
    obtain ⟨rfl, ⟨rfl, hexec⟩ | ⟨rfl, hexec⟩⟩ := h
    · exact ⟨_, executeNone_of_ran (hgrounded.nothing rfl) (.error hexec (hm.registered (.inr (.inl rfl))))⟩
    · exact ⟨_, executeNone_of_ran (hgrounded.nothing rfl) (.finish hexec (hm.registered (.inr (.inr (.inl rfl)))))⟩
  | actionExecuted result =>
    obtain ⟨⟨ptr, hptr⟩, ⟨rfl, htype | ⟨htype, hbroken⟩⟩ | ⟨rfl, htype⟩⟩ := h
    · exact ⟨_, actionExecuted_of_consumed hptr (.error htype)⟩
    · refine ⟨_, actionExecuted_of_consumed hptr (.broken htype ?_)⟩
      by_contra hcheck
      exact hbroken ⟨htype, by rw [hptr]; exact Bool.not_eq_false _ ▸ hcheck⟩
    · obtain ⟨s, hbind⟩ : ∃ s, m.bindResults w.env (w.session.setStatus result.actionId .done)
          result.actionId = .ok s :=
        bindResults_succeeds hm.laid (hs.setStatus result.actionId .done) ⟨ptr, hptr⟩
      exact ⟨_, actionExecuted_of_consumed hptr (.finish htype hbind)⟩

/-! ### A step that was performed is out of the schedule -/

/-- `id` is neither planned nor pending, nor executed next. -/
def Spent (id : ℤ) (c : Config ω) : Prop :=
  ¬c.world.session.Active id ∧ ∀ w, c ≠ .running (.executeAction id) w

/-- Error or Finish, which reply to the requester. -/
def Ending (id : ℤ) : Prop := id = Step.error.id ∨ id = Step.finish.id

variable {w : World ω} {c : Config ω} {id : ℤ} {out : Onward ω}

theorem not_active_plan {s : Session} {a : ℤ} (hs : ¬s.Active id) (hne : id ≠ a) : ¬(s.plan a).Active id := by
  rintro (h | h)
  · exact hs (.inl ((OrdSet.mem_insert.mp h).resolve_left hne))
  · exact hs (.inr h)

theorem executeAction_spent (hid : Ending id) {a : ℤ} (hcalled : m.Called w.session a)
    (hspent : a = id ∨ ¬w.session.Active id) (hguard : ¬m.TurnsTo w id (.executeAction a))
    (h : m.executeAction w a = .ok out) : Spent id (Config.after out) := by
  cases executeAction_cases h with
  | die =>
    refine ⟨hspent.resolve_left fun heq => ?_, fun _ h => (nomatch h)⟩
    rcases hid with rfl | rfl <;> exact absurd heq (by decide)
  | nothing h =>
    have hinactive : ¬w.session.Active id := hspent.resolve_left fun heq => by
      rcases hid with rfl | rfl <;> exact absurd heq (by decide)
    cases executeNone_cases (hcalled.nothing rfl) h with
    | finish hexec =>
      have hne : id ≠ Step.finish.id := fun heq => hguard ⟨rfl, .inr ⟨heq, hexec⟩⟩
      exact ⟨not_active_plan hinactive hne, fun _ h => hne (by cases h; rfl)⟩
    | error hexec =>
      have hne : id ≠ Step.error.id := fun heq => hguard ⟨rfl, .inl ⟨heq, hexec⟩⟩
      exact ⟨not_active_plan hinactive hne, fun _ h => hne (by cases h; rfl)⟩
  | @action _ ptr _ _ _ w' result hperform =>
    have hflow := ptr.sameFlow_of_perform hperform
    refine ⟨fun hactive => ?_, fun _ h => (nomatch h)⟩
    have hbegun : (m.beginAction w.session a).Active id := by
      unfold Session.Active at hactive
      rwa [show (Config.after (w', some (Call.actionExecuted result))).world = w' from rfl, hflow.nexts,
        hflow.pendings] at hactive
    obtain ⟨hbefore, hne, -⟩ := active_beginAction hbegun
    exact hspent.elim (fun heq => hne heq.symm) fun hinactive => hinactive hbefore
  | absent =>
    refine ⟨fun hactive => ?_, fun _ h => (nomatch h)⟩
    obtain ⟨hbefore, hne, -⟩ := active_beginAction hactive
    exact hspent.elim (fun heq => hne heq.symm) fun hinactive => hinactive hbefore

theorem actionExecuted_spent (hid : Ending id) {result : Result} (hinactive : ¬w.session.Active id)
    (hturns : ¬m.TurnsTo w id (.actionExecuted result)) (hbound : ¬m.BoundTo w id (.actionExecuted result))
    (h : m.actionExecuted w result = .ok out) : Spent id (Config.after out) := by
  obtain ⟨ptr, hptr, hconsumed⟩ := actionExecuted_cases h
  have hkeeps : ∀ {s}, (result.type = .finish ∨ m.Fulfils w result) →
      m.bindResults w.env (w.session.setStatus result.actionId .done) result.actionId = .ok s →
      ¬s.Active id := fun hresult hbind hactive =>
    ((bindResults_reschedules hbind).active hactive).elim hinactive fun hleads => hbound ⟨hresult, hleads⟩
  have herror : (result.type = .error ∨ result.type = .done ∧ ¬m.Fulfils w result) → Step.error.id ≠ id :=
    fun hresult heq => hturns ⟨⟨ptr, hptr⟩, .inl ⟨heq.symm, hresult⟩⟩
  cases hconsumed with
  | broken htype hcheck =>
    refine ⟨hinactive, fun _ h => herror (.inr ⟨htype, fun h => ?_⟩) (by cases h; rfl)⟩
    rw [h.checkOutputs hptr] at hcheck
    cases hcheck
  | error htype => exact ⟨hinactive, fun _ h => herror (.inl htype) (by cases h; rfl)⟩
  | finish htype hbind =>
    refine ⟨hkeeps (.inl htype) hbind, fun _ h => hturns ⟨⟨ptr, hptr⟩, .inr ⟨?_, htype⟩⟩⟩
    cases h
    rfl
  | done htype hcheck hbind hnext =>
    have hinactive' := hkeeps (.inr ⟨htype, by rw [hptr]; exact hcheck⟩) hbind
    obtain ⟨hpromotes, hpicked⟩ := getNext_spec hnext
    have hspent := mt (hpromotes.active_iff id).mp hinactive'
    refine ⟨hspent, fun _ h => hspent (.inl ?_)⟩
    cases h
    exact hpicked.mem_nexts (by rcases hid with rfl | rfl <;> decide)
  | async | wait => exact ⟨hinactive, fun _ h => (nomatch h)⟩

/-! ### The performances of one call -/

/-- The actions performed since `w`, in order. -/
def performedSince (w : World ω) (c : Config ω) : List ℤ := performedIds (c.world.trace.drop w.trace.length)

theorem performedSince_of_append {w : World ω} {c : Config ω} {events : List Event}
    (h : c.world.trace = w.trace ++ events) : performedSince w c = performedIds events := by
  unfold performedSince
  rw [h, List.drop_left]

/-- `c'` follows `c`, and `performed` is what is performed in between. -/
structure Follows (w : World ω) (c c' : Config ω) (performed : List ℤ) : Prop where
  later : w.trace <+: c'.world.trace
  performed : performedSince w c' = performedSince w c ++ performed

theorem follows_of_append {w : World ω} {c c' : Config ω} (hlater : w.trace <+: c.world.trace)
    {events : List Event} (h : c'.world.trace = c.world.trace ++ events) :
    Follows w c c' (performedIds events) := by
  obtain ⟨before, hbefore⟩ := hlater
  rw [← hbefore, List.append_assoc] at h
  refine ⟨h ▸ List.prefix_append _ _, ?_⟩
  rw [performedSince_of_append h, performedSince_of_append hbefore.symm, performedIds_append]

theorem next_of_registered (hm : m.Laid) {w w₁ : World ω} {id : ℤ} (hreg : m.Registered id)
    (hlater : w.trace <+: w₁.trace) : ∃ w₂ result,
      m.system.next (.running (.executeAction id) w₁) = some (.running (.actionExecuted result) w₂) ∧
        Follows w (.running (.executeAction id) w₁) (.running (.actionExecuted result) w₂) [id] := by
  obtain ⟨ptr, hptr⟩ := hreg
  obtain ⟨hdie, hneg⟩ := hm.not_special ⟨ptr, hptr⟩
  obtain ⟨w₂, result, hexec, hperform⟩ := executeAction_of_find? hdie hneg hptr w₁
  have hids := performedIds_perform hm hptr hperform
  obtain ⟨sent, htrace⟩ := ptr.trace_of_perform hperform
  refine ⟨w₂, result, congrArg (fun out => some (Config.ofStep w₁ out)) hexec, ?_⟩
  have hfollows : Follows w (.running (.executeAction id) w₁) (.running (.actionExecuted result) w₂) _ :=
    follows_of_append hlater htrace
  rw [htrace, performedIds_append] at hids
  rwa [List.append_cancel_left hids] at hfollows

theorem follows_of_next (hm : m.Laid) {w : World ω} {c c' : Config ω} (hlater : w.trace <+: c.world.trace)
    (h : m.system.next c = some c') (hnot : ∀ id w₁, c = .running (.executeAction id) w₁ → ¬m.Registered id) :
    Follows w c c' [] := by
  obtain ⟨events, htrace, hheard⟩ := trans_heard hm (.internal h)
  have hfollows := follows_of_append hlater htrace
  cases hheard with
  | unheard hunheard =>
    have hnone : performedIds events = [] :=
      List.filterMap_eq_nil_iff.mpr fun event hmem => (hunheard event hmem).1
    rwa [hnone] at hfollows
  | performed hc _ hptr => exact absurd ⟨_, hptr⟩ (hnot _ _ hc)

theorem goesTo_iff {call : Call} :
    m.GoesTo w call id ↔ ∃ w', m.system.next (.running call w) = some (.running (.executeAction id) w') := by
  constructor
  · rintro ⟨w', h⟩
    exact ⟨w', congrArg (fun out => some (Config.ofStep w out)) h⟩
  · rintro ⟨w', h⟩
    have hstep : Config.ofStep w (m.makeCall w call) = .running (.executeAction id) w' := Option.some.inj h
    refine ⟨w', ?_⟩
    cases hout : m.makeCall w call with
    | error fault =>
      rw [hout] at hstep
      cases hstep
    | ok out =>
      obtain ⟨w₁, _ | next⟩ := out
      · rw [hout] at hstep
        cases hstep
      · rw [hout] at hstep
        cases hstep
        rfl

theorem exists_follows (hm : m.Laid) {c' : Config ω} (hlater : w.trace <+: c.world.trace)
    (h : m.system.next c = some c') : ∃ performed, Follows w c c' performed := by
  obtain ⟨events, htrace, -⟩ := trans_heard hm (.internal h)
  exact ⟨_, follows_of_append hlater htrace⟩

/-- `id` was performed once at most, and if it was it is out of the schedule. -/
structure PerformedOnce (w : World ω) (id : ℤ) (c : Config ω) : Prop where
  count : (performedSince w c).count id ≤ 1
  spent : id ∈ performedSince w c → Spent id c

theorem PerformedOnce.step (hm : m.Laid) {c' : Config ω} (hid : Ending id) (hc : PerformedOnce w id c)
    (hlater : w.trace <+: c.world.trace) (hgrounded : c.Grounded m)
    (hguard : ∀ call w', c = .running call w' → id ∈ performedSince w c →
      ¬m.TurnsTo w' id call ∧ ¬m.BoundTo w' id call)
    (hnext : m.system.next c = some c') : PerformedOnce w id c' := by
  obtain ⟨call, w₁, rfl, hcases⟩ := next_cases hnext
  have hlater₁ : w.trace <+: w₁.trace := hlater
  by_cases hexec : ∃ a, call = .executeAction a ∧ m.Registered a
  · -- an action is performed: `id` itself, if it was not, or another one
    obtain ⟨a, rfl, hreg⟩ := hexec
    obtain ⟨w₂, result, hnext', hfollows⟩ := next_of_registered hm hreg hlater₁
    cases hnext.symm.trans hnext'
    obtain ⟨out, hout, hafter⟩ | ⟨_, hcrash⟩ := hcases
    · refine ⟨?_, fun hmem => ?_⟩
      · rw [hfollows.performed, List.count_append]
        by_cases heq : a = id
        · subst heq
          have hzero := List.count_eq_zero.mpr fun hmem => (hc.spent hmem).2 w₁ rfl
          rw [hzero, List.count_singleton_self]
        · rw [List.count_singleton, if_neg (by simpa using heq)]
          exact hc.count
      · rw [hfollows.performed, List.mem_append, List.mem_singleton] at hmem
        rw [hafter]
        exact executeAction_spent hid hgrounded (hmem.symm.imp Eq.symm fun hmem => (hc.spent hmem).1)
          (fun h => (hm.not_special hreg).2 h.1) hout
    · cases hcrash
  · have hfollows := follows_of_next hm hlater hnext fun a _ h ha => by
      cases h
      exact hexec ⟨a, rfl, ha⟩
    refine ⟨by rw [hfollows.performed, List.append_nil]; exact hc.count, fun hmem => ?_⟩
    rw [hfollows.performed, List.append_nil] at hmem
    obtain ⟨hturns, hbound⟩ := hguard call w₁ rfl hmem
    obtain ⟨out, hout, rfl⟩ | ⟨_, rfl⟩ := hcases
    · cases call with
      | executeAction a => exact executeAction_spent hid hgrounded (.inr (hc.spent hmem).1) hturns hout
      | actionExecuted result => exact actionExecuted_spent hid (hc.spent hmem).1 hturns hbound hout
    · exact ⟨(hc.spent hmem).1, fun _ h => (nomatch h)⟩

/-- The calls from `c` on perform the step at most once, if after it was performed nothing leads back. -/
theorem performedOnce_advance (hm : m.Laid) (hid : Ending id) (hlater : w.trace <+: c.world.trace)
    (hstart : performedSince w c = []) (hgrounded : ∀ n, (m.system.advance n c).Grounded m)
    (hguard : ∀ n call w', m.system.advance n c = .running call w' →
      id ∈ performedSince w (m.system.advance n c) → ¬m.TurnsTo w' id call ∧ ¬m.BoundTo w' id call) (n : ℕ) :
    PerformedOnce w id (m.system.advance n c) := by
  induction n with
  | zero =>
    rw [System.advance_zero]
    exact ⟨by simp [hstart], by simp [hstart]⟩
  | succ n ih =>
    rw [System.advance_add]
    cases hnext : m.system.next (m.system.advance n c) with
    | none =>
      rw [System.advance_of_settled hnext]
      exact ih
    | some c' =>
      rw [System.advance_succ_of_next hnext]
      exact ih.step hm hid (hlater.trans (advance_trace n c)) (hgrounded n) (hguard n) hnext

/-- A call that goes on with an action that was performed has it performed again. -/
theorem count_of_goesTo (hm : m.Laid) (hreg : m.Registered id) {call : Call} {w' : World ω}
    (hlater : w.trace <+: w'.trace) (hmem : id ∈ performedSince w (.running call w'))
    (hgoes : m.GoesTo w' call id) :
    2 ≤ (performedSince w (m.system.advance 2 (.running call w'))).count id := by
  obtain ⟨w₁, hnext₁⟩ := goesTo_iff.mp hgoes
  obtain ⟨performed, hfollows₁⟩ := exists_follows hm hlater hnext₁
  have hlater₁ : w.trace <+: w₁.trace := hfollows₁.later
  obtain ⟨w₂, result, hnext₂, hfollows₂⟩ := next_of_registered hm hreg hlater₁
  have hpos := List.count_pos_iff.mpr hmem
  rw [System.advance_succ_of_next hnext₁, System.advance_succ_of_next hnext₂, System.advance_zero,
    hfollows₂.performed, hfollows₁.performed, List.count_append, List.count_append, List.count_singleton_self]
  omega

/-! ### Error and Finish -/

/-- The call that began in `w` has performed Error, and a branch leads to Error at once; or the same of
Finish. -/
def TurnsBack (m : StateMachine ω) (w : World ω) : Config ω → Prop
  | .running call w' => ∃ id ∈ [Step.error.id, Step.finish.id],
      id ∈ performedSince w (.running call w') ∧ m.TurnsTo w' id call
  | .returned _ | .crashed _ _ => False

/-- The call that began in `w` has performed Error, and an action bound to Error is done; or the same of
Finish. -/
def BoundBack (m : StateMachine ω) (w : World ω) : Config ω → Prop
  | .running call w' => ∃ id ∈ [Step.error.id, Step.finish.id],
      id ∈ performedSince w (.running call w') ∧ m.BoundTo w' id call
  | .returned _ | .crashed _ _ => False

def EndsOnce (w : World ω) (c : Config ω) : Prop :=
  (performedSince w c).count Step.error.id ≤ 1 ∧ (performedSince w c).count Step.finish.id ≤ 1

instance : DecidablePred m.Registered := fun id =>
  decidable_of_iff ((m.actions.find? id).isSome = true) Option.isSome_iff_exists

instance (a b : ℤ) : Decidable (m.Leads a b) :=
  inferInstanceAs (Decidable (∃ output ∈ m.bindings a, output.toActionId = b))

instance (executable : Except Fault Bool) (b : Bool) : Decidable (executable = .ok b) :=
  match executable with
  | .ok a => decidable_of_iff (a = b) ⟨congrArg _, fun h => by cases h; rfl⟩
  | .error _ => isFalse (nomatch ·)

instance (w : World ω) (id : ℤ) : (call : Call) → Decidable (m.TurnsTo w id call)
  | .executeAction _ => inferInstanceAs (Decidable (_ ∧ (_ ∧ _ ∨ _ ∧ _)))
  | .actionExecuted _ => inferInstanceAs (Decidable (_ ∧ (_ ∧ (_ ∨ _ ∧ _) ∨ _ ∧ _)))

instance (w : World ω) (id : ℤ) : (call : Call) → Decidable (m.BoundTo w id call)
  | .executeAction _ => inferInstanceAs (Decidable False)
  | .actionExecuted _ => inferInstanceAs (Decidable ((_ ∨ _) ∧ _))

instance (w : World ω) : DecidablePred (m.TurnsBack w)
  | .running _ _ => inferInstanceAs (Decidable (∃ id ∈ [Step.error.id, Step.finish.id], _ ∧ _))
  | .returned _ | .crashed _ _ => inferInstanceAs (Decidable False)

instance (w : World ω) : DecidablePred (m.BoundBack w)
  | .running _ _ => inferInstanceAs (Decidable (∃ id ∈ [Step.error.id, Step.finish.id], _ ∧ _))
  | .returned _ | .crashed _ _ => inferInstanceAs (Decidable False)

theorem next_statused {c c' : Config ω} (hgrounded : c.Grounded m) (hc : c.Statused m)
    (hnext : m.system.next c = some c') : c'.Statused m := by
  obtain ⟨call, w, rfl, ⟨out, hout, rfl⟩ | ⟨_, rfl⟩⟩ := next_cases hnext
  · cases call with
    | executeAction id => exact executeAction_statused hgrounded hc hout
    | actionExecuted result => exact actionExecuted_statused hc hout
  · trivial

theorem advance_statused {c : Config ω} (hgrounded : ∀ n, (m.system.advance n c).Grounded m)
    (hc : c.Statused m) (n : ℕ) : (m.system.advance n c).Statused m := by
  induction n with
  | zero => exact hc
  | succ n ih =>
    rw [System.advance_add]
    cases hnext : m.system.next (m.system.advance n c) with
    | none => rwa [System.advance_of_settled hnext]
    | some c' =>
      rw [System.advance_succ_of_next hnext]
      exact next_statused (hgrounded n) ih hnext

end StateMachine

namespace Sample

open StateMachine

/-- A workflow whose own Error action fails, as its ordinary action does. -/
def relapsing : StateMachine Unit :=
  (single .error).addAction Step.error.id (returning .error) [leadTo Step.cleanup.id]

/-- An ordinary action fails, and the author's own Error action does not. -/
def recovering : StateMachine Unit :=
  (single .error).addAction Step.error.id (returning .done) [leadTo Step.cleanup.id]

end Sample

end LibWorkflow
