import LibWorkflow.Flow.Graph

/-!
# Deliveries

How contexts get to the inputs of a session. Inputs are written in two places only: the first call stores the
contexts its starters name (`prepared`), and an accepted completion stores the outputs its bindings name
(`deliverInputs`). Every other call leaves them as they are (`executeAction_inputs`, `receive_inputs`).

What is said about the deliveries of the past is said with a history, which a run keeps beside the session;
`history_induction` is the induction rule for such runs.
-/

namespace LibWorkflow

open Ordered Fallible Reactive

namespace StateMachine

variable {ω : Type} {m : StateMachine ω}

/-! ### What bindings deliver -/

/-- The input a binding of `id` sets, if its target is registered. -/
def deliverInput (m : StateMachine ω) (id : ℤ) (s : Session) (binding : OutputBinding) : Session :=
  if m.actions.contains binding.toActionId then
    s.setInput binding.toActionId binding.toActionInput (s.getOutput id binding.fromActionOutput)
  else s

/-- The inputs the bindings of `id` set, in order. -/
def deliverInputs (m : StateMachine ω) (s : Session) (id : ℤ) : Session :=
  (m.bindings id).foldl (m.deliverInput id) s

theorem deliverInput_of_registered {binding : OutputBinding} (h : m.Registered binding.toActionId) (id : ℤ)
    (s : Session) : m.deliverInput id s binding =
      s.setInput binding.toActionId binding.toActionInput (s.getOutput id binding.fromActionOutput) :=
  if_pos (OrdMap.contains_iff.mpr h)

theorem deliverInput_of_absent {binding : OutputBinding} (h : ¬m.Registered binding.toActionId) (id : ℤ)
    (s : Session) : m.deliverInput id s binding = s := if_neg (OrdMap.contains_iff.not.mpr h)

theorem deliverInput_outputs (id : ℤ) (s : Session) (binding : OutputBinding) :
    (m.deliverInput id s binding).outputs = s.outputs := by
  unfold deliverInput
  split_ifs <;> rfl

/-- Two sessions with the same inputs and outputs. -/
structure SameData (s s' : Session) : Prop where
  inputs : s.inputs = s'.inputs
  outputs : s.outputs = s'.outputs

theorem SameData.getOutput {s s' : Session} (h : SameData s s') (id : ℤ) (name : String) :
    s.getOutput id name = s'.getOutput id name := by
  unfold Session.getOutput
  rw [h.outputs]

theorem SameData.setInput {s s' : Session} (h : SameData s s') (id : ℤ) (name : String) (ctx : Option Context) :
    SameData (s.setInput id name ctx) (s'.setInput id name ctx) := by
  refine ⟨?_, h.outputs⟩
  unfold Session.setInput
  rw [h.inputs]

theorem Bound.sameData (hm : m.Laid) {env : ω} {id : ℤ} {binding : OutputBinding} {s s' d : Session}
    (h : m.Bound env id binding s s') (hs : SameData s d) : SameData s' (m.deliverInput id d binding) := by
  cases h with
  | @target ptr _ hptr hplaced =>
    rw [deliverInput_of_registered ⟨ptr, hptr⟩, ← hs.getOutput]
    have hset := hs.setInput binding.toActionId binding.toActionInput (s.getOutput id binding.fromActionOutput)
    exact ⟨hplaced.inputs.trans hset.inputs, hplaced.reschedules.outputs.trans hset.outputs⟩
  | die hdie =>
    have hreg : ¬m.Registered binding.toActionId := hm.not_registered (.inr (.inl hdie))
    rw [deliverInput_of_absent hreg]
    exact ⟨hs.inputs, hs.outputs⟩
  | absent _ hreg =>
    rw [deliverInput_of_absent hreg]
    exact hs

theorem bindResults_inputs (hm : m.Laid) {env : ω} {s s' d : Session} {id : ℤ}
    (h : m.bindResults env s id = .ok s') (hs : SameData s d) : s'.inputs = (m.deliverInputs d id).inputs :=
  (foldlM_simulates h hs fun _ _ _ _ _ hc hstep => (bindResult_cases hstep).sameData hm hc).inputs

/-- Where all bindings into an input deliver the same, the input holds it. -/
theorem getInput_deliverInputs {s : Session} {id target : ℤ} {input : String} {ctx : Option Context}
    (hreg : m.Registered target)
    (hctx : ∀ output ∈ m.bindings id, output.toActionId = target → output.toActionInput = input →
      s.getOutput id output.fromActionOutput = ctx) :
    (m.deliverInputs s id).getInput target input =
      if ∃ output ∈ m.bindings id, output.toActionId = target ∧ output.toActionInput = input then ctx
      else s.getInput target input := by
  unfold deliverInputs
  generalize m.bindings id = outputs at hctx ⊢
  induction outputs generalizing s with
  | nil => simp
  | cons binding rest ih =>
    rw [List.foldl_cons]
    have hrest : ∀ output ∈ rest, output.toActionId = target → output.toActionInput = input →
        (m.deliverInput id s binding).getOutput id output.fromActionOutput = ctx := by
      intro output hmem hto hinput
      unfold Session.getOutput
      rw [deliverInput_outputs]
      exact hctx output (.tail _ hmem) hto hinput
    rw [ih hrest]
    simp only [List.mem_cons, exists_eq_or_imp]
    by_cases hlater : ∃ output ∈ rest, output.toActionId = target ∧ output.toActionInput = input
    · rw [if_pos hlater, if_pos (.inr hlater)]
    rw [if_neg hlater]
    by_cases hto : binding.toActionId = target ∧ binding.toActionInput = input
    · rw [if_pos (.inl hto), deliverInput_of_registered (hto.1 ▸ hreg), Session.getInput_setInput,
        if_pos ⟨hto.1.symm, hto.2.symm⟩]
      exact hctx binding (.head _) hto.1 hto.2
    · rw [if_neg (not_or.mpr ⟨hto, hlater⟩)]
      unfold deliverInput
      split_ifs
      · rw [Session.getInput_setInput, if_neg fun h => hto ⟨h.1.symm, h.2.symm⟩]
      · rfl

/-! ### Completions -/

/-- The result a transition consumes, and the world it does so in. -/
def completion? : Config ω → Option Message → Option (Result × World ω)
  | .running (.actionExecuted result) w, none => some (result, w)
  | .returned w, some (.asyncFinished result) => some (result, w)
  | _, _ => none

/-- The result is a Done that meets the contract of the action, or a Finish: its outputs are bound. -/
def Completes (m : StateMachine ω) (w : World ω) (result : Result) : Prop :=
  m.Fulfils w result ∨ result.type = .finish

instance (w : World ω) (result : Result) : Decidable (m.Completes w result) :=
  inferInstanceAs (Decidable (_ ∨ _))

/-! ### What the calls leave of the inputs -/

theorem beginAction_inputs (s : Session) (id : ℤ) : (m.beginAction s id).inputs = s.inputs := by
  obtain ⟨_, _, _, heq⟩ := m.exists_beginAction_eq s id
  rw [heq]

theorem executeAction_inputs {w : World ω} {id : ℤ} (hcalled : m.Called w.session id) {out : Onward ω}
    (h : m.executeAction w id = .ok out) : out.1.session.inputs = w.session.inputs := by
  cases executeAction_cases h with
  | die => rfl
  | nothing h => cases executeNone_cases (hcalled.nothing rfl) h <;> rfl
  | @action _ ptr _ _ _ w' _ hperform =>
    exact (ptr.sameFlow_of_perform hperform).inputs.trans (beginAction_inputs w.session id)
  | absent => exact beginAction_inputs w.session id

/-- A completion sets the inputs it delivers; another result sets none. -/
theorem actionExecuted_inputs (hm : m.Laid) {w : World ω} {result : Result} {out : Onward ω}
    (h : m.actionExecuted w result = .ok out) :
    out.1.session.inputs = if m.Completes w result then (m.deliverInputs w.session result.actionId).inputs
      else w.session.inputs := by
  obtain ⟨ptr, hptr, hconsumed⟩ := actionExecuted_cases h
  have hcheck : m.Fulfils w result → ptr.checkOutputs w.env w.session = true := fun h => h.checkOutputs hptr
  have hother : result.type ≠ .done → result.type ≠ .finish → ¬m.Completes w result :=
    fun hdone hfinish h => h.elim (fun h => hdone h.1) hfinish
  have hbound : ∀ {s}, m.bindResults w.env (w.session.setStatus result.actionId .done) result.actionId = .ok s →
      s.inputs = (m.deliverInputs w.session result.actionId).inputs :=
    fun hbind => bindResults_inputs hm hbind ⟨rfl, rfl⟩
  cases hconsumed with
  | broken htype hbroken =>
    rw [if_neg]
    · rfl
    rintro (h | h)
    · rw [hcheck h] at hbroken
      cases hbroken
    · rw [htype] at h
      cases h
  | done htype hfulfilled hbind hnext =>
    have hall : (m.actions.find? result.actionId).all (·.checkOutputs w.env w.session) = true := by
      rw [hptr]
      exact hfulfilled
    rw [if_pos (.inl ⟨htype, hall⟩)]
    exact (getNext_spec hnext).1.inputs.trans (hbound hbind)
  | async htype => rw [if_neg (hother (by simp [htype]) (by simp [htype]))]; rfl
  | finish htype hbind =>
    rw [if_pos (.inr htype)]
    exact hbound hbind
  | wait htype => rw [if_neg (hother (by simp [htype]) (by simp [htype]))]; rfl
  | error htype => rw [if_neg (hother (by simp [htype]) (by simp [htype]))]; rfl

theorem firstCall_inputs {w : World ω} {out : Onward ω} (h : m.firstCall w = .ok out) :
    out.1.session.inputs = (m.prepared w.session).inputs := by
  obtain ⟨complete, s, hstarters, hcases⟩ := firstCall_cases h
  rcases hcases with ⟨-, next, s', hnext, rfl⟩ | ⟨-, rfl⟩
  · exact (getNext_spec hnext).1.inputs.trans (scheduleStarters_inputs hstarters)
  · exact scheduleStarters_inputs hstarters

theorem receive_inputs (hm : m.Laid) {w : World ω} {request : Request} {out : Onward ω}
    (h : m.receive w (.request request) = .ok out) :
    out.1.session.inputs = if w.session.status.isEmpty then (m.prepared (w.session.pushRequest request)).inputs
      else w.session.inputs := by
  cases receive_cases hm h with
  | firstCall hfresh h =>
    rw [if_pos hfresh]
    exact firstCall_inputs h
  | @answered _ ptr _ _ hstarted _ _ _ hreply =>
    rw [hstarted]
    exact (ptr.sameFlow_of_replyReceived hreply).inputs
  | reset hstarted =>
    rw [hstarted]
    rfl
  | ignored hstarted =>
    rw [hstarted]
    rfl

/-! ### Runs with a history -/

/-- The induction rule for runs with a history. -/
theorem history_induction (hm : m.Laid) {η : Type} {record : Config ω → Option Message → η → η}
    {guard : Config ω × η → Option Message → Prop} {I : Config ω → η → Prop} {request : Request} {env : ω}
    {h₀ : η} {x : Config ω × η} (hrun : (m.system.observed record).Run guard (opened request env, h₀) x)
    (hstart : I (opened request env) h₀)
    (hexecute : ∀ id w out h, m.Called w.session id → I (.running (.executeAction id) w) h →
      guard (.running (.executeAction id) w, h) none → m.executeAction w id = .ok out →
      I (.after out) (record (.running (.executeAction id) w) none h))
    (hconsume : ∀ result w out h, m.Grounded w.session → I (.running (.actionExecuted result) w) h →
      guard (.running (.actionExecuted result) w, h) none → m.actionExecuted w result = .ok out →
      I (.after out) (record (.running (.actionExecuted result) w) none h))
    (hmessage : ∀ message w out h, m.system.Reachable (opened request env) (.returned w) → I (.returned w) h →
      guard (.returned w, h) (some message) → m.receive w message = .ok out →
      I (.after out) (record (.returned w) (some message) h))
    (hcallFault : ∀ call w fault h, I (.running call w) h → m.makeCall w call = .error fault →
      I (.crashed fault w) (record (.running call w) none h))
    (hmessageFault : ∀ message w fault h, I (.returned w) h → m.receive w message = .error fault →
      I (.crashed fault w) (record (.returned w) (some message) h)) : I x.1 x.2 := by
  induction hrun with
  | start => exact hstart
  | @step y z label hy hguard htrans ih =>
    have hreach := hy.source
    have hy := reachable_grounded hm hreach
    obtain ⟨c, h⟩ := y
    obtain ⟨c', h'⟩ := z
    obtain ⟨htrans, hh⟩ := System.observed_trans.mp htrans
    dsimp only at htrans hh ih hy ⊢
    subst hh
    cases htrans with
    | internal hnext =>
      rcases c with ⟨id | result, w⟩ | _ | _
      · cases hnext
        cases hout : m.makeCall w (.executeAction id) with
        | ok out => exact hexecute id w out h hy ih hguard hout
        | error fault => exact hcallFault _ w fault h ih hout
      · cases hnext
        cases hout : m.makeCall w (.actionExecuted result) with
        | ok out => exact hconsume result w out h hy ih hguard hout
        | error fault => exact hcallFault _ w fault h ih hout
      all_goals cases hnext
    | @input _ message haccept =>
      rcases c with _ | w | _
      case returned =>
        cases haccept
        cases hout : m.receive w message with
        | ok out => exact hmessage message w out h hreach ih hguard hout
        | error fault => exact hmessageFault message w fault h ih hout
      all_goals cases haccept

end StateMachine

end LibWorkflow
