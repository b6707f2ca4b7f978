import LibWorkflow.Flow.Equations
import LibWorkflow.Flow.Skips
import Mathlib.Tactic.IntervalCases

/-!
# What a workflow computes

A workflow of functions computes what it says: its first call performs each linked action once, whatever the
numbers of the actions make of the order, and is answered by the one reply of Finish, which carries the
solution of the equations (`computes_solution`).
-/

namespace LibWorkflow

open Ordered Fallible Dataflow

def StateMachine.DoneNode (s : Session) (id : ℤ) : Prop := 0 ≤ id ∧ s.status.find? id = some .done

namespace StateMachine

variable {ω : Type} {m : StateMachine ω}

/-! ### Performing a function -/

theorem IsFunction.perform (hm : m.Laid) {id : ℤ} {ptr : ActionPtr ω} (hid : 0 ≤ id)
    (hptr : m.actions.find? id = some ptr) {accepts : Contexts → Prop} {function : Contexts → Contexts}
    (hfunction : IsFunction ptr accepts function) {w w' : World ω} (haccepted : accepts (w.session.getInput id))
    (hfresh : ∀ name, w.session.getOutput id name = none) {expected : List String} {result : Result}
    (hperform : ptr.perform expected w = (w', result)) :
    result.type = .done ∧ (∀ name, w'.session.getOutput id name = function (w.session.getInput id) name) ∧
      (∀ a, a ≠ id → w'.session.getOutput a = w.session.getOutput a) ∧
      ptr.checkOutputs w'.env w'.session = true := by
  have hown : ptr.getActionId = id := hm.own hptr
  have hinputs : w'.session.getInput id = w.session.getInput id := by
    unfold Session.getInput
    rw [(ptr.sameFlow_of_perform hperform).inputs]
  have hwrapper : ptr.wrapper = none := by
    rw [hm.wrapper hptr]
    unfold wrapperOf
    rw [if_neg, if_neg, if_neg, if_neg] <;> rintro rfl <;> exact absurd hid (by decide)
  have hcode : ptr.perform expected w =
      ((w.emit (.performed ptr.getActionId w.session)).applyOutcome ptr.action
        (ptr.action.perform ptr.getActionId w.env w.session),
        (ptr.action.perform ptr.getActionId w.env w.session).result) := by
    unfold ActionPtr.perform ActionPtr.wrapPerform
    rw [hwrapper]
    rfl
  rw [hcode] at hperform
  cases hperform
  subst hown
  have houtputs := hfunction.outputs w.env w.session haccepted hfresh
  refine ⟨hfunction.done w.env w.session haccepted, houtputs, fun a ha => funext fun name => ?_, ?_⟩
  · exact getOutput_setOutputs ha ptr.action.outputs _ w.session name
  · refine hfunction.checkOutputs _ _ (hinputs ▸ haccepted) fun name => ?_
    rw [hinputs]
    exact houtputs name

/-! ### The invariant -/

/-- No two bindings of different outputs go into the input, nor a binding and a starter. -/
def Single (m : StateMachine ω) (id : ℤ) (name : String) : Prop :=
  ∀ a, ∀ binding ∈ m.bindings a, binding.toActionId = id → binding.toActionInput = name → m.SoleBinding a binding

theorem SoleBinding.single {a : ℤ} {binding : OutputBinding} (h : m.SoleBinding a binding) :
    m.Single binding.toActionId binding.toActionInput := by
  intro b other hmem hto hinput
  refine ⟨hmem, fun c output hc houtput hname => ?_, fun input hinput' haction hname => ?_⟩
  · obtain ⟨rfl, hsame⟩ := h.bindings c output hc (houtput.trans hto) (hname.trans hinput)
    obtain ⟨rfl, hother⟩ := h.bindings b other hmem hto hinput
    exact ⟨rfl, hsame.trans hother.symm⟩
  · exact h.starters input hinput' (haction.trans hto) (hname.trans hinput)

theorem SoleBinding.inputsOf (hm : m.Straight) {a : ℤ} {binding : OutputBinding} (h : m.SoleBinding a binding)
    (request : Request) (outputs : ℤ → Contexts) :
    m.inputsOf request outputs binding.toActionId binding.toActionInput = outputs a binding.fromActionOutput := by
  unfold StateMachine.inputsOf
  cases hfeeder : m.feeder binding.toActionId binding.toActionInput with
  | none => exact absurd ⟨rfl, rfl⟩ (feeder_eq_none hfeeder h.mem)
  | some other =>
    obtain ⟨⟨b, hmem⟩, hto, hinput⟩ := feeder_eq_some hfeeder
    obtain ⟨rfl, houtput⟩ := h.bindings b other hmem hto hinput
    dsimp only
    rw [hm.fromActionId hmem, houtput]

/-- What was computed is right, and so is what it brought to the inputs, but for those of the bindings `left`,
which are still to be followed; what is active is ready. -/
structure Consistent (hm : m.Straight) (request : Request) (function : ℤ → Contexts → Contexts)
    (left : List OutputBinding) (s : Session) : Prop where
  computed : (m.equations hm request function).Evaluates (DoneNode s) s.getOutput
  fresh : ∀ a, 0 ≤ a → ¬DoneNode s a → ∀ name, s.getOutput a name = none
  inputs : ∀ id name, m.Registered id → m.Single id name →
    (∀ binding ∈ left, ¬(binding.toActionId = id ∧ binding.toActionInput = name)) →
      s.getInput id name = m.inputsOf request s.getOutput id name
  ready : ∀ a, ActiveNode s a → m.Linked a ∧ (∀ p, m.Leads p a → DoneNode s p) ∧ ¬DoneNode s a

/-- The workflow is evaluated: what is ready is active, or about to be. -/
structure Evaluating (hm : m.Straight) (request : Request) (function : ℤ → Contexts → Contexts)
    (left : List OutputBinding) (s : Session) : Prop extends m.Consistent hm request function left s where
  waiting : ∀ a, m.Linked a → (∀ p, m.Leads p a → DoneNode s p) → ¬DoneNode s a →
    s.Active a ∨ ∃ binding ∈ left, binding.toActionId = a
  targets : ∀ binding ∈ left, ¬DoneNode s binding.toActionId

variable {hm : m.Straight} {request : Request} {function : ℤ → Contexts → Contexts}
  {accepts : ℤ → Contexts → Prop} {outputs : ℤ → Contexts} {left : List OutputBinding} {s s' : Session}

/-- What a ready action reads is what the solution brings it. -/
theorem Consistent.inputsOf (hacyclic : m.Acyclic) (h : m.Consistent hm request function left s)
    (hsolution : (m.equations hm request function).Solution outputs) {a : ℤ}
    (hpred : ∀ p, m.Leads p a → DoneNode s p) :
    m.inputsOf request s.getOutput a = m.inputsOf request outputs a :=
  hm.inputsOf_congr fun p hp => h.computed.eq_solution hacyclic.wellFounded_edge hsolution (hpred p hp)

theorem Functional.single (hf : m.Functional accepts function) {id : ℤ} (hid : 0 ≤ id) (name : String) :
    m.Single id name := fun a binding hmem hto _ => hf.wired a binding hmem (hto.symm ▸ hid)

theorem Consistent.done_of_accepts (hf : m.Functional accepts function)
    (h : m.Consistent hm request function left s) {a : ℤ} (ha : 0 ≤ a) (hreg : m.Registered a)
    (hleft : ∀ binding ∈ left, ∃ x, DoneNode s x ∧ binding ∈ m.bindings x) {inputs : Contexts}
    (hinputs : ∀ name, (∀ binding ∈ left, ¬(binding.toActionId = a ∧ binding.toActionInput = name)) →
      inputs name = s.getInput a name)
    (haccepts : accepts a inputs) : ∀ p, m.Leads p a → DoneNode s p := by
  rintro p ⟨binding, hmem, rfl⟩
  by_contra hnot
  have hsole := hf.wired p binding hmem ha
  have hother : ∀ other ∈ left,
      ¬(other.toActionId = binding.toActionId ∧ other.toActionInput = binding.toActionInput) := by
    rintro other hother ⟨hto, hinput⟩
    obtain ⟨x, hx, hmem⟩ := hleft other hother
    obtain ⟨rfl, -⟩ := hsole.bindings x other hmem hto hinput
    exact hnot hx
  have hpos : 0 ≤ p := (hm.edge_of_leads ha ⟨binding, hmem, rfl⟩).1
  have hnone : inputs binding.toActionInput = none := by
    rw [hinputs _ hother, h.inputs _ _ hreg hsole.single hother, hsole.inputsOf hm]
    exact h.fresh p hpos hnot _
  exact hf.firm p binding hmem ha inputs haccepts hnone

/-! ### One binding -/

theorem Reschedules.doneNode_iff {id : ℤ} (h : m.Reschedules (· = id) s s') (hid : ¬DoneNode s id) (a : ℤ) :
    DoneNode s' a ↔ DoneNode s a := by
  refine and_congr_right fun ha => ⟨fun hst => h.status_of_started hst (by simp [ExecutionStatus.NotStarted]), ?_⟩
  intro hst
  rcases h.status a with heq | ⟨rfl, -⟩
  · exact heq.trans hst
  · exact absurd ⟨ha, hst⟩ hid

theorem Reschedules.getOutput {ids : ℤ → Prop} (h : m.Reschedules ids s s') : s'.getOutput = s.getOutput := by
  unfold Session.getOutput
  rw [h.outputs]

theorem Bound.getInput {env : ω} {x : ℤ} {binding : OutputBinding} (h : m.Bound env x binding s s') {id : ℤ}
    (hreg : m.Registered id) (hdie : binding.toActionId ≠ Step.die.id) (name : String) : s'.getInput id name =
      if id = binding.toActionId ∧ name = binding.toActionInput then s.getOutput x binding.fromActionOutput
      else s.getInput id name := by
  cases h with
  | target _ hplaced =>
    rw [← Session.getInput_setInput]
    unfold Session.getInput
    rw [hplaced.inputs]
  | die heq => exact absurd heq hdie
  | absent _ hnot =>
    rw [if_neg]
    rintro ⟨rfl, -⟩
    exact hnot hreg

theorem Consistent.ready_target (hf : m.Functional accepts function) {x : ℤ} {env : ω} {binding : OutputBinding}
    (h : m.Consistent hm request function (binding :: left) s)
    (hleft : ∀ other ∈ binding :: left, other ∈ m.bindings x) (hx : DoneNode s x) {ptr : ActionPtr ω}
    (hptr : m.actions.find? binding.toActionId = some ptr) (hpos : 0 ≤ binding.toActionId)
    (hplaced : m.Placed env (s.setInput binding.toActionId binding.toActionInput
      (s.getOutput x binding.fromActionOutput)) binding.toActionId ptr s') (hactive : s'.Active binding.toActionId) :
    ∀ p, m.Leads p binding.toActionId → DoneNode s p := by
  have hlaid := hm.ordinary.initialised.laid
  have hlinked : m.Linked binding.toActionId :=
    ⟨hpos, ⟨ptr, hptr⟩, .inr ⟨x, binding, hleft binding (.head _), rfl⟩⟩
  have hown : ptr.getActionId = binding.toActionId := hlaid.own hptr
  have haction := hf.actions _ ptr hlinked hptr
  have hdone : ∀ env', ptr.checkInputs env' (s.setInput binding.toActionId binding.toActionInput
      (s.getOutput x binding.fromActionOutput)) = true → ∀ p, m.Leads p binding.toActionId → DoneNode s p := by
    intro env' hcheck
    rw [haction.checkInputs, hown] at hcheck
    refine h.done_of_accepts hf hpos ⟨ptr, hptr⟩ (fun other hother => ⟨x, hx, hleft other hother⟩)
      (fun name hother => ?_) hcheck
    rw [Session.getInput_setInput, if_neg fun heq => hother binding (.head _) ⟨rfl, heq.2.symm⟩]
  cases hplaced with
  | skipped => exact absurd hactive (not_active_unschedule _ _ _)
  | unplanned => exact absurd hactive (not_active_unschedule _ _ _)
  | planned _ hexec => exact hdone env ((canExecuteAction_eq_true hlaid).mp hexec).1
  | pending _ _ hpend => exact hdone env hpend

/-- The target of the last binding that goes to it is active if its predecessors are done. -/
theorem Evaluating.active_target (hf : m.Functional accepts function) (hacyclic : m.Acyclic)
    (hsolution : (m.equations hm request function).Solution outputs) (hflowing : m.Flowing request accepts outputs)
    {x : ℤ} {env : ω} {binding : OutputBinding} (h : m.Evaluating hm request function (binding :: left) s)
    (hmem : binding ∈ m.bindings x) (hlast : ∀ other ∈ left, other.toActionId ≠ binding.toActionId)
    (hlinked : m.Linked binding.toActionId) (hpred : ∀ p, m.Leads p binding.toActionId → DoneNode s p)
    {ptr : ActionPtr ω} (hptr : m.actions.find? binding.toActionId = some ptr)
    (hplaced : m.Placed env (s.setInput binding.toActionId binding.toActionInput
      (s.getOutput x binding.fromActionOutput)) binding.toActionId ptr s') : s'.Active binding.toActionId := by
  have hlaid := hm.ordinary.initialised.laid
  have hown : ptr.getActionId = binding.toActionId := hlaid.own hptr
  have haction := hf.actions _ ptr hlinked hptr
  have hinputs : (s.setInput binding.toActionId binding.toActionInput
      (s.getOutput x binding.fromActionOutput)).getInput binding.toActionId =
        m.inputsOf request outputs binding.toActionId := by
    rw [← h.inputsOf hacyclic hsolution hpred]
    funext name
    rw [Session.getInput_setInput]
    split_ifs with hname
    · rw [hname.2, (hf.wired x binding hmem hlinked.1).inputsOf hm]
    · refine h.inputs _ name hlinked.2.1 (hf.single hlinked.1 name) fun other hother heq => ?_
      rcases List.mem_cons.mp hother with rfl | hother
      · exact hname ⟨rfl, heq.2.symm⟩
      · exact hlast other hother heq.1
  have hcheck : ∀ env', ptr.checkInputs env' (s.setInput binding.toActionId binding.toActionInput
      (s.getOutput x binding.fromActionOutput)) = true := fun env' => by
    rw [haction.checkInputs, hown, hinputs]
    exact hflowing.accepted _ hlinked
  cases hplaced with
  | skipped hskip =>
    obtain ⟨name, ctx, hinput, hctx⟩ := Session.hasSkipInput_iff.mp hskip
    have hnot := hflowing.unskipped _ name hlinked
    rw [← hinputs, hinput, Option.all_some, hctx] at hnot
    cases hnot
  | planned => exact .inl (OrdSet.mem_insert.mpr (.inl rfl))
  | pending => exact .inr (OrdSet.mem_insert.mpr (.inl rfl))
  | unplanned _ _ hpend => exact absurd ((hcheck env).symm.trans hpend) (by decide)

theorem Bound.evaluating (hf : m.Functional accepts function) (hacyclic : m.Acyclic)
    (hsolution : (m.equations hm request function).Solution outputs) (hflowing : m.Flowing request accepts outputs)
    {x : ℤ} {env : ω} {binding : OutputBinding} (hbound : m.Bound env x binding s s')
    (h : m.Evaluating hm request function (binding :: left) s)
    (hleft : ∀ other ∈ binding :: left, other ∈ m.bindings x) (hx : DoneNode s x) :
    m.Evaluating hm request function left s' := by
  have hmem := hleft binding (.head _)
  have hresched := hbound.reschedules
  have hdone := hresched.doneNode_iff (h.targets binding (.head _))
  have houtputs := hresched.getOutput
  have hdie : binding.toActionId ≠ Step.die.id := by
    rcases hm.bindings x binding.toActionId hx.1 ⟨binding, hmem, rfl⟩ with hpos | heq
    · exact fun heq => absurd (heq ▸ hpos) (by decide)
    · exact fun heq' => absurd (heq.symm.trans heq') (by decide)
  refine ⟨⟨?_, fun a ha hnot name => ?_, fun id name hreg hsingle hother => ?_, fun a ha => ?_⟩,
    fun a ha hpred hnot => ?_, fun other hother => ?_⟩
  · rw [houtputs]
    exact h.computed.congr hdone fun _ _ => rfl
  · rw [houtputs]
    exact h.fresh a ha (fun hd => hnot ((hdone a).mpr hd)) name
  -- the binding brings the output its source has now, into an input that has no other
  · rw [hbound.getInput hreg hdie, houtputs]
    split_ifs with hname
    · obtain ⟨rfl, rfl⟩ := hname
      rw [(hsingle x binding hmem rfl rfl).inputsOf hm]
    · refine h.inputs id name hreg hsingle fun other hmem' heq => ?_
      rcases List.mem_cons.mp hmem' with rfl | hmem'
      · exact hname ⟨heq.1.symm, heq.2.symm⟩
      · exact hother other hmem' heq
  · simp only [hdone]
    by_cases heq : a = binding.toActionId
    · subst heq
      cases hbound with
      | @target ptr _ hptr hplaced =>
        refine ⟨⟨ha.1, ⟨ptr, hptr⟩, .inr ⟨x, binding, hmem, rfl⟩⟩, ?_, h.targets binding (.head _)⟩
        exact h.ready_target hf hleft hx hptr ha.1 hplaced ha.2
      | die heq => exact absurd heq hdie
      | absent => exact h.ready _ ha
    · exact h.ready a ⟨ha.1, (hresched.active ha.2).resolve_right heq⟩
  · have hpred : ∀ p, m.Leads p a → DoneNode s p := fun p hp => (hdone p).mp (hpred p hp)
    have hnot : ¬DoneNode s a := fun hd => hnot ((hdone a).mpr hd)
    -- what can start waits for a binding that is left, or was scheduled by this one
    by_cases hmore : ∃ other ∈ left, other.toActionId = a
    · exact .inr hmore
    refine .inl ?_
    by_cases heq : binding.toActionId = a
    · subst heq
      cases hbound with
      | @target ptr _ hptr hplaced =>
        exact h.active_target hf hacyclic hsolution hflowing hmem (fun other ho hto => hmore ⟨other, ho, hto⟩) ha hpred
          hptr hplaced
      | die heq => exact absurd heq hdie
      | absent _ hreg => exact absurd ha.2.1 hreg
    · have hkept := hresched.kept a fun h => heq h.symm
      rcases h.waiting a ha hpred hnot with hactive | ⟨other, hother, hto⟩
      · exact hactive.imp hkept.1.mpr hkept.2.mpr
      · rcases List.mem_cons.mp hother with rfl | hother
        · exact absurd hto heq
        · exact absurd ⟨other, hother, hto⟩ hmore
  · rw [hdone]
    exact h.targets other (.tail _ hother)

theorem Evaluating.foldlM (hf : m.Functional accepts function) (hacyclic : m.Acyclic)
    (hsolution : (m.equations hm request function).Solution outputs) (hflowing : m.Flowing request accepts outputs)
    {x : ℤ} {env : ω} (hleft : ∀ binding ∈ left, binding ∈ m.bindings x) (hx : DoneNode s x)
    (h : m.Evaluating hm request function left s) (hbind : left.foldlM (m.bindResult env x) s = .ok s') :
    m.Evaluating hm request function [] s' ∧ ∀ a, DoneNode s' a ↔ DoneNode s a := by
  induction left generalizing s with
  | nil =>
    cases hbind
    exact ⟨h, fun _ => Iff.rfl⟩
  | cons binding left ih =>
    rw [List.foldlM_cons] at hbind
    obtain ⟨s₁, hstep, hrest⟩ := bind_eq_ok.mp hbind
    have hbound := bindResult_cases hstep
    have hdone := hbound.reschedules.doneNode_iff (h.targets binding (.head _))
    obtain ⟨heval, hrest⟩ := ih (fun other hother => hleft other (.tail _ hother)) ((hdone x).mpr hx)
      (hbound.evaluating hf hacyclic hsolution hflowing h hleft hx) hrest
    exact ⟨heval, fun a => (hrest a).trans (hdone a)⟩

/-! ### The steps of a call -/

theorem Evaluating.congr (h : m.Evaluating hm request function [] s) (hdone : ∀ a, DoneNode s' a ↔ DoneNode s a)
    (houtputs : s'.outputs = s.outputs) (hinputs : s'.inputs = s.inputs)
    (hactive : ∀ a, s'.Active a ↔ s.Active a) : m.Evaluating hm request function [] s' := by
  have houtput : s'.getOutput = s.getOutput := by
    unfold Session.getOutput
    rw [houtputs]
  have hinput : s'.getInput = s.getInput := by
    unfold Session.getInput
    rw [hinputs]
  refine ⟨⟨?_, fun a ha hnot => ?_, ?_, fun a ha => ?_⟩, fun a ha hpred hnot => ?_, fun _ h => nomatch h⟩
  · rw [houtput]
    exact h.computed.congr hdone fun _ _ => rfl
  · rw [houtput]
    exact h.fresh a ha fun hd => hnot ((hdone a).mpr hd)
  · rw [houtput, hinput]
    exact h.inputs
  · simp only [hdone]
    exact h.ready a ⟨ha.1, (hactive a).mp ha.2⟩
  · simp only [hdone] at hpred hnot
    exact (h.waiting a ha hpred hnot).imp_left (hactive a).mpr

/-- What `getNext` promotes was ready before. -/
theorem Evaluating.promotes (h : m.Evaluating hm request function [] s) (hpromotes : m.Promotes s s') :
    m.Evaluating hm request function [] s' ∧ ∀ a, DoneNode s' a ↔ DoneNode s a := by
  have hresched := hpromotes.reschedules
  suffices hdone : ∀ a, DoneNode s' a ↔ DoneNode s a from
    ⟨h.congr hdone hresched.outputs hpromotes.inputs hpromotes.active_iff, hdone⟩
  intro a
  refine and_congr_right fun ha =>
    ⟨fun hst => hresched.status_of_started hst (by simp [ExecutionStatus.NotStarted]), ?_⟩
  intro hst
  rcases hresched.status a with heq | ⟨hpending, -⟩
  · exact heq.trans hst
  · exact absurd ⟨ha, hst⟩ (h.ready a ⟨ha, .inr hpending⟩).2.2

theorem beginAction_of_ordinary {id : ℤ} (hid : 0 ≤ id) (s : Session) :
    m.beginAction s id = (s.removeFromNext id).removeFromPending id := by
  unfold beginAction
  dsimp only
  rw [if_neg]
  simp only [leavesFlow, Bool.or_eq_true, decide_eq_true_eq]
  rintro ((rfl | rfl) | rfl) <;> exact absurd hid (by decide)

theorem active_remove {id a : ℤ} : ((s.removeFromNext id).removeFromPending id).Active a ↔ s.Active a ∧ a ≠ id := by
  simp only [Session.Active, Session.removeFromNext, Session.removeFromPending, OrdSet.mem_erase]
  tauto

theorem doneNode_perform {x : ℤ} (hx : 0 ≤ x) (hsame : (m.beginAction s x).SameFlow s') (a : ℤ) :
    DoneNode (s'.setStatus x .done) a ↔ DoneNode s a ∨ a = x := by
  rw [beginAction_of_ordinary hx] at hsame
  have hstatus : s'.status = s.status := hsame.status
  unfold DoneNode Session.setStatus
  rw [OrdMap.find?_insert, hstatus]
  split_ifs with heq
  · simp [heq, hx]
  · simp [heq]

/-- A ready action was performed and is done: its outputs are what its equation gives, and its bindings are
still to be followed. -/
theorem Evaluating.perform (hacyclic : m.Acyclic) (h : m.Evaluating hm request function [] s) {x : ℤ}
    (hx : ActiveNode s x) (hsame : (m.beginAction s x).SameFlow s')
    (hvalue : ∀ name, s'.getOutput x name = function x (s.getInput x) name)
    (hkept : ∀ a, a ≠ x → s'.getOutput a = s.getOutput a) (hfed : ∀ name, m.Single x name) :
    m.Evaluating hm request function (m.bindings x) (s'.setStatus x .done) := by
  have hdone := doneNode_perform hx.1 hsame
  rw [beginAction_of_ordinary hx.1] at hsame
  obtain ⟨hlinked, hpred, hnot⟩ := h.ready x hx
  have hne : ∀ {a}, DoneNode s a → a ≠ x := fun ha heq => hnot (heq ▸ ha)
  have hread : s.getInput x = m.inputsOf request s.getOutput x := funext fun name =>
    h.inputs x name hlinked.2.1 (hfed name) fun _ hmem => nomatch hmem
  have hactive : ∀ a, (s'.setStatus x .done).Active a ↔ s.Active a ∧ a ≠ x := fun a => by
    rw [← active_remove (s := s)]
    unfold Session.Active
    rw [← hsame.nexts, ← hsame.pendings]
    rfl
  refine ⟨⟨?_, fun a ha hfresh name => ?_, fun id name hreg hsingle hother => ?_, fun a ha => ?_⟩,
    fun a ha hpred' hfresh => ?_, fun binding hmem => ?_⟩
  -- one more node is computed, from inputs that its predecessors have filled
  · have hstep := h.computed.step (y := s'.getOutput) (fun p hp => hpred p hp.2.2) (fun p hp => hkept p (hne hp)) (by
      rw [equations_eval hx.1, ← hread]
      exact funext hvalue)
    exact hstep.congr hdone fun _ _ => rfl
  · rw [hdone, not_or] at hfresh
    exact (congrFun (hkept a hfresh.2) name).trans (h.fresh a ha hfresh.1 name)
  · have hinput : (s'.setStatus x .done).getInput id name = s.getInput id name := by
      unfold Session.getInput
      show ((Session.puts s'.inputs id).find? name).join = _
      rw [hsame.inputs]
      rfl
    rw [hinput, h.inputs id name hreg hsingle fun _ hmem => nomatch hmem]
    unfold StateMachine.inputsOf
    cases hfeeder : m.feeder id name with
    | none => rfl
    | some binding =>
      obtain ⟨⟨a, hmem⟩, hto⟩ := feeder_eq_some hfeeder
      have ha : binding.fromActionId ≠ x := fun heq => hother binding ((hm.fromActionId hmem).symm.trans heq ▸ hmem) hto
      exact congrFun (hkept _ ha).symm _
  · have hbefore := (hactive a).mp ha.2
    obtain ⟨hlinked, hpred, hfresh⟩ := h.ready a ⟨ha.1, hbefore.1⟩
    refine ⟨hlinked, fun p hp => (hdone p).mpr (.inl (hpred p hp)), ?_⟩
    rw [hdone]
    exact not_or.mpr ⟨hfresh, hbefore.2⟩
  · rw [hdone, not_or] at hfresh
    by_cases hleads : m.Leads x a
    · exact .inr hleads
    · refine .inl ((hactive a).mpr ⟨?_, hfresh.2⟩)
      refine (h.waiting a ha (fun p hp => ?_) hfresh.1).resolve_right fun ⟨_, hmem, _⟩ => nomatch hmem
      exact ((hdone p).mp (hpred' p hp)).resolve_right fun heq => hleads (heq ▸ hp)
  -- a binding back to what is done would close a cycle
  · intro hd
    have hedge : m.Edge x binding.toActionId := ⟨hx.1, hd.1, binding, hmem, rfl⟩
    rcases (hdone _).mp hd with hbefore | heq
    · exact hnot (h.computed.closed _ hbefore x hedge)
    · exact hacyclic x (.single (heq ▸ hedge))

/-! ### The first call -/

theorem scheduleStarters_active {env : ω} {Q : Session → Prop} {a : ℤ} {starters : List InputBinding}
    (hplan : ∀ c id, Q c → Q (c.plan id)) (hpend : ∀ c id, Q c → Q (c.pend id))
    (hexec : ∀ c ptr, Q c → m.actions.find? a = some ptr → m.canExecuteAction env c ptr = .ok true)
    (h : m.scheduleStarters env s starters = .ok (true, s')) (hs : Q s)
    (ha : s.Active a ∨ ∃ input ∈ starters, input.actionId = a) : s'.Active a := by
  have hkept : ∀ {c : Session} {id : ℤ}, c.Active a → (c.plan id).Active a ∧ (c.pend id).Active a := by
    intro c id hc
    exact ⟨hc.imp_left fun h => OrdSet.mem_insert.mpr (.inr h), hc.imp_right fun h => OrdSet.mem_insert.mpr (.inr h)⟩
  induction starters generalizing s with
  | nil =>
    cases h
    refine ha.resolve_right ?_
    rintro ⟨_, hmem, -⟩
    cases hmem
  | cons input starters ih =>
    have hrest : ∀ {c : Session}, m.scheduleStarters env c starters = .ok (true, s') → Q c →
        (s.Active a ∨ input.actionId = a → c.Active a) → s'.Active a := by
      intro c h hc hactive
      refine ih h hc ?_
      rcases ha with ha | ⟨other, hmem, hto⟩
      · exact .inl (hactive (.inl ha))
      · rcases List.mem_cons.mp hmem with rfl | hmem
        · exact .inl (hactive (.inr hto))
        · exact .inr ⟨other, hmem, hto⟩
    rw [scheduleStarters] at h
    cases hptr : m.actions.find? input.actionId with
    | none =>
      rw [hptr] at h
      cases h
    | some ptr =>
      rw [hptr] at h
      obtain ⟨executable, hexecutable, h⟩ := bind_eq_ok.mp h
      have htrue : input.actionId = a → executable = true := by
        rintro rfl
        exact Except.ok.inj (hexecutable.symm.trans (hexec s ptr hs hptr))
      cases executable with
      | true =>
        obtain ⟨c, hc, h⟩ := bind_eq_ok.mp h
        obtain ⟨-, rfl⟩ := addToNext_eq_ok.mp hc
        refine hrest h (hplan s _ hs) fun hor => ?_
        rcases hor with ha | rfl
        · exact (hkept ha).1
        · exact .inl (OrdSet.mem_insert.mpr (.inl rfl))
      | false =>
        rw [if_neg Bool.false_ne_true] at h
        split_ifs at h
        · obtain ⟨c, hc, h⟩ := bind_eq_ok.mp h
          obtain ⟨-, rfl⟩ := addToPending_eq_ok.mp hc
          refine hrest h (hpend s _ hs) fun hor => (hkept (hor.resolve_right fun heq => ?_)).2
          exact Bool.false_ne_true (htrue heq)
        · exact hrest h hs fun hor => hor.resolve_right fun heq => Bool.false_ne_true (htrue heq)

theorem consistent_prepared (hm : m.Straight) (request first : Request) (function : ℤ → Contexts → Contexts) :
    m.Consistent hm request function [] (m.prepared ((Session.ofRequest request).pushRequest first)) ∧
      (∀ a, ¬DoneNode (m.prepared ((Session.ofRequest request).pushRequest first)) a) ∧
      (m.prepared ((Session.ofRequest request).pushRequest first)).Idle := by
  have hset : m.Reschedules (fun _ => False)
      (((Session.ofRequest request).pushRequest first).setStatuses m.actions.keys .unplanned)
      (m.prepared ((Session.ofRequest request).pushRequest first)) := setStarterInputs_reschedules _ _
  have hnot : ∀ a, ¬DoneNode (m.prepared ((Session.ofRequest request).pushRequest first)) a := by
    rintro a ⟨-, hst⟩
    have hst := hset.status_of_started hst (by simp [ExecutionStatus.NotStarted])
    have hst : ((∅ : OrdMap ℤ ExecutionStatus).insertAll m.actions.keys .unplanned).find? a = some .done := hst
    rw [OrdMap.find?_insertAll] at hst
    split_ifs at hst <;> cases hst
  have hnone : ∀ a name, (m.prepared ((Session.ofRequest request).pushRequest first)).getOutput a name = none := by
    intro a name
    unfold Session.getOutput
    rw [hset.outputs]
    rfl
  have hidle : ∀ a, ¬(m.prepared ((Session.ofRequest request).pushRequest first)).Active a := fun a ha =>
    (hset.active ha).elim (Session.not_active_of_idle ⟨rfl, rfl⟩ a) id
  refine ⟨⟨⟨fun a ha => absurd ha (hnot a), fun a ha => absurd ha (hnot a)⟩, fun a _ _ => hnone a,
    fun id name _ hsingle _ => ?_, fun a ha => absurd ha.2 (hidle a)⟩, hnot, ?_⟩
  · unfold StateMachine.inputsOf
    cases hfeeder : m.feeder id name with
    | none =>
      have hsame : (m.prepared ((Session.ofRequest request).pushRequest first)).inputs =
          (m.prepared (.ofRequest request)).inputs := setStarterInputs_inputs m.starters rfl rfl
      unfold Session.getInput
      rw [hsame]
    | some binding =>
      obtain ⟨⟨a, hmem⟩, rfl, rfl⟩ := feeder_eq_some hfeeder
      have hsole := hsingle a binding hmem rfl rfl
      unfold prepared
      rw [getInput_setStarterInputs hsole.starters]
      exact (hnone _ _).symm
  · exact ⟨OrdSet.eq_empty_iff.mpr fun a ha => hidle a (.inl ha), OrdSet.eq_empty_iff.mpr fun a ha => hidle a (.inr ha)⟩

/-- The starters are scheduled, and nothing but starters that are ready. -/
theorem scheduleStarters_evaluating (hf : m.Functional accepts function)
    (hacyclic : m.Acyclic) (hsolution : (m.equations hm request function).Solution outputs)
    (hflowing : m.Flowing request accepts outputs) {env : ω} (h : m.Consistent hm request function [] s)
    (hfresh : ∀ a, ¬DoneNode s a) (hidle : s.Idle) (hstarters : m.scheduleStarters env s m.starters = .ok (true, s')) :
    m.Evaluating hm request function [] s' ∧ (∀ a, s'.Active a → 0 ≤ a) ∧ ∀ a, ¬DoneNode s' a := by
  have hlaid := hm.ordinary.initialised.laid
  have hscheduled := scheduleStarters_reschedules hstarters
  have hinputs := scheduleStarters_inputs hstarters
  have hnot : ∀ a, ¬DoneNode s' a := fun a ha =>
    hfresh a ⟨ha.1, hscheduled.status_of_started ha.2 (by simp [ExecutionStatus.NotStarted])⟩
  have houtput : s'.getOutput = s.getOutput := hscheduled.getOutput
  have hcheck : ∀ c : Session, c.inputs = s.inputs → ∀ a ptr, m.Linked a → m.actions.find? a = some ptr →
      (ptr.checkInputs env c = true ↔ accepts a (s.getInput a)) := by
    intro c hc a ptr hlinked hptr
    have hsame : c.getInput a = s.getInput a := by
      unfold Session.getInput
      rw [hc]
    rw [(hf.actions a ptr hlinked hptr).checkInputs, hlaid.own hptr, hsame]
  -- a starter that accepts its inputs before anything is done has no predecessors,
  -- since it would lack what they bring
  have hsource : ∀ c : Session, c.inputs = s.inputs → ∀ input ∈ m.starters, ∀ ptr,
      m.actions.find? input.actionId = some ptr → ptr.checkInputs env c = true →
        ∀ p, ¬m.Leads p input.actionId := by
    intro c hc input hmem ptr hptr hchecked p hp
    have hlinked : m.Linked input.actionId := ⟨hm.starters input hmem, ⟨ptr, hptr⟩, .inl ⟨input, hmem, rfl⟩⟩
    have haccepts := (hcheck c hc _ ptr hlinked hptr).mp hchecked
    exact hfresh p (h.done_of_accepts hf hlinked.1 hlinked.2.1 (fun _ hb => absurd hb List.not_mem_nil)
      (fun _ _ => rfl) haccepts p hp)
  have hready : s'.inputs = s.inputs ∧ ∀ a, s'.Active a → m.Linked a ∧ ∀ p, ¬m.Leads p a := by
    refine scheduleStarters_invariant
      (P := fun c => c.inputs = s.inputs ∧ ∀ a, c.Active a → m.Linked a ∧ ∀ p, ¬m.Leads p a) hstarters
      ⟨rfl, fun a ha => absurd ha (Session.not_active_of_idle hidle a)⟩ ?_ ?_
    · rintro input hmem ptr c hptr ⟨hc, hactive⟩ hexec
      refine ⟨hc, fun a ha => ?_⟩
      have hcases : c.Active a ∨ a = input.actionId := by
        simp only [Session.Active, Session.plan, OrdSet.mem_insert] at ha ⊢
        tauto
      rcases hcases with ha | rfl
      · exact hactive a ha
      · exact ⟨⟨hm.starters input hmem, ⟨ptr, hptr⟩, .inl ⟨input, hmem, rfl⟩⟩,
          hsource c hc input hmem ptr hptr ((canExecuteAction_eq_true hlaid).mp hexec).1⟩
    · rintro input hmem ptr c hptr ⟨hc, hactive⟩ - hpend
      refine ⟨hc, fun a ha => ?_⟩
      have hcases : c.Active a ∨ a = input.actionId := by
        simp only [Session.Active, Session.pend, OrdSet.mem_insert] at ha ⊢
        tauto
      rcases hcases with ha | rfl
      · exact hactive a ha
      · exact ⟨⟨hm.starters input hmem, ⟨ptr, hptr⟩, .inl ⟨input, hmem, rfl⟩⟩, hsource c hc input hmem ptr hptr hpend⟩
  refine ⟨⟨⟨⟨fun a ha => absurd ha (hnot a), fun a ha => absurd ha (hnot a)⟩, fun a ha _ => ?_, ?_, fun a ha => ?_⟩,
    fun a hlinked hpred _ => ?_, fun _ hb => absurd hb List.not_mem_nil⟩, fun a ha => (hready.2 a ha).1.1, hnot⟩
  · rw [houtput]
    exact h.fresh a ha (hfresh a)
  · have hinput : s'.getInput = s.getInput := by
      unfold Session.getInput
      rw [hinputs]
    rw [houtput, hinput]
    exact h.inputs
  · obtain ⟨hlinked, hsource⟩ := hready.2 a ha.2
    exact ⟨hlinked, fun p hp => absurd hp (hsource p), hnot a⟩
  -- a linked action without predecessors is named by a starter, and accepts its inputs,
  -- which are those of the solution
  · have hnone : ∀ p, ¬m.Leads p a := fun p hp => hnot p (hpred p hp)
    obtain ⟨hpos, hreg, hstarter⟩ := hlinked
    have hstarter := hstarter.resolve_right (not_exists.mpr hnone)
    have haccepted : accepts a (s.getInput a) := by
      have hread : s.getInput a = m.inputsOf request outputs a := by
        rw [← h.inputsOf hacyclic hsolution fun p hp => absurd hp (hnone p)]
        exact funext fun name => h.inputs a name hreg (hf.single hpos name) fun _ hb => absurd hb List.not_mem_nil
      rw [hread]
      exact hflowing.accepted a ⟨hpos, hreg, .inl hstarter⟩
    refine .inl (scheduleStarters_active (Q := fun c => c.inputs = s.inputs) (fun _ _ hc => hc) (fun _ _ hc => hc)
      (fun c ptr hc hptr => ?_) hstarters rfl (.inr hstarter))
    have hlinked : m.Linked a := ⟨hpos, hreg, .inl hstarter⟩
    refine (canExecuteAction_eq_true hlaid).mpr ⟨(hcheck c hc a ptr hlinked hptr).mpr haccepted,
      (hf.actions a ptr hlinked hptr).canPerform env c, fun p hp => ?_⟩
    rw [hlaid.own hptr] at hp
    exact absurd hp (hnone p)

/-! ### The stages of a call -/

/-- The performed actions are the ordinary ones that are done: linked ones, each performed once. -/
structure PerformsDone (m : StateMachine ω) (s : Session) (trace : List Event) : Prop where
  once : (performedIds trace).Nodup
  done : ∀ a, a ∈ performedIds trace ↔ DoneNode s a
  linked : ∀ a ∈ performedIds trace, m.Linked a

/-- Each linked action was performed once, and Finish has replied with what the outputs bring it. -/
structure Carried (m : StateMachine ω) (outputs : ℤ → Contexts) (trace : List Event) : Prop where
  once : ((performedIds trace).filter (0 ≤ ·)).Nodup
  linked : ∀ a, 0 ≤ a → (a ∈ performedIds trace ↔ m.Linked a)
  reply : ∃ reply, .finishReply reply ∈ trace ∧ ∀ a binding, m.Linked a → m.SoleBinding a binding →
    binding.toActionId = Step.finish.id →
      reply.getContext binding.toActionInput = outputs a binding.fromActionOutput

/-- Where the call stands: it evaluates the workflow, an action of it was just performed, or Finish has
replied. -/
inductive Stage (hm : m.Straight) (request : Request) (function : ℤ → Contexts → Contexts)
    (outputs : ℤ → Contexts) : Config ω → Prop
  | execute {id : ℤ} {w : World ω} (hflow : m.Flow False w.session w.trace) (hchosen : Chosen w.session id)
      (heval : m.Evaluating hm request function [] w.session) (hperformed : m.PerformsDone w.session w.trace) :
      Stage hm request function outputs (.running (.executeAction id) w)
  | consume {id : ℤ} {ptr : ActionPtr ω} {w w' : World ω} {result : Result} (hnode : ActiveNode w.session id)
      (heval : m.Evaluating hm request function [] w.session) (hperformed : m.PerformsDone w.session w.trace)
      (hptr : m.actions.find? id = some ptr)
      (hperform : ptr.perform m.getExpectedOutput { w with session := m.beginAction w.session id } =
        (w', result)) : Stage hm request function outputs (.running (.actionExecuted result) w')
  | replied {c : Config ω} (hcarried : m.Carried outputs c.world.trace) : Stage hm request function outputs c

theorem Evaluating.done_of_rest (hf : m.Functional accepts function) (hacyclic : m.Acyclic)
    (h : m.Evaluating hm request function [] s) (hrest : ∀ a, ¬ActiveNode s a) {a : ℤ} (ha : m.Linked a) :
    DoneNode s a := by
  induction a using hacyclic.wellFounded_edge.induction with
  | _ a ih =>
    by_contra hnot
    have hpred : ∀ p, m.Leads p a → DoneNode s p := fun p hp =>
      ih p (hm.edge_of_leads ha.1 hp) (hf.linked p a ha.1 hp)
    rcases h.waiting a ha hpred hnot with hactive | ⟨_, hmem, _⟩
    · exact hrest a ⟨ha.1, hactive⟩
    · cases hmem

/-- What is computed of a ready action is what the solution says of it. -/
theorem Evaluating.value (hf : m.Functional accepts function) (hacyclic : m.Acyclic)
    (hsolution : (m.equations hm request function).Solution outputs) (hflowing : m.Flowing request accepts outputs)
    {w : World ω} (h : m.Evaluating hm request function [] w.session) {id : ℤ} (hnode : ActiveNode w.session id)
    {ptr : ActionPtr ω} (hptr : m.actions.find? id = some ptr) {expected : List String} {w' : World ω}
    {result : Result}
    (hperform : ptr.perform expected { w with session := m.beginAction w.session id } = (w', result)) :
    result.type = .done ∧ ptr.checkOutputs w'.env w'.session = true ∧ w'.session.getOutput id = outputs id ∧
      (∀ name, w'.session.getOutput id name = function id (w.session.getInput id) name) ∧
      ∀ a, a ≠ id → w'.session.getOutput a = w.session.getOutput a := by
  have hlaid := hm.ordinary.initialised.laid
  obtain ⟨hlinked, hpred, hnot⟩ := h.ready id hnode
  have hinput : (m.beginAction w.session id).getInput = w.session.getInput := by
    unfold Session.getInput
    rw [beginAction_inputs]
  have houtput : (m.beginAction w.session id).getOutput = w.session.getOutput := by
    rw [beginAction_of_ordinary hnode.1]
    rfl
  have hread : w.session.getInput id = m.inputsOf request outputs id := by
    rw [← h.inputsOf hacyclic hsolution hpred]
    exact funext fun name => h.inputs id name hlinked.2.1 (hf.single hnode.1 name) fun _ hmem => nomatch hmem
  have haccepted : accepts id ((m.beginAction w.session id).getInput id) := by
    rw [hinput, hread]
    exact hflowing.accepted id hlinked
  obtain ⟨hdone, hvalue, hkept, hcheck⟩ := (hf.actions id ptr hlinked hptr).perform hlaid hnode.1 hptr haccepted
    (by rw [houtput]; exact h.fresh id hnode.1 hnot) hperform
  dsimp only at hvalue hkept
  rw [hinput] at hvalue
  rw [houtput] at hkept
  refine ⟨hdone, hcheck, ?_, hvalue, hkept⟩
  rw [funext hvalue, hread, hsolution id, equations_eval hnode.1]

theorem Carried.answered {trace : List Event} (h : m.Carried outputs trace) : Answered trace := by
  obtain ⟨reply, hreply, -⟩ := h.reply
  exact List.ne_nil_of_mem (List.mem_filter.mpr ⟨hreply, rfl⟩)

theorem Stage.normal (hf : m.Functional accepts function) (hacyclic : m.Acyclic) (hown : m.OwnResults)
    (hsolution : (m.equations hm request function).Solution outputs) (hflowing : m.Flowing request accepts outputs)
    {c : Config ω} (hphase : m.Phase c) (h : m.Stage hm request function outputs c) : c.Normal m := by
  cases h with
  | execute => trivial
  | @consume id ptr w w' result hnode heval hperformed hptr hperform =>
    intro hpos
    have hresult : result.actionId = id := hown.perform hm.ordinary.initialised.laid hptr hperform
    obtain ⟨hdone, hcheck, hvalue, -⟩ := heval.value hf hacyclic hsolution hflowing hnode hptr hperform
    refine ⟨⟨hdone, ?_⟩, fun output hmem hto => ?_⟩
    · rw [hresult, hptr]
      exact hcheck
    · rw [hresult] at hmem ⊢
      rw [hvalue]
      exact hflowing.finish id (heval.ready id hnode).1 output hmem hto
  | replied hcarried =>
    cases hphase with
    | consume _ _ hflow => exact absurd hflow.unanswered hcarried.answered
    | leave hid => exact fun hpos => absurd hpos (not_le.mpr hid.neg)
    | execute | fail | onward | ended => trivial

/-- Finish is performed where it is all that is left: it replies with the solution. -/
theorem Evaluating.carried (hf : m.Functional accepts function) (hacyclic : m.Acyclic)
    (hsolution : (m.equations hm request function).Solution outputs) {w : World ω}
    (h : m.Evaluating hm request function [] w.session) (hperformed : m.PerformsDone w.session w.trace)
    (hrest : ∀ a, ¬ActiveNode w.session a) {out : Onward ω} (hout : m.executeAction w Step.finish.id = .ok out) :
    m.Carried outputs out.1.trace := by
  have hid : IsDefault Step.finish.id := .inr (.inl rfl)
  have hall : ∀ a, m.Linked a → DoneNode w.session a := fun a ha => h.done_of_rest hf hacyclic hrest ha
  rw [hm.ordinary.executeAction_default hid] at hout
  cases hout
  have hids : performedIds (w.trace ++ .performed Step.finish.id (m.beginAction w.session Step.finish.id) ::
      (defaultPtr ω Step.finish.id).wrapReplies m.getExpectedOutput (m.beginAction w.session Step.finish.id)) =
        performedIds w.trace ++ [Step.finish.id] := performedIds_append _ _
  refine ⟨?_, fun a ha => ?_, _, List.mem_append_right _ (.tail _ (.head _)), fun a binding hlinked hsole hto => ?_⟩
  · rw [hids, List.filter_append]
    exact (List.append_nil _).symm ▸ hperformed.once.filter _
  · rw [hids, List.mem_append]
    refine (or_iff_left fun hmem => absurd (List.mem_singleton.mp hmem ▸ ha) (by decide)).trans ?_
    exact ⟨hperformed.linked a, fun hlinked => (hperformed.done a).mpr (hall a hlinked)⟩
  · rw [getContext_finishReply (mem_getExpectedOutput hsole.mem hto)]
    have hreg : m.Registered Step.finish.id := hm.ordinary.registered_default hid
    have hinput : w.session.getInput Step.finish.id binding.toActionInput =
        m.inputsOf request w.session.getOutput Step.finish.id binding.toActionInput :=
      h.inputs _ _ hreg (hto ▸ hsole.single) fun _ hmem => nomatch hmem
    have hvalue : w.session.getOutput a = outputs a :=
      h.computed.eq_solution hacyclic.wellFounded_edge hsolution (hall a hlinked)
    have hsame : (m.beginAction w.session Step.finish.id).getInput Step.finish.id binding.toActionInput =
        w.session.getInput Step.finish.id binding.toActionInput := by
      unfold Session.getInput
      rw [beginAction_inputs]
    refine hsame.trans (hinput.trans ?_)
    rw [← hto, hsole.inputsOf hm, hvalue]

theorem executeAction_stage (hf : m.Functional accepts function) (hacyclic : m.Acyclic)
    (hsolution : (m.equations hm request function).Solution outputs)
    (hfinish : ∃ a, m.Linked a ∧ m.Leads a Step.finish.id) {w : World ω} {id : ℤ} {out : Onward ω}
    (hcalled : m.Called w.session id) (hflow : m.Flow False w.session w.trace) (hchosen : Chosen w.session id)
    (heval : m.Evaluating hm request function [] w.session) (hperformed : m.PerformsDone w.session w.trace)
    (h : m.executeAction w id = .ok out) : m.Stage hm request function outputs (.after out) := by
  cases executeAction_cases h with
  | die =>
    rcases hflow.active _ (hchosen.active (by decide)) with hpos | heq
    · exact absurd hpos (by decide)
    · exact absurd heq (by decide)
  | nothing =>
    have hidle := hchosen.idle rfl
    obtain ⟨a, hlinked, hleads⟩ := hfinish
    have hdone := heval.done_of_rest hf hacyclic (fun a ha => Session.not_active_of_idle hidle a ha.2) hlinked
    have hconcluded : m.Concluded w.trace := ⟨a, (hperformed.done a).mpr hdone, hleads⟩
    exact absurd ((hflow.bound hconcluded).resolve_right not_false) (Session.not_active_of_idle hidle _)
  | @action _ ptr hdie hneg hptr w' result hperform =>
    rcases hm.ordinary.registered_cases ⟨ptr, hptr⟩ with hid | hpos
    · have heq : id = Step.finish.id := (hflow.active id (hchosen.active hneg)).resolve_left (not_le.mpr hid.neg)
      subst heq
      refine .replied (heval.carried hf hacyclic hsolution hperformed (fun a ha => ?_) h)
      exact absurd (hchosen.finish rfl a ha.2 ▸ ha.1) (by decide)
    · exact .consume ⟨hpos, hchosen.active hneg⟩ heval hperformed hptr hperform
  | absent hdie hneg hreg =>
    have hfinish : m.Registered Step.finish.id := hm.ordinary.registered_default (.inr (.inl rfl))
    exact absurd (hcalled.registered hfinish (hm.ordinary.registered_default (.inl rfl)) hneg hdie) hreg

theorem actionExecuted_stage (hf : m.Functional accepts function) (hacyclic : m.Acyclic) (hown : m.OwnResults)
    (hsolution : (m.equations hm request function).Solution outputs) (hflowing : m.Flowing request accepts outputs)
    {w w' : World ω} {id : ℤ} {ptr : ActionPtr ω} {result : Result} {out : Onward ω}
    (hc : (Config.running (.actionExecuted result) w').Conducted m)
    (hphase : m.Phase (.running (.actionExecuted result) w'))
    (hnormal : (Config.running (.actionExecuted result) w').Normal m) (hnode : ActiveNode w.session id)
    (heval : m.Evaluating hm request function [] w.session) (hperformed : m.PerformsDone w.session w.trace)
    (hptr : m.actions.find? id = some ptr)
    (hperform : ptr.perform m.getExpectedOutput { w with session := m.beginAction w.session id } = (w', result))
    (h : m.actionExecuted w' result = .ok out) : m.Stage hm request function outputs (.after out) := by
  have hlaid := hm.ordinary.initialised.laid
  have hresult : result.actionId = id := hown.perform hlaid hptr hperform
  subst hresult
  obtain ⟨ptr', hptr', hconsumed⟩ := actionExecuted_cases h
  cases hptr.symm.trans hptr'
  obtain ⟨-, -, -, hvalue, hkept⟩ := heval.value hf hacyclic hsolution hflowing hnode hptr hperform
  have htrace := performedIds_perform hlaid hptr hperform
  obtain ⟨s, s', next, hbind, hnext, rfl⟩ := (hnormal hnode.1).1.consumed hptr hconsumed
  have hsame := ptr.sameFlow_of_perform hperform
  have hset := doneNode_perform hnode.1 hsame
  have hleft := heval.perform hacyclic hnode hsame hvalue hkept (hf.single hnode.1)
  obtain ⟨hbound, hfollowed⟩ :=
    hleft.foldlM hf hacyclic hsolution hflowing (fun _ hmem => hmem) ((hset _).mpr (.inr rfl)) hbind
  have hground : m.Grounded s :=
    (hc.grounded.setStatus ⟨ptr, hptr⟩ .done).reschedules (bindResults_reschedules hbind)
  obtain ⟨hflow', hchosen⟩ : m.Flow False s' w'.trace ∧ Chosen s' next := by
    cases hphase with
    | consume hpos hmem hflow =>
      exact (hflow.bindResults hm hpos hmem (hnormal hpos).2 hbind).getNext hlaid hground hnext
    | leave hid => exact absurd hnode.1 (not_le.mpr hid.neg)
  obtain ⟨hpromoted, hkeeps⟩ := hbound.promotes (getNext_spec hnext).1
  have hiff : ∀ a, DoneNode s' a ↔ DoneNode w.session a ∨ a = result.actionId := fun a =>
    (hkeeps a).trans ((hfollowed a).trans (hset a))
  obtain ⟨hlinked, -, hnot⟩ := heval.ready _ hnode
  refine .execute hflow' hchosen hpromoted ?_
  refine ⟨?_, fun a => ?_, fun a ha => ?_⟩
  · rw [htrace]
    refine hperformed.once.append (List.nodup_singleton _) fun a ha hmem => ?_
    exact hnot ((hperformed.done _).mp (List.mem_singleton.mp hmem ▸ ha))
  · rw [htrace, hiff, List.mem_append, List.mem_singleton]
    exact or_congr_left (hperformed.done a)
  · rw [htrace, List.mem_append, List.mem_singleton] at ha
    exact ha.elim (hperformed.linked a) fun heq => heq ▸ hlinked

theorem Carried.step (hlaid : m.Laid) {c c' : Config ω} (hphase : m.Phase c) (h : m.Carried outputs c.world.trace)
    (hnext : m.system.next c = some c') : m.Carried outputs c'.world.trace := by
  obtain ⟨events, htrace, hheard⟩ := trans_heard hlaid (.internal hnext)
  have hnone : ∀ a ∈ performedIds events, a < 0 := by
    intro a ha
    obtain ⟨event, hmem, hevent⟩ := List.mem_filterMap.mp ha
    rcases event with ⟨id, s⟩ | _ | _ | _ | _ | _ <;> cases hevent
    obtain ⟨ptr, w, rfl, -⟩ := hheard.of_performed hmem
    cases hphase with
    | execute hflow => exact absurd hflow.unanswered h.answered
    | fail => decide
    | onward hid =>
      unfold defaultTarget
      split_ifs <;> decide
  have hids : performedIds c'.world.trace = performedIds c.world.trace ++ performedIds events := by
    rw [htrace, performedIds_append]
  refine ⟨?_, fun a ha => ?_, ?_⟩
  · have hfilter : (performedIds events).filter (0 ≤ ·) = [] :=
      List.filter_eq_nil_iff.mpr fun a ha => by simpa using hnone a ha
    rw [hids, List.filter_append, hfilter, List.append_nil]
    exact h.once
  · rw [hids, List.mem_append, h.linked a ha]
    exact or_iff_left fun hmem => absurd ha (not_le.mpr (hnone a hmem))
  · obtain ⟨reply, hreply, hcarries⟩ := h.reply
    exact ⟨reply, htrace ▸ List.mem_append_left _ hreply, hcarries⟩

/-- Each call of the evaluation goes on to the next stage. -/
theorem Stage.next (hf : m.Functional accepts function) (hacyclic : m.Acyclic) (hown : m.OwnResults)
    (hsolution : (m.equations hm request function).Solution outputs) (hflowing : m.Flowing request accepts outputs)
    (hfinish : ∃ a, m.Linked a ∧ m.Leads a Step.finish.id) {c c' : Config ω} (hc : c.Conducted m) (hphase : m.Phase c)
    (h : m.Stage hm request function outputs c) (hnext : m.system.next c = some c') :
    m.Stage hm request function outputs c' := by
  have hnormal := h.normal hf hacyclic hown hsolution hflowing hphase
  have hlaid := hm.ordinary.initialised.laid
  cases h with
  | @execute id w hflow hchosen heval hperformed =>
    obtain ⟨out, hout⟩ := executeAction_succeeds hm.ordinary.initialised hc.grounded.nothing hc.statused
    have hc' : c' = .after out := (Option.some.inj hnext).symm.trans (congrArg (Config.ofStep w) hout)
    rw [hc']
    exact executeAction_stage hf hacyclic hsolution hfinish hc.grounded hflow hchosen heval hperformed hout
  | @consume id ptr w w' result hnode heval hperformed hptr hperform =>
    obtain ⟨out, hout⟩ := actionExecuted_succeeds hlaid hc.grounded hc.statused hc.answerable
    have hc' : c' = .after out := (Option.some.inj hnext).symm.trans (congrArg (Config.ofStep w') hout)
    rw [hc']
    exact actionExecuted_stage hf hacyclic hown hsolution hflowing hc hphase hnormal hnode heval hperformed hptr
      hperform
      hout
  | replied hcarried => exact .replied (hcarried.step hlaid hphase hnext)

theorem receive_stage (hf : m.Functional accepts function) (hacyclic : m.Acyclic) (hvalid : m.validate = none)
    (hsolution : (m.equations hm request function).Solution outputs) (hflowing : m.Flowing request accepts outputs)
    (first : Request) (env : ω) (hphase : m.Phase (Config.ofStep ⟨.ofRequest request, env, []⟩
      (m.receive ⟨.ofRequest request, env, []⟩ (.request first)))) :
    m.Stage hm request function outputs (Config.ofStep ⟨.ofRequest request, env, []⟩
      (m.receive ⟨.ofRequest request, env, []⟩ (.request first))) := by
  have hlaid := hm.ordinary.initialised.laid
  have hground : m.Grounded ((Session.ofRequest request).pushRequest first) :=
    (Grounded.ofRequest request).congr rfl rfl rfl
  obtain ⟨out, h⟩ := firstCall_succeeds hlaid (w := ⟨(Session.ofRequest request).pushRequest first, env, []⟩) hground
  have hreceive : m.receive ⟨.ofRequest request, env, []⟩ (.request first) = .ok out := h
  rw [hreceive] at hphase ⊢
  obtain ⟨s, s', next, hstarters, hnext, rfl⟩ := firstCall_of_validate hvalid h
  obtain ⟨hconsistent, hfresh, hidle⟩ := consistent_prepared hm request first function
  obtain ⟨heval, hpos, hnot⟩ := scheduleStarters_evaluating hf hacyclic hsolution hflowing hconsistent hfresh hidle
    hstarters
  obtain ⟨hpromotes, hpicked⟩ := getNext_spec hnext
  obtain ⟨hpromoted, hkeeps⟩ := heval.promotes hpromotes
  have hperformed : m.PerformsDone s' [] :=
    ⟨.nil, fun a => ⟨fun h => (nomatch h), fun h => absurd ((hkeeps a).mp h) (hnot a)⟩, fun _ h => nomatch h⟩
  have hphase : m.Phase (.running (.executeAction next) ⟨s', env, []⟩) := hphase
  cases hphase with
  | execute hflow hchosen => exact .execute hflow hchosen hpromoted hperformed
  | fail =>
    have hactive : s'.Active Step.error.id := .inl (hpicked.mem_nexts (by decide))
    exact absurd (hpos _ ((hpromotes.active_iff _).mp hactive)) (by decide)
  | onward _ hreplied =>
    obtain ⟨_, _, hreply, -⟩ := hreplied.2 fun ⟨_, hmem, _⟩ => nomatch hmem
    cases hreply

/-- **What a workflow computes.** On the default steps, a valid acyclic workflow of functions, of whose solution
every linked action accepts its share, and whose end is linked to Finish: the first call of a session performs
each linked action once and nothing else of the workflow, and returns; its one reply is that of Finish, which
carries under the name of each sole binding to Finish what the solution has there. -/
theorem computes_solution (hf : m.Functional accepts function) (hown : m.OwnResults) (hvalid : m.validate = none)
    (hacyclic : m.Acyclic) (hsolution : (m.equations hm request function).Solution outputs)
    (hflowing : m.Flowing request accepts outputs) (hfinish : ∃ a, m.Linked a ∧ m.Leads a Step.finish.id)
    (first : Request) (env : ω) :
    ∃ w', m.Returns ⟨.ofRequest request, env, []⟩ (.request first) w' ∧
      ((performedIds w'.trace).filter (0 ≤ ·)).Nodup ∧
      (∀ a, 0 ≤ a → (a ∈ performedIds w'.trace ↔ m.Linked a)) ∧
      ∃ reply, replies w'.trace = [.finishReply reply] ∧ ∀ a binding, m.Linked a → m.SoleBinding a binding →
        binding.toActionId = Step.finish.id →
          reply.getContext binding.toActionInput = outputs a binding.fromActionOutput := by
  obtain ⟨weight, hweight⟩ := hacyclic.exists_weighs hm.ordinary.initialised.laid
  obtain ⟨hconducted, hphase⟩ := receive_phase hm hown hvalid request first env
  have hstage := receive_stage hf hacyclic hvalid hsolution hflowing first env hphase
  -- both invariants go along the call, to the end that `returns_of_conducted` gives it
  have hlater : ∀ n (c : Config ω), c.Conducted m → m.Phase c → m.Stage hm request function outputs c →
      m.Phase (m.system.advance n c) ∧ m.Stage hm request function outputs (m.system.advance n c) := by
    intro n
    induction n with
    | zero => exact fun c _ hphase hstage => ⟨hphase, hstage⟩
    | succ n ih =>
      intro c hc hphase hstage
      cases hnext : m.system.next c with
      | none =>
        rw [Reactive.System.advance_of_settled hnext]
        exact ⟨hphase, hstage⟩
      | some c' =>
        rw [Reactive.System.advance_succ_of_next hnext]
        exact ih c' (next_conducted hm.ordinary hown hvalid hweight hc hnext).1
          (next_phase hm hown hc (hstage.normal hf hacyclic hown hsolution hflowing hphase) hphase hnext)
          (hstage.next hf hacyclic hown hsolution hflowing hfinish hc hphase hnext)
  obtain ⟨n, w', hlast, -⟩ := returns_of_conducted hm.ordinary hown hvalid hweight hconducted
  obtain ⟨hphase', hstage'⟩ := hlater n _ hconducted hphase hstage
  rw [hlast] at hphase' hstage'
  cases hstage' with
  | replied hcarried =>
    obtain ⟨reply, hmem, hcarries⟩ := hcarried.reply
    cases hphase' with
    | ended hreplied =>
      obtain ⟨a, hlinked, hleads⟩ := hfinish
      obtain ⟨sent, hreplies⟩ := hreplied.1 ⟨a, (hcarried.linked a hlinked.1).mpr hlinked, hleads⟩
      have hin : Event.finishReply reply ∈ replies w'.trace := List.mem_filter.mpr ⟨hmem, rfl⟩
      rw [hreplies, List.mem_singleton] at hin
      cases hin
      exact ⟨w', ⟨n, hlast⟩, hcarried.once, hcarried.linked, reply, hreplies, hcarries⟩

end StateMachine

namespace Sample

open StateMachine

def put (name : String) : PutDefinition := ⟨name, "", "Sample", fun _ => true, true, false, false⟩

def collecting (names : List String) : Action Unit :=
  .ofPerform "Sample" (names.foldl (fun puts name => puts.insert name (put name)) ∅)
    ((∅ : OrdMap String PutDefinition).insert "out" (put "out")) fun id env s =>
      { Outcome.ofResult env s ⟨id, .done, none⟩ with
        outputs := [("out", some (.list "Sample" (names.filterMap (s.getInput id))))] }

def collects (names : List String) (inputs : Contexts) : Contexts := fun name =>
  if name = "out" then some (.list "Sample" (names.filterMap inputs)) else none

theorem collecting_isFunction {names : List String} (id : ℤ)
    (hdeclared : (collecting names).inputs.entries = names.map fun name => (name, put name)) :
    IsFunction (ActionPtr.setActionId ⟨none, collecting names⟩ id) (fun inputs => ∀ name ∈ names, inputs name ≠ none)
      (collects names) where
  checkInputs env s := by
    show Action.checkDeclaredInputs (collecting names).inputs id s = true ↔ ∀ name ∈ names, s.getInput id name ≠ none
    unfold Action.checkDeclaredInputs
    rw [hdeclared, List.all_map, List.all_eq_true]
    refine forall₂_congr fun name _ => ?_
    rw [Function.comp_apply, show (put name).putName = name from rfl]
    cases s.getInput id name <;> simp [put]
  canPerform _ _ := rfl
  done _ _ _ := rfl
  outputs env s _ hfresh name := by
    have hnone : s.getOutput id name = none := hfresh name
    show (s.setOutput id "out" _).getOutput id name = _
    rw [Session.getOutput_setOutput, hnone]
    unfold collects
    simp only [true_and]
  checkOutputs env s _ houtputs := by
    show Action.checkDeclaredOutputs id s [("out", put "out")] = true
    have hout : s.getOutput id "out" = _ := houtputs "out"
    unfold Action.checkDeclaredOutputs
    rw [show (put "out").putName = "out" from rfl, hout]
    rfl

/-- A diamond that is numbered against its order: from 2 over 1 and 3 to 0. -/
def diamond : StateMachine Unit :=
  ((((new.init.addAction 0 (collecting ["a", "b"]) [bindingTo 0 "out" Step.finish.id "result"]).addAction
    1 (collecting ["in"]) [bindingTo 1 "out" 0 "a"]).addAction
    2 (collecting ["in"]) [bindingTo 2 "out" 1 "in", bindingTo 2 "out" 3 "in"]).addAction
    3 (collecting ["in"]) [bindingTo 3 "out" 0 "b"]).addInput ⟨"data", 2, "in"⟩

def diamondFunction (id : ℤ) : Contexts → Contexts :=
  if 0 ≤ id ∧ id ≤ 3 then collects (if id = 0 then ["a", "b"] else ["in"]) else fun _ _ => none

def dataRequest : Request := (request .defaultAction 0 0).setContext "data" (some (.leaf "Sample" "data"))

def diamondOutputs (id : ℤ) : Contexts := fun name =>
  let data := Context.list "Sample" [.leaf "Sample" "data"]
  if name = "out" then
    if id = 0 then some (.list "Sample" [.list "Sample" [data], .list "Sample" [data]])
    else if id = 2 then some data
    else if id = 1 ∨ id = 3 then some (.list "Sample" [data])
    else none
  else none

theorem diamond_straight : diamond.Straight where
  ordinary := .addInput (.addAction (.addAction (.addAction (.addAction .init 0 (by decide) _ _) 1 (by decide) _ _) 2
    (by decide) _ _) 3 (by decide) _ _) _
  bindings a b ha hleads := by
    obtain ⟨entry, hentry, rfl, output, houtput, rfl⟩ := exists_entry_of_leads hleads
    have hall : ∀ entry ∈ diamond.outputs.entries, ∀ output ∈ entry.2, 0 ≤ entry.1 →
        0 ≤ output.toActionId ∨ output.toActionId = Step.finish.id := by decide
    exact hall entry hentry output houtput ha
  starters := by decide

theorem diamond_find? (id : ℤ) (hid : 0 ≤ id) : diamond.actions.find? id =
    if id ≤ 3 then some (ActionPtr.setActionId ⟨none, collecting (if id = 0 then ["a", "b"] else ["in"])⟩ id)
    else none := by
  by_cases hle : id ≤ 3
  · rw [if_pos hle]
    interval_cases id <;> rfl
  · have hne : ∀ k : ℤ, k ≤ 3 → id ≠ k := fun k hk heq => hle (heq ▸ hk)
    rw [if_neg hle]
    unfold diamond
    show (addAction _ _ _ _).actions.find? id = none
    rw [find?_addAction (by decide), if_neg (hne 3 (by decide)), find?_addAction (by decide),
      if_neg (hne 2 (by decide)), find?_addAction (by decide), if_neg (hne 1 (by decide)), find?_addAction (by decide),
      if_neg (hne 0 (by decide)), find?_init, if_neg (hne _ (by decide)), if_neg (hne _ (by decide)),
      if_neg (hne _ (by decide)), if_neg (hne _ (by decide))]

theorem diamond_linked {id : ℤ} : diamond.Linked id ↔ 0 ≤ id ∧ id ≤ 3 := by
  constructor
  · rintro ⟨hid, ⟨ptr, hptr⟩, -⟩
    refine ⟨hid, ?_⟩
    by_contra hle
    rw [diamond_find? id hid, if_neg hle] at hptr
    cases hptr
  · rintro ⟨hid, hle⟩
    refine ⟨hid, ⟨_, (diamond_find? id hid).trans (if_pos hle)⟩, ?_⟩
    interval_cases id
    · exact .inr ⟨1, _, .head _, rfl⟩
    · exact .inr ⟨2, _, .head _, rfl⟩
    · exact .inl ⟨_, .head _, rfl⟩
    · exact .inr ⟨2, _, .tail _ (.head _), rfl⟩

def diamondAccepts (id : ℤ) (inputs : Contexts) : Prop :=
  ∀ name ∈ (if id = 0 then ["a", "b"] else ["in"]), inputs name ≠ none

theorem diamond_functional : diamond.Functional diamondAccepts diamondFunction where
  linked p id hid hleads := by
    obtain ⟨entry, hentry, rfl, output, houtput, rfl⟩ := exists_entry_of_leads hleads
    have hall : ∀ entry ∈ diamond.outputs.entries, ∀ output ∈ entry.2, 0 ≤ output.toActionId →
        0 ≤ entry.1 ∧ entry.1 ≤ 3 := by decide
    exact diamond_linked.mpr (hall entry hentry output houtput hid)
  actions id ptr hlinked hptr := by
    have hid := diamond_linked.mp hlinked
    rw [diamond_find? id hid.1, if_pos hid.2] at hptr
    cases hptr
    have hfunction : diamondFunction id = collects (if id = 0 then ["a", "b"] else ["in"]) := if_pos hid
    rw [hfunction]
    refine collecting_isFunction id ?_
    split_ifs <;> rfl
  wired p binding hmem hto := by
    have hfrom := diamond_straight.fromActionId hmem
    have hall : ∀ binding ∈ diamond.outputs.entries.flatMap Prod.snd, 0 ≤ binding.toActionId →
        ∀ output ∈ diamond.outputs.entries.flatMap Prod.snd, output.toActionId = binding.toActionId →
          output.toActionInput = binding.toActionInput →
            output.fromActionId = binding.fromActionId ∧ output.fromActionOutput = binding.fromActionOutput := by decide
    have hstarters : ∀ binding ∈ diamond.outputs.entries.flatMap Prod.snd,
        ∀ input ∈ diamond.starters, input.actionId ≠ binding.toActionId := by decide
    refine soleBinding_of_entries diamond_straight.ordinary.initialised.constructed hmem (fun output ho => ?_)
      (hstarters binding (mem_of_bindings hmem))
    rw [← hfrom]
    exact hall binding (mem_of_bindings hmem) hto output ho
  firm p binding hmem hto inputs haccepts := by
    have hall : ∀ binding ∈ diamond.outputs.entries.flatMap Prod.snd, 0 ≤ binding.toActionId →
        binding.toActionInput ∈ (if binding.toActionId = 0 then ["a", "b"] else ["in"]) := by decide
    exact haccepts _ (hall binding (mem_of_bindings hmem) hto)

theorem diamond_solution :
    (diamond.equations diamond_straight dataRequest diamondFunction).Solution diamondOutputs := by
  intro id
  by_cases hid : 0 ≤ id
  · rw [equations_eval hid]
    funext name
    unfold diamondFunction
    by_cases hle : id ≤ 3
    · rw [if_pos ⟨hid, hle⟩]
      unfold collects diamondOutputs
      by_cases hname : name = "out"
      · simp only [if_pos hname]
        interval_cases id <;> rfl
      · simp only [if_neg hname]
    · have hne : ∀ k : ℤ, k ≤ 3 → id ≠ k := fun k hk heq => hle (heq ▸ hk)
      rw [if_neg fun h => hle h.2]
      unfold diamondOutputs
      simp [hne 0, hne 1, hne 2, hne 3]
  · have hne : ∀ k : ℤ, 0 ≤ k → id ≠ k := fun k hk heq => hid (heq ▸ hk)
    refine Eq.trans ?_ (if_neg hid).symm
    funext name
    unfold diamondOutputs
    simp [hne 0, hne 1, hne 2, hne 3]

theorem diamond_flowing : diamond.Flowing dataRequest diamondAccepts diamondOutputs where
  accepted id hlinked := by
    obtain ⟨hid, hle⟩ := diamond_linked.mp hlinked
    have hall : ∀ name ∈ (if id = 0 then ["a", "b"] else ["in"]),
        (diamond.inputsOf dataRequest diamondOutputs id name).isSome = true := by
      interval_cases id <;> decide
    intro name hmem
    exact Option.isSome_iff_ne_none.mp (hall name hmem)
  unskipped id name _ := by
    have hstarter : diamond.prepared (.ofRequest dataRequest) =
        ((Session.ofRequest dataRequest).setStatuses diamond.actions.keys .unplanned).setInput 2 "in"
          (some (.leaf "Sample" "data")) := rfl
    unfold inputsOf
    cases diamond.feeder id name with
    | none =>
      dsimp only
      rw [hstarter, Session.getInput_setInput]
      split_ifs <;> rfl
    | some binding =>
      unfold diamondOutputs
      dsimp only
      split_ifs <;> rfl
  finish id _ binding _ _ := by
    unfold diamondOutputs
    dsimp only
    split_ifs <;> rfl

theorem diamond_ownResults : diamond.OwnResults :=
  have hadd : ∀ {m : StateMachine Unit} (names : List String) (id : ℤ) (bindings : List OutputBinding),
      m.OwnResults → (m.addAction id (collecting names) bindings).OwnResults := fun _ id bindings h =>
    h.addAction id (fun _ _ _ => rfl) (fun _ _ _ _ => rfl) bindings
  hadd _ _ _ (hadd _ _ _ (hadd _ _ _ (hadd _ _ _ ownResults_init)))

/-- The diamond computes what it says, though its numbers go against its order. -/
theorem diamond_computes : ∃ w', diamond.Returns ⟨.ofRequest dataRequest, (), []⟩ (.request dataRequest) w' ∧
    (∀ a, 0 ≤ a → (a ∈ performedIds w'.trace ↔ a ≤ 3)) ∧
    ∃ reply, replies w'.trace = [.finishReply reply] ∧ reply.getContext "result" = diamondOutputs 0 "out" := by
  have hlinked : diamond.Linked 0 := diamond_linked.mpr (by decide)
  have hsole : diamond.SoleBinding 0 (bindingTo 0 "out" Step.finish.id "result") :=
    soleBinding_of_entries diamond_straight.ordinary.initialised.constructed (.head _) (by decide) (by decide)
  obtain ⟨w', hreturns, -, hperformed, reply, hreply, hcarries⟩ :=
    computes_solution diamond_functional diamond_ownResults
    (by decide)
    (acyclic_of_rank (fun a => if a = 2 then 0 else if a = 0 then 2 else 1) (by decide)) diamond_solution
    diamond_flowing ⟨0, hlinked, _, hsole.mem, rfl⟩ dataRequest ()
  refine ⟨w', hreturns, fun a ha => ?_, reply, hreply, hcarries 0 _ hlinked hsole rfl⟩
  rw [hperformed a ha, diamond_linked]
  exact and_iff_right ha

end Sample

end LibWorkflow
