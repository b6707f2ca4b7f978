import LibWorkflow.Flow.Reply
import LibWorkflow.Flow.Termination

/-!
# The outcome of a normal run

A first call in which the ordinary actions are done and meet their contracts goes through phases (`Phase`):
it executes ordinary actions until none is left, then Finish, if an action that leads to it was performed,
or else Error, which reports that the workflow has no end; from either of them it goes on to Cleanup and Die.
The one reply is sent on the way (`outcome_of_normal_run`).

A starter may also name a reserved step, and then the call does something else: one that starts with
Cleanup sends no reply at all (`cleanup_without_reply`).
-/

namespace LibWorkflow

open Ordered Fallible

namespace StateMachine

variable {ω : Type} {m : StateMachine ω}

/-- The default steps; bindings of ordinary actions go to ordinary actions or to Finish, and starters to
ordinary actions only. -/
structure Straight (m : StateMachine ω) : Prop where
  ordinary : Ordinary m
  bindings : ∀ a b, 0 ≤ a → m.Leads a b → 0 ≤ b ∨ b = Step.finish.id
  starters : ∀ input ∈ m.starters, 0 ≤ input.actionId

/-- An action that leads to Finish was performed. -/
def Concluded (m : StateMachine ω) (trace : List Event) : Prop :=
  ∃ a ∈ performedIds trace, m.Leads a Step.finish.id

/-- Finish holds no `SkipCtx`. -/
def FinishOpen (s : Session) : Prop :=
  ∀ name ctx, s.getInput Step.finish.id name = some ctx → ctx.isSkip = false

/-- The result delivers no `SkipCtx` to Finish. -/
def DeliversNoSkip (m : StateMachine ω) (w : World ω) (result : Result) : Prop :=
  ∀ output ∈ m.bindings result.actionId, output.toActionId = Step.finish.id →
    (w.session.getOutput result.actionId output.fromActionOutput).all (fun ctx => !ctx.isSkip) = true

instance (m : StateMachine ω) (w : World ω) (result : Result) : Decidable (m.DeliversNoSkip w result) :=
  inferInstanceAs (Decidable (∀ _ ∈ _, _ → _))

end StateMachine

/-- What is performed is done, meets its contract and delivers no `SkipCtx` to Finish, as far as ordinary
actions go. -/
def Config.Normal {ω : Type} (m : StateMachine ω) : Config ω → Prop
  | .running (.actionExecuted result) w =>
    0 ≤ result.actionId → m.Fulfils w result ∧ m.DeliversNoSkip w result
  | _ => True

instance {ω : Type} (m : StateMachine ω) : (c : Config ω) → Decidable (c.Normal m)
  | .running (.actionExecuted _) _ => inferInstanceAs (Decidable (_ → _ ∧ _))
  | .running (.executeAction _) _ | .returned _ | .crashed _ _ => inferInstanceAs (Decidable True)

namespace StateMachine

variable {ω : Type} {m : StateMachine ω} {w : World ω} {out : Onward ω}

/-! ### Finish is bound -/

theorem FinishOpen.of_inputs {s s' : Session} (hopen : FinishOpen s) (h : s'.inputs = s.inputs) :
    FinishOpen s' := by
  intro name ctx hinput
  apply hopen name ctx
  unfold Session.getInput at hinput ⊢
  rwa [h] at hinput

theorem FinishOpen.setInput {s : Session} (hopen : FinishOpen s) {a : ℤ} {name : String} {ctx : Option Context}
    (hskip : a = Step.finish.id → ctx.all (fun ctx => !ctx.isSkip) = true) :
    FinishOpen (s.setInput a name ctx) := by
  intro other found hinput
  rw [Session.getInput_setInput] at hinput
  split_ifs at hinput with hname
  · have hall := hskip hname.1.symm
    rw [hinput] at hall
    simpa using hall
  · exact hopen other found hinput

theorem Bound.finishOpen {env : ω} {id : ℤ} {output : OutputBinding} {s s' : Session}
    (h : m.Bound env id output s s') (hopen : FinishOpen s)
    (hskip : output.toActionId = Step.finish.id →
      (s.getOutput id output.fromActionOutput).all (fun ctx => !ctx.isSkip) = true) : FinishOpen s' := by
  cases h with
  | target _ hplaced => exact (hopen.setInput hskip).of_inputs hplaced.inputs
  | die => exact hopen
  | absent => exact hopen

theorem Placed.finish_active {env : ω} {s s' : Session}
    (h : m.Placed env s Step.finish.id (defaultPtr ω Step.finish.id) s') (hopen : FinishOpen s) :
    s'.Active Step.finish.id := by
  cases h with
  | skipped hskipped =>
    obtain ⟨name, ctx, hinput, hskip⟩ := Session.hasSkipInput_iff.mp hskipped
    rw [hopen name ctx hinput] at hskip
    cases hskip
  | planned => exact .inl (OrdSet.mem_insert.mpr (.inl rfl))
  | pending => exact .inr (OrdSet.mem_insert.mpr (.inl rfl))
  | unplanned _ _ hpend => exact nomatch hpend

theorem Bound.finish_active (hm : Ordinary m) {env : ω} {id : ℤ} {output : OutputBinding} {s s' : Session}
    (h : m.Bound env id output s s') (hopen : FinishOpen s)
    (hskip : output.toActionId = Step.finish.id →
      (s.getOutput id output.fromActionOutput).all (fun ctx => !ctx.isSkip) = true)
    (hactive : s.Active Step.finish.id ∨ output.toActionId = Step.finish.id) : s'.Active Step.finish.id := by
  have hfinish : m.actions.find? Step.finish.id = some (defaultPtr ω Step.finish.id) :=
    hm.find?_default (.inr (.inl rfl))
  by_cases hto : output.toActionId = Step.finish.id
  · cases h with
    | @target ptr _ hptr hplaced =>
      have hset : FinishOpen (s.setInput output.toActionId output.toActionInput
          (s.getOutput id output.fromActionOutput)) := hopen.setInput hskip
      rw [hto] at hptr hplaced hset
      cases hfinish.symm.trans hptr
      exact hplaced.finish_active hset
    | die hdie =>
      rw [hto] at hdie
      exact absurd hdie (by decide)
    | absent _ hreg =>
      rw [hto] at hreg
      exact absurd ⟨_, hfinish⟩ hreg
  · have hkept := h.reschedules.kept Step.finish.id fun heq => hto heq.symm
    rcases hactive.resolve_right hto with hmem | hmem
    · exact .inl (hkept.1.mpr hmem)
    · exact .inr (hkept.2.mpr hmem)

theorem foldlM_finish (hm : Ordinary m) {env : ω} {id : ℤ} {l : List OutputBinding} {s s' : Session}
    (h : l.foldlM (m.bindResult env id) s = .ok s') (hopen : FinishOpen s)
    (hskip : ∀ output ∈ l, output.toActionId = Step.finish.id →
      (s.getOutput id output.fromActionOutput).all (fun ctx => !ctx.isSkip) = true) :
    FinishOpen s' ∧ (s.Active Step.finish.id ∨ (∃ output ∈ l, output.toActionId = Step.finish.id) →
      s'.Active Step.finish.id) := by
  induction l generalizing s with
  | nil =>
    cases h
    exact ⟨hopen, fun hactive => hactive.resolve_right fun ⟨_, hmem, _⟩ => nomatch hmem⟩
  | cons output l ih =>
    rw [List.foldlM_cons] at h
    obtain ⟨s₁, hstep, hrest⟩ := bind_eq_ok.mp h
    have hbound := bindResult_cases hstep
    have hsame : s₁.outputs = s.outputs := hbound.reschedules.outputs
    have hopen₁ := hbound.finishOpen hopen (hskip output (.head l))
    have hactive₁ := hbound.finish_active hm hopen (hskip output (.head l))
    have hskip₁ : ∀ o ∈ l, o.toActionId = Step.finish.id →
        (s₁.getOutput id o.fromActionOutput).all (fun ctx => !ctx.isSkip) = true := by
      intro o ho hto
      unfold Session.getOutput
      rw [hsame]
      exact hskip o (.tail _ ho) hto
    obtain ⟨hopen', hactive'⟩ := ih hrest hopen₁ hskip₁
    refine ⟨hopen', fun hor => hactive' ?_⟩
    rcases hor with hactive | ⟨o, ho, hto⟩
    · exact .inl (hactive₁ (.inl hactive))
    · rcases List.mem_cons.mp ho with rfl | ho
      · exact .inl (hactive₁ (.inr hto))
      · exact .inr ⟨o, ho, hto⟩

/-! ### Phases -/

def FinishReplied (trace : List Event) : Prop := ∃ reply, replies trace = [.finishReply reply]

def ErrorReplied (key : String) (trace : List Event) : Prop :=
  ∃ reply report, replies trace = [.errorReply reply] ∧ reply.report = some report ∧ report.getErrorKey = key

/-- One reply was sent: that of Finish if an action that leads to Finish was performed, and otherwise that of
Error, for a workflow without an end. -/
def Replied (m : StateMachine ω) (trace : List Event) : Prop :=
  (m.Concluded trace → FinishReplied trace) ∧
    (¬m.Concluded trace → ErrorReplied "statemachine.unexpected.noend" trace)

/-- The workflow is being performed. `Pending` says whether the result consumed next leads to Finish. -/
structure Flow (m : StateMachine ω) (Pending : Prop) (s : Session) (trace : List Event) : Prop where
  unanswered : replies trace = []
  active : ∀ a, s.Active a → 0 ≤ a ∨ a = Step.finish.id
  finish : s.Active Step.finish.id → m.Concluded trace
  bound : m.Concluded trace → s.Active Step.finish.id ∨ Pending
  finishOpen : FinishOpen s
  done : ∀ a, s.status.find? a = some .done → a ∈ performedIds trace

/-- What is chosen: nothing where nothing is left, and Finish only when it is all that is left. -/
structure Chosen (s : Session) (id : ℤ) : Prop where
  idle : id = -1 → s.Idle
  active : id ≠ -1 → s.Active id
  finish : id = Step.finish.id → ∀ a, s.Active a → a = Step.finish.id

/-- The workflow has no end. -/
structure NoEnd (m : StateMachine ω) (w : World ω) : Prop where
  unanswered : replies w.trace = []
  notConcluded : ¬m.Concluded w.trace
  report : ∃ er : ErrorReport, w.session.lastRequest.report = some er ∧
    er.root.errorKey = "statemachine.unexpected.noend"

/-- Where a normal run stands: it performs the workflow, fails for want of an end, or is on its way from
Finish or Error to Cleanup and Die. -/
inductive Phase (m : StateMachine ω) : Config ω → Prop
  | execute {id : ℤ} {w : World ω} (hflow : m.Flow False w.session w.trace) (hchosen : Chosen w.session id) :
      Phase m (.running (.executeAction id) w)
  | consume {result : Result} {w : World ω} (hpos : 0 ≤ result.actionId)
      (hperformed : result.actionId ∈ performedIds w.trace)
      (hflow : m.Flow (m.Leads result.actionId Step.finish.id) w.session w.trace) :
      Phase m (.running (.actionExecuted result) w)
  | fail {w : World ω} (hnoend : m.NoEnd w) : Phase m (.running (.executeAction Step.error.id) w)
  | leave {id : ℤ} {w : World ω} (hid : IsDefault id) (hreplied : m.Replied w.trace) (hidle : w.session.Idle) :
      Phase m (.running (.actionExecuted ⟨id, .done, none⟩) w)
  | onward {id : ℤ} {w : World ω} (hid : IsDefault id) (hreplied : m.Replied w.trace) :
      Phase m (.running (.executeAction (defaultTarget id)) w)
  | ended {w : World ω} {trace : List Event} (hreplied : m.Replied w.trace)
      (hdie : ∃ request, w.trace = trace ++ [.requestFinished request]) : Phase m (.returned w)

/-! ### Performing the workflow -/

theorem concluded_snoc {trace trace' : List Event} {id : ℤ}
    (htrace : performedIds trace' = performedIds trace ++ [id]) :
    m.Concluded trace' ↔ m.Concluded trace ∨ m.Leads id Step.finish.id := by
  unfold Concluded
  rw [htrace]
  simp only [List.mem_append, List.mem_singleton, or_and_right, exists_or, exists_eq_left]

theorem Ordinary.not_leads_finish (hm : Ordinary m) {id : ℤ} (hid : IsDefault id) :
    ¬m.Leads id Step.finish.id := by
  rw [hm.leads_default hid]
  rcases hid with rfl | rfl | rfl <;> decide

theorem concluded_default (hm : Ordinary m) {trace trace' : List Event} {id : ℤ} (hid : IsDefault id)
    (htrace : performedIds trace' = performedIds trace ++ [id]) :
    m.Concluded trace' ↔ m.Concluded trace := by
  rw [concluded_snoc htrace]
  exact or_iff_left (hm.not_leads_finish hid)

/-- Among ordinary actions and Finish, Finish is picked when it is all that is left. -/
theorem Picked.finish {s : Session} (h : Picked s Step.finish.id) (hneg : -1 ∉ s.pendings)
    (hactive : ∀ a, s.Active a → 0 ≤ a ∨ a = Step.finish.id) : ∀ a, s.Active a → a = Step.finish.id := by
  refine h.only rfl hneg fun a ha => ?_
  rcases hactive a ha with hpos | rfl
  · exact le_trans (by decide) hpos
  · exact le_refl _

theorem Replied.congr {trace trace' : List Event} (h : m.Replied trace)
    (hperformed : performedIds trace' = performedIds trace) (hreplies : replies trace' = replies trace) :
    m.Replied trace' := by
  unfold Replied Concluded FinishReplied ErrorReplied
  rw [hperformed, hreplies]
  exact h

theorem Replied.default (hm : Ordinary m) {trace trace' : List Event} {id : ℤ} (h : m.Replied trace)
    (hid : IsDefault id) (hperformed : performedIds trace' = performedIds trace ++ [id])
    (hreplies : replies trace' = replies trace) : m.Replied trace' := by
  unfold Replied FinishReplied ErrorReplied
  rw [concluded_default hm hid hperformed, hreplies]
  exact h

/-- What `getNext` chooses of a workflow being performed. -/
theorem Flow.getNext (hm : m.Laid) {s s' : Session} {trace : List Event} {next : ℤ} (hground : m.Grounded s)
    (h : m.Flow False s trace) (hnext : m.getNext s = .ok (next, s')) :
    m.Flow False s' trace ∧ Chosen s' next := by
  obtain ⟨hpromotes, hpicked⟩ := getNext_spec hnext
  obtain ⟨-, hidle, hplanned⟩ := hground.getNext hm hnext
  have hiff := hpromotes.active_iff
  have hflow : m.Flow False s' trace := by
    refine ⟨h.unanswered, fun a ha => h.active a ((hiff a).mp ha), fun ha => h.finish ((hiff _).mp ha),
      fun hc => (h.bound hc).imp_left (hiff _).mpr, fun name ctx hinput => ?_, fun a hst => ?_⟩
    · apply h.finishOpen name ctx
      unfold Session.getInput at hinput ⊢
      rwa [hpromotes.inputs] at hinput
    · exact h.done a (hpromotes.reschedules.status_of_started hst (by simp [ExecutionStatus.NotStarted]))
  refine ⟨hflow, hidle, fun hne => .inl (hplanned hne), ?_⟩
  rintro rfl
  have hneg : -1 ∉ s'.pendings := fun hmem =>
    hm.not_registered (.inl rfl) (hground.pendings _ (hpromotes.mem_pendings hmem))
  exact hpicked.finish hneg hflow.active

theorem Flow.perform {s : Session} {w' : World ω} {id : ℤ} (h : m.Flow False w.session w.trace) (hpos : 0 ≤ id)
    (hbegin : s = (w.session.removeFromNext id).removeFromPending id) (hsame : s.SameFlow w'.session)
    (hperformed : performedIds w'.trace = performedIds w.trace ++ [id])
    (hreplies : replies w'.trace = replies w.trace) :
    m.Flow (m.Leads id Step.finish.id) w'.session w'.trace := by
  subst hbegin
  have hiff : ∀ a, w'.session.Active a ↔ w.session.Active a ∧ a ≠ id := by
    intro a
    unfold Session.Active
    rw [hsame.nexts, hsame.pendings]
    simp only [Session.removeFromNext, Session.removeFromPending, OrdSet.mem_erase]
    constructor
    · rintro (⟨hne, ha⟩ | ⟨hne, ha⟩)
      · exact ⟨.inl ha, hne⟩
      · exact ⟨.inr ha, hne⟩
    · rintro ⟨ha | ha, hne⟩
      · exact .inl ⟨hne, ha⟩
      · exact .inr ⟨hne, ha⟩
  have hfinish : Step.finish.id ≠ id := fun heq => absurd (heq ▸ hpos) (by decide)
  have hconcluded := concluded_snoc (m := m) hperformed
  refine ⟨hreplies.trans h.unanswered, fun a ha => h.active a ((hiff a).mp ha).1, fun ha => ?_, fun hc => ?_,
    fun name ctx hinput => ?_, fun a hst => ?_⟩
  · exact hconcluded.mpr (.inl (h.finish ((hiff _).mp ha).1))
  · rcases hconcluded.mp hc with hbefore | hleads
    · exact .inl ((hiff _).mpr ⟨(h.bound hbefore).resolve_right not_false, hfinish⟩)
    · exact .inr hleads
  · apply h.finishOpen name ctx
    unfold Session.getInput at hinput ⊢
    rwa [hsame.inputs] at hinput
  · rw [hsame.status] at hst
    rw [hperformed]
    exact List.mem_append_left _ (h.done a hst)

/-! ### One call -/

theorem default_phase (hm : Ordinary m) {id : ℤ} (hid : IsDefault id)
    (hreplied : ∀ trace', performedIds trace' = performedIds w.trace ++ [id] →
      replies trace' = replies w.trace ++
        (defaultPtr ω id).wrapReplies m.getExpectedOutput (m.beginAction w.session id) → m.Replied trace')
    (hidle : (m.beginAction w.session id).Idle) (h : m.executeAction w id = .ok out) :
    m.Phase (.after out) := by
  have hlaid := hm.initialised.laid
  have hptr := hm.find?_default hid
  rw [hm.executeAction_default hid] at h
  cases h
  have hperform := perform_defaultPtr hid m.getExpectedOutput ⟨m.beginAction w.session id, w.env, w.trace⟩
  have hperformed := performedIds_perform hlaid hptr hperform
  have hreplies := replies_perform hperform
  exact .leave hid (hreplied _ hperformed hreplies) hidle

theorem ordinary_phase (hm : m.Laid) (hown : m.OwnResults) {id : ℤ} {ptr : ActionPtr ω} (hpos : 0 ≤ id)
    (hptr : m.actions.find? id = some ptr) (hflow : m.Flow False w.session w.trace) {w' : World ω}
    {result : Result} (hperform : ptr.perform m.getExpectedOutput
      { w with session := m.beginAction w.session id } = (w', result)) :
    m.Phase (.running (.actionExecuted result) w') := by
  have hsame := ptr.sameFlow_of_perform hperform
  have hperformed := performedIds_perform hm hptr hperform
  have hreplies := replies_perform hperform
  have hresult : result.actionId = id := hown.perform hm hptr hperform
  have hnot : ¬Replies id := by
    rintro (rfl | rfl)
    · exact absurd hpos (by decide)
    · exact absurd hpos (by decide)
  have hbegin : m.beginAction w.session id = (w.session.removeFromNext id).removeFromPending id := by
    unfold beginAction
    dsimp only
    rw [if_neg]
    simp only [leavesFlow, Bool.or_eq_true, decide_eq_true_eq]
    rintro ((rfl | rfl) | rfl) <;> exact absurd hpos (by decide)
  have hmem : id ∈ performedIds w'.trace := by
    rw [hperformed]
    exact List.mem_append_right _ (List.mem_singleton.mpr rfl)
  refine .consume (hresult ▸ hpos) (hresult ▸ hmem) ?_
  rw [hresult]
  refine hflow.perform hpos hbegin hsame hperformed (hreplies.trans ?_)
  rw [wrapReplies_eq_nil hm hptr hnot, List.append_nil]

theorem finish_phase (hm : Ordinary m) (hflow : m.Flow False w.session w.trace)
    (hchosen : Chosen w.session Step.finish.id) (h : m.executeAction w Step.finish.id = .ok out) :
    m.Phase (.after out) := by
  have hid : IsDefault Step.finish.id := .inr (.inl rfl)
  have hconcluded : m.Concluded w.trace := hflow.finish (hchosen.active (by decide))
  refine default_phase hm hid (fun trace' hperformed hreplies => ?_) ?_ h
  · rw [hflow.unanswered] at hreplies
    have hconcluded' := (concluded_default hm hid hperformed).mpr hconcluded
    exact ⟨fun _ => ⟨_, hreplies⟩, fun hnot => absurd hconcluded' hnot⟩
  · refine ⟨OrdSet.eq_empty_iff.mpr fun a ha => ?_, OrdSet.eq_empty_iff.mpr fun a ha => ?_⟩
    · obtain ⟨hactive, hne, -⟩ := active_beginAction (m := m) (.inl ha)
      exact hne (hchosen.finish rfl a hactive)
    · obtain ⟨hactive, hne, -⟩ := active_beginAction (m := m) (.inr ha)
      exact hne (hchosen.finish rfl a hactive)

theorem chosen_phase (hm : Ordinary m) (hown : m.OwnResults) {id : ℤ} (hcalled : m.Called w.session id)
    (hflow : m.Flow False w.session w.trace) (hchosen : Chosen w.session id)
    (h : m.executeAction w id = .ok out) : m.Phase (.after out) := by
  have hlaid := hm.initialised.laid
  cases executeAction_cases h with
  | die =>
    rcases hflow.active _ (hchosen.active (by decide)) with hpos | heq
    · exact absurd hpos (by decide)
    · exact absurd heq (by decide)
  | nothing h =>
    have hidle := hchosen.idle rfl
    have hnot : ¬m.Concluded w.trace := fun hconcluded =>
      Session.not_active_of_idle hidle _ ((hflow.bound hconcluded).resolve_right not_false)
    cases executeNone_cases hidle h with
    | finish hexec =>
      obtain ⟨a, hleads, hdone⟩ := canExecuteFinish_eq_true hlaid hexec
      exact absurd ⟨a, hflow.done a hdone, hleads⟩ hnot
    | error => exact .fail ⟨hflow.unanswered, hnot, noend w.session, rfl, rfl⟩
  | @action _ ptr hdie hneg hptr w' result hperform =>
    rcases hm.registered_cases ⟨ptr, hptr⟩ with hid | hpos
    · have hfinish : id = Step.finish.id :=
        (hflow.active id (hchosen.active hneg)).resolve_left (not_le.mpr hid.neg)
      subst hfinish
      exact finish_phase hm hflow hchosen h
    · exact ordinary_phase hlaid hown hpos hptr hflow hperform
  | absent hdie hneg hreg =>
    have hfinish : m.Registered Step.finish.id := hm.registered_default (.inr (.inl rfl))
    exact absurd (hcalled.registered hfinish (hm.registered_default (.inl rfl)) hneg hdie) hreg

theorem fail_phase (hm : Ordinary m) (hnoend : m.NoEnd w) (h : m.executeAction w Step.error.id = .ok out) :
    m.Phase (.after out) := by
  have hid : IsDefault Step.error.id := .inl rfl
  refine default_phase hm hid (fun trace' hperformed hreplies => ?_) ⟨rfl, rfl⟩ h
  have hconcluded := concluded_default hm hid hperformed
  refine ⟨fun hc => absurd (hconcluded.mp hc) hnoend.notConcluded, fun _ => ?_⟩
  obtain ⟨er, hreport, hkey⟩ := hnoend.report
  rw [hnoend.unanswered] at hreplies
  refine ⟨_, _, hreplies, rfl, ?_⟩
  show (ErrorReportOf.rethrow _ w.session.lastRequest.report).getErrorKey = _
  rw [hreport]
  exact hkey

theorem onward_phase (hm : Ordinary m) {before : ℤ} (hreplied : m.Replied w.trace)
    (h : m.executeAction w (defaultTarget before) = .ok out) : m.Phase (.after out) := by
  by_cases hcleanup : before = Step.cleanup.id
  · have htarget : defaultTarget before = Step.die.id := if_pos hcleanup
    rw [htarget] at h
    cases h
    have hperformed : performedIds (w.trace ++ [.requestFinished w.session.request]) = performedIds w.trace :=
      (performedIds_append _ _).trans (List.append_nil _)
    have hreplies : replies (w.trace ++ [.requestFinished w.session.request]) = replies w.trace :=
      (replies_append _ _).trans (List.append_nil _)
    exact .ended (hreplied.congr hperformed hreplies) ⟨_, rfl⟩
  · have htarget : defaultTarget before = Step.cleanup.id := if_neg hcleanup
    rw [htarget] at h
    have hid : IsDefault Step.cleanup.id := .inr (.inr rfl)
    refine default_phase hm hid (fun trace' hperformed hreplies => ?_) ⟨rfl, rfl⟩ h
    exact hreplied.default hm hid hperformed (hreplies.trans (List.append_nil _))

theorem executeAction_phase (hm : Ordinary m) (hown : m.OwnResults) {id : ℤ}
    (hcalled : m.Called w.session id) (hphase : m.Phase (.running (.executeAction id) w))
    (h : m.executeAction w id = .ok out) : m.Phase (.after out) := by
  cases hphase with
  | execute hflow hchosen => exact chosen_phase hm hown hcalled hflow hchosen h
  | fail hnoend => exact fail_phase hm hnoend h
  | onward _ hreplied => exact onward_phase hm hreplied h

theorem Flow.bindResults (hm : m.Straight) {result : Result} {s : Session} (hpos : 0 ≤ result.actionId)
    (hperformed : result.actionId ∈ performedIds w.trace)
    (h : m.Flow (m.Leads result.actionId Step.finish.id) w.session w.trace)
    (hskip : m.DeliversNoSkip w result)
    (hbind : m.bindResults w.env (w.session.setStatus result.actionId .done) result.actionId = .ok s) :
    m.Flow False s w.trace := by
  have hbound := bindResults_reschedules hbind
  have hopen : FinishOpen (w.session.setStatus result.actionId .done) := h.finishOpen
  obtain ⟨hopen', hfinish⟩ := foldlM_finish hm.ordinary hbind hopen hskip
  refine ⟨h.unanswered, fun a ha => ?_, fun ha => ?_, fun hc => .inl (hfinish (h.bound hc)), hopen',
    fun a hst => ?_⟩
  · exact (hbound.active ha).elim (h.active a) (hm.bindings _ a hpos)
  · exact (hbound.active ha).elim h.finish fun hleads => ⟨_, hperformed, hleads⟩
  · have hst := hbound.status_of_started hst (by simp [ExecutionStatus.NotStarted])
    by_cases heq : a = result.actionId
    · exact heq ▸ hperformed
    · exact h.done a ((OrdMap.find?_insert_of_ne _ _ heq).symm.trans hst)

theorem actionExecuted_phase (hm : m.Straight) {result : Result}
    (hc : (Config.running (.actionExecuted result) w).Conducted m)
    (hnormal : (Config.running (.actionExecuted result) w).Normal m)
    (hphase : m.Phase (.running (.actionExecuted result) w)) (h : m.actionExecuted w result = .ok out) :
    m.Phase (.after out) := by
  have hlaid := hm.ordinary.initialised.laid
  have hground : m.Grounded w.session := hc.grounded
  obtain ⟨ptr, hptr, hconsumed⟩ := actionExecuted_cases h
  have hbound : ∀ {s}, m.bindResults w.env (w.session.setStatus result.actionId .done) result.actionId =
      .ok s → m.Grounded s := fun hbind =>
    (hground.setStatus ⟨ptr, hptr⟩ .done).reschedules (bindResults_reschedules hbind)
  have hfulfils : m.Fulfils w result := by
    cases hphase with
    | consume hpos => exact (hnormal hpos).1
    | leave hid => exact hm.ordinary.fulfils_default hid w
  obtain ⟨s, s', next, hbind, hnext, rfl⟩ := hfulfils.consumed hptr hconsumed
  cases hphase with
  | consume hpos hperformed hflow =>
    have hflow := hflow.bindResults hm hpos hperformed (hnormal hpos).2 hbind
    obtain ⟨hflow', hchosen⟩ := hflow.getNext hlaid (hbound hbind) hnext
    exact .execute hflow' hchosen
  | @leave id _ hid hreplied hidle =>
    have hclean : Clean (w.session.setStatus id .done) := hc.tidy.1.clean.congr rfl rfl
    obtain ⟨hactive, honly⟩ := active_of_default hm.ordinary hclean hid hbind
    have hnext : next = defaultTarget id := by
      refine getNext_of_only hlaid (hbound hbind) hactive (fun a ha => ?_) hnext
      exact (honly a ha).resolve_left (Session.not_active_of_idle hidle a)
    rw [hnext]
    exact .onward hid hreplied

/-! ### The first call -/

theorem Straight.starter_ne (hm : m.Straight) {id : ℤ} (hid : id < 0) :
    ∀ input ∈ m.starters, input.actionId ≠ id := fun input hmem heq =>
  absurd (hm.starters input hmem) (not_le.mpr (heq ▸ hid))

theorem Straight.sparesCleanup (hm : m.Straight) (request : Request) : m.SparesCleanup request := by
  unfold SparesCleanup
  rw [← Bool.not_eq_true, Session.hasSkipInput_iff]
  rintro ⟨name, ctx, hinput, -⟩
  rw [getInput_setStarterInputs fun i hi heq => absurd heq (hm.starter_ne (by decide) i hi)] at hinput
  cases hinput

theorem firstCall_phase (hm : m.Straight) (hvalid : m.validate = none) {request first : Request} {env : ω}
    (h : m.firstCall ⟨(Session.ofRequest request).pushRequest first, env, []⟩ = .ok out) :
    m.Phase (.after out) := by
  have hlaid := hm.ordinary.initialised.laid
  obtain ⟨s, s', next, hstarters, hnext, rfl⟩ := firstCall_of_validate hvalid h
  have hinputs := scheduleStarters_inputs hstarters
  have hscheduled := scheduleStarters_reschedules hstarters
  have hset : m.Reschedules (fun _ => False)
      (((Session.ofRequest request).pushRequest first).setStatuses m.actions.keys .unplanned)
      (m.prepared ((Session.ofRequest request).pushRequest first)) := setStarterInputs_reschedules _ _
  have hactive : ∀ a, s.Active a → 0 ≤ a := by
    intro a ha
    rcases hscheduled.active ha with hprepared | ⟨input, hmem, rfl⟩
    · rcases hset.active hprepared with hbefore | hfalse
      · exact absurd hbefore (Session.not_active_of_idle ⟨rfl, rfl⟩ a)
      · exact hfalse.elim
    · exact hm.starters input hmem
  have hground : m.Grounded s := by
    have hopened : m.Grounded ((Session.ofRequest request).pushRequest first) :=
      (Grounded.ofRequest request).congr rfl rfl rfl
    exact (hopened.setStatuses.reschedules hset).reschedules hscheduled
  have hflow : m.Flow False s [] := by
    refine ⟨rfl, fun a ha => .inl (hactive a ha), fun ha => absurd (hactive _ ha) (by decide),
      fun ⟨a, hmem, _⟩ => (nomatch hmem), fun name ctx hinput => ?_, fun a hst => ?_⟩
    · have hnone : (m.prepared ((Session.ofRequest request).pushRequest first)).getInput Step.finish.id name =
          none := getInput_setStarterInputs fun i hi heq => absurd heq (hm.starter_ne (by decide) i hi)
      unfold Session.getInput at hinput hnone
      rw [hinputs, hnone] at hinput
      cases hinput
    · have hnot : ¬ExecutionStatus.NotStarted .done := by simp [ExecutionStatus.NotStarted]
      have hst := hset.status_of_started (hscheduled.status_of_started hst hnot) hnot
      have hst : ((∅ : OrdMap ℤ ExecutionStatus).insertAll m.actions.keys .unplanned).find? a = some .done := hst
      rw [OrdMap.find?_insertAll] at hst
      split_ifs at hst <;> cases hst
  obtain ⟨hflow', hchosen⟩ := hflow.getNext hlaid hground hnext
  exact .execute hflow' hchosen

theorem receive_phase (hm : m.Straight) (hown : m.OwnResults) (hvalid : m.validate = none)
    (request first : Request) (env : ω) :
    let c := Config.ofStep ⟨.ofRequest request, env, []⟩
      (m.receive ⟨.ofRequest request, env, []⟩ (.request first))
    c.Conducted m ∧ m.Phase c := by
  have hlaid := hm.ordinary.initialised.laid
  have hopened : m.Grounded (Session.ofRequest request) := .ofRequest request
  have hpush : m.Grounded ((Session.ofRequest request).pushRequest first) := hopened.congr rfl rfl rfl
  obtain ⟨out, h⟩ := firstCall_succeeds hlaid (w := ⟨(Session.ofRequest request).pushRequest first, env, []⟩) hpush
  have hreceive : m.receive ⟨.ofRequest request, env, []⟩ (.request first) = .ok out := h
  have hasync : CompletesAsync (Config.returned (⟨.ofRequest request, env, []⟩ : World ω))
      (some (.request first)) := fun _ heq => nomatch heq
  intro c
  have hc : c = .after out := congrArg (Config.ofStep _) hreceive
  rw [hc]
  refine ⟨?_, firstCall_phase hm hvalid h⟩
  exact {
    grounded := receive_grounded (w := ⟨.ofRequest request, env, []⟩) hlaid hopened hreceive
    statused := receive_statused (w := ⟨.ofRequest request, env, []⟩) hlaid (.inl rfl) hasync hreceive
    answerable := receive_answerable hlaid hown hreceive
    tidy := firstCall_tidy (w := ⟨(Session.ofRequest request).pushRequest first, env, []⟩) hvalid
      (hm.sparesCleanup request) rfl rfl rfl rfl h }

/-- Each call of a normal run goes on to the next phase. -/
theorem next_phase (hm : m.Straight) (hown : m.OwnResults) {c c' : Config ω} (hc : c.Conducted m)
    (hnormal : c.Normal m) (hphase : m.Phase c) (hnext : m.system.next c = some c') : m.Phase c' := by
  have hlaid := hm.ordinary.initialised.laid
  rcases c with ⟨id | result, w⟩ | _ | _
  · obtain ⟨out, h⟩ := executeAction_succeeds hm.ordinary.initialised hc.grounded.nothing hc.statused
    have hc' : c' = .after out := (Option.some.inj hnext).symm.trans (congrArg (Config.ofStep w) h)
    rw [hc']
    exact executeAction_phase hm.ordinary hown hc.grounded hphase h
  · obtain ⟨out, h⟩ := actionExecuted_succeeds hlaid hc.grounded hc.statused hc.answerable
    have hc' : c' = .after out := (Option.some.inj hnext).symm.trans (congrArg (Config.ofStep w) h)
    rw [hc']
    exact actionExecuted_phase hm hc hnormal hphase h
  · cases hnext
  · cases hnext

/-- **The outcome of a normal run.** On the default steps and an acyclic workflow that ends in Finish, whose
starters name ordinary actions, the first call of a session in which performed actions are done, meet their
contracts and deliver no `SkipCtx` to Finish returns after Die, and has sent one reply: that of Finish if an
action that leads to Finish was performed, else that of Error for a workflow without an end. -/
theorem outcome_of_normal_run (hm : m.Straight) (hown : m.OwnResults) (hvalid : m.validate = none)
    (hacyclic : m.Acyclic) {request first : Request} {env : ω}
    (hnormal : ∀ n, (m.system.advance n (.ofStep ⟨.ofRequest request, env, []⟩
      (m.receive ⟨.ofRequest request, env, []⟩ (.request first)))).Normal m) :
    ∃ w', m.Returns ⟨.ofRequest request, env, []⟩ (.request first) w' ∧
      (∃ trace finished, w'.trace = trace ++ [.requestFinished finished]) ∧
      (m.Concluded w'.trace → FinishReplied w'.trace) ∧
      (¬m.Concluded w'.trace → ErrorReplied "statemachine.unexpected.noend" w'.trace) := by
  obtain ⟨weight, hweight⟩ := hacyclic.exists_weighs hm.ordinary.initialised.laid
  obtain ⟨hconducted, hphase⟩ := receive_phase hm hown hvalid request first env
  have hlater : ∀ n (c : Config ω), c.Conducted m → m.Phase c → (∀ k, (m.system.advance k c).Normal m) →
      m.Phase (m.system.advance n c) := by
    intro n
    induction n with
    | zero => exact fun c _ hphase _ => hphase
    | succ n ih =>
      intro c hc hphase hnormal
      cases hnext : m.system.next c with
      | none =>
        rw [Reactive.System.advance_of_settled hnext]
        exact hphase
      | some c' =>
        rw [Reactive.System.advance_succ_of_next hnext]
        refine ih c' (next_conducted hm.ordinary hown hvalid hweight hc hnext).1
          (next_phase hm hown hc (hnormal 0) hphase hnext) fun k => ?_
        rw [← Reactive.System.advance_succ_of_next hnext]
        exact hnormal (k + 1)
  obtain ⟨n, w', hlast, -⟩ := returns_of_conducted hm.ordinary hown hvalid hweight hconducted
  have hend := hlater n _ hconducted hphase hnormal
  rw [hlast] at hend
  cases hend with
  | @ended _ trace hreplied hdie =>
    obtain ⟨finished, htrace⟩ := hdie
    exact ⟨w', ⟨n, hlast⟩, ⟨trace, finished, htrace⟩, hreplied⟩

end StateMachine

namespace Sample

open StateMachine

/-- A first call that is normal until it returns is normal. -/
theorem normal_of_settled {m : StateMachine Unit} {k : ℕ} (hnormal : ∀ n < k, (started m n).Normal m)
    (hsettled : m.system.next (started m k) = none) (n : ℕ) : (started m n).Normal m := by
  refine Reactive.System.forall_advance (P := Config.Normal m) (k := k) (fun n hn => ?_) hsettled n
  rcases hn.lt_or_eq with hlt | rfl
  · exact hnormal n hlt
  · rcases hend : started m n with ⟨call, w⟩ | _ | _ <;> rw [hend] at hsettled
    · cases hsettled
    · change (started m n).Normal m
      rw [hend]
      trivial
    · change (started m n).Normal m
      rw [hend]
      trivial

theorem chain_straight : chain.Straight where
  ordinary := .addInput (.addAction (.addAction .init 0 (by decide) _ _) 1 (by decide) _ _) _
  bindings a b ha hleads := by
    obtain ⟨entry, hentry, rfl, output, houtput, rfl⟩ := exists_entry_of_leads hleads
    have hall : ∀ entry ∈ chain.outputs.entries, ∀ output ∈ entry.2, 0 ≤ entry.1 →
        0 ≤ output.toActionId ∨ output.toActionId = Step.finish.id := by decide
    exact hall entry hentry output houtput ha
  starters := by decide

/-- The chain is answered by Finish. -/
theorem chain_outcome : ∃ w', chain.Returns ⟨.ofRequest (request .defaultAction 0 0), (), []⟩
      (.request (request .defaultAction 0 0)) w' ∧
    (∃ trace finished, w'.trace = trace ++ [.requestFinished finished]) ∧
    (chain.Concluded w'.trace → FinishReplied w'.trace) ∧
    (¬chain.Concluded w'.trace → ErrorReplied "statemachine.unexpected.noend" w'.trace) :=
  outcome_of_normal_run chain_straight chain_ownResults (by decide) (acyclic_of_rank Int.toNat (by decide))
    (normal_of_settled (k := 12) (by decide) rfl)

/-- Cleanup alone as a starter. -/
def cleaning : StateMachine Unit := new.init.addInput ⟨"", Step.cleanup.id, ""⟩

/-- A first call that begins with Cleanup executes Die and sends no reply. -/
theorem cleanup_without_reply : Ordinary cleaning ∧ cleaning.OwnResults ∧ cleaning.validate = none ∧
    cleaning.Acyclic ∧ (∀ a b, 0 ≤ a → cleaning.Leads a b → 0 ≤ b ∨ b = Step.finish.id) ∧
    (∀ n, (started cleaning n).Normal cleaning) ∧
    ∃ w', cleaning.Returns ⟨.ofRequest (request .defaultAction 0 0), (), []⟩
        (.request (request .defaultAction 0 0)) w' ∧ Ended w'.trace ∧ replies w'.trace = [] := by
  refine ⟨.addInput .init _, ownResults_init, by decide, acyclic_of_rank Int.toNat (by decide), ?_,
    normal_of_settled (k := 5) (by decide) rfl, (started cleaning 5).world, ⟨5, rfl⟩,
    ⟨request .defaultAction 0 0, ?_⟩, by decide⟩
  · intro a b ha hleads
    obtain ⟨entry, hentry, rfl, output, houtput, rfl⟩ := exists_entry_of_leads hleads
    have hall : ∀ entry ∈ cleaning.outputs.entries, ∀ output ∈ entry.2, 0 ≤ entry.1 →
        0 ≤ output.toActionId ∨ output.toActionId = Step.finish.id := by decide
    exact hall entry hentry output houtput ha
  · exact List.mem_of_getLast? rfl

end Sample

end LibWorkflow
