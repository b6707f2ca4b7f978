import LibWorkflow.Flow.Defaults
import LibWorkflow.Flow.InFlight

/-!
# Every call returns

Over the default steps and an acyclic workflow, `executeAction` and `actionExecuted` do not call each other
for ever: an ordinary action that is performed makes way for its successors, which weigh less
(`Dag.Acyclic.exists_weight`), and when none is left the session runs through Finish or Error, then Cleanup,
to Die. `callRank` measures the two together. A session that returns without Die has left an action waiting
or asynchronous (`no_session_stalls`).

Cleanup has to be reached. A `SkipCtx` that a starter puts into an input of it is never overwritten, so that
Cleanup is skipped each time it is bound, and Error is performed again and again (`error_never_returns`).
-/

namespace LibWorkflow

open Ordered Fallible

namespace StateMachine

variable {ω : Type} {m : StateMachine ω}

/-! ### The load of a session -/

def successors (m : StateMachine ω) (a : ℤ) : Finset ℤ :=
  if 0 ≤ a then (((m.bindings a).map OutputBinding.toActionId).filter (0 ≤ ·)).toFinset else ∅

theorem mem_successors {a b : ℤ} : b ∈ m.successors a ↔ m.Edge a b := by
  unfold successors Edge Leads
  split_ifs with ha
  · simp only [List.mem_toFinset, List.mem_filter, List.mem_map, decide_eq_true_eq]
    exact ⟨fun ⟨hleads, hb⟩ => ⟨ha, hb, hleads⟩, fun ⟨_, hb, hleads⟩ => ⟨hleads, hb⟩⟩
  · exact ⟨fun h => absurd h (Finset.notMem_empty b), fun h => absurd h.1 ha⟩

def Weighs (m : StateMachine ω) (weight : ℤ → ℕ) : Prop :=
  ∀ a, weight a = 1 + ∑ b ∈ m.successors a, weight b

theorem Acyclic.exists_weighs (hacyclic : m.Acyclic) (hm : m.Laid) : ∃ weight, m.Weighs weight := by
  have hfin : {a | m.Registered a}.Finite := by
    refine (m.actions.keys.toFinset.finite_toSet).subset fun a ha => ?_
    exact List.mem_toFinset.mpr (OrdMap.mem_keys.mpr ha)
  exact Dag.Acyclic.exists_weight hacyclic hfin (fun a b hab => hm.source hab.2.2)
    fun a b hb => mem_successors.mp hb

def nodes (s : Session) : Finset ℤ := (s.nexts.toFinset ∪ s.pendings.toFinset).filter (0 ≤ ·)

theorem mem_nodes {s : Session} {a : ℤ} : a ∈ nodes s ↔ ActiveNode s a := by
  simp [nodes, ActiveNode, Session.Active, and_comm]

def load (weight : ℤ → ℕ) (s : Session) : ℕ := ∑ a ∈ nodes s, weight a

variable {weight : ℤ → ℕ}

theorem load_mono {s s' : Session} (h : ∀ a, ActiveNode s' a → ActiveNode s a) :
    load weight s' ≤ load weight s :=
  Finset.sum_le_sum_of_subset fun a ha => mem_nodes.mpr (h a (mem_nodes.mp ha))

theorem load_of_idle {s : Session} (h : s.Idle) : load weight s = 0 := by
  have hnone : nodes s = ∅ := Finset.eq_empty_of_forall_notMem fun a ha =>
    Session.not_active_of_idle h a (mem_nodes.mp ha).2
  rw [load, hnone, Finset.sum_empty]

/-- The successors of an action weigh less than the action. -/
theorem load_lt_of_leads (hweight : m.Weighs weight) {s s' : Session} {x : ℤ} (hx : 0 ≤ x)
    (h : ∀ a, ActiveNode s' a → ActiveNode s a ∨ m.Leads x a) :
    load weight s' < load weight s + weight x := by
  refine Dag.sum_lt_of_step hweight fun a ha => ?_
  have hnode := mem_nodes.mp ha
  exact (h a hnode).imp mem_nodes.mpr fun hleads => mem_successors.mpr ⟨hx, hnode.1, hleads⟩

theorem load_beginAction {s : Session} {x : ℤ} (hx : ActiveNode s x) :
    load weight (m.beginAction s x) + weight x ≤ load weight s := by
  have hsubset : nodes (m.beginAction s x) ⊆ (nodes s).erase x := fun a ha => by
    obtain ⟨hpos, hactive⟩ := mem_nodes.mp ha
    obtain ⟨hbefore, hne, -⟩ := active_beginAction hactive
    exact Finset.mem_erase.mpr ⟨hne, mem_nodes.mpr ⟨hpos, hbefore⟩⟩
  have hle : load weight (m.beginAction s x) ≤ ∑ a ∈ (nodes s).erase x, weight a :=
    Finset.sum_le_sum_of_subset hsubset
  have hsum : ∑ a ∈ (nodes s).erase x, weight a + weight x = load weight s :=
    Finset.sum_erase_add _ _ (mem_nodes.mpr hx)
  omega

/-! ### Invariants of the calls -/

/-- The session can clean up, and only ordinary actions are in flight. -/
structure Tidy (s : Session) : Prop where
  clean : Clean s
  inFlight : ∀ x, s.InFlight x → 0 ≤ x

/-- A result of a default step: the step is done and out of the schedule, and after Error and Cleanup the
schedule is empty. -/
def Settled (s : Session) (result : Result) : Prop := IsDefault result.actionId →
  result.type = .done ∧ ¬s.Active result.actionId ∧ (leavesFlow result.actionId = true → s.Idle)

def Ended (trace : List Event) : Prop := ∃ request, Event.requestFinished request ∈ trace

namespace Tidy

variable {s s' : Session}

theorem reschedules {ids : ℤ → Prop} (h : Tidy s) (hs : m.Reschedules ids s s') (hclean : Clean s') : Tidy s' :=
  ⟨hclean, fun x hx => h.inFlight x (hs.inFlight hx)⟩

theorem congr (h : Tidy s) (hinputs : s'.inputs = s.inputs) (houtputs : s'.outputs = s.outputs)
    (hstatus : s'.status = s.status) : Tidy s' :=
  ⟨h.clean.congr hinputs houtputs, fun x hx => h.inFlight x (hx.congr hstatus.symm)⟩

theorem plan (h : Tidy s) {id : ℤ} (hreg : m.Registered id) : Tidy (s.plan id) :=
  h.reschedules (Reschedules.plan rfl (.inr hreg) : m.Reschedules (· = id) s _) (h.clean.congr rfl rfl)

theorem setStatus (h : Tidy s) {id : ℤ} {status : ExecutionStatus}
    (hstatus : 0 ≤ id ∨ status ≠ .waiting ∧ status ≠ .async) : Tidy (s.setStatus id status) := by
  refine ⟨h.clean.congr rfl rfl, fun x hx => ?_⟩
  by_cases heq : x = id
  · subst heq
    exact hstatus.resolve_right fun hne => hx.status_of_setStatus.elim hne.1 hne.2
  · exact h.inFlight x (hx.of_setStatus heq)

theorem beginAction (h : Tidy s) (id : ℤ) : Tidy (m.beginAction s id) := by
  have hclean : Clean (m.beginAction s id) := by
    obtain ⟨_, _, _, heq⟩ := m.exists_beginAction_eq s id
    rw [heq]
    exact h.clean.congr rfl rfl
  refine ⟨hclean, fun x hx => ?_⟩
  unfold StateMachine.beginAction at hx
  dsimp only at hx
  split_ifs at hx with hleaves
  · have hquiet : (m.resetSchedule ((s.removeFromNext id).removeFromPending id)).Quiet :=
      quiet_resetSchedule _
    exact absurd hx ((hquiet.awaitsOnly id).settle (by decide) (by decide) x)
  · exact h.inFlight x hx

theorem resetSchedule (h : Tidy s) : Tidy (m.resetSchedule s) :=
  ⟨h.clean.congr rfl rfl, fun x hx => absurd hx (quiet_resetSchedule s x)⟩

end Tidy

end StateMachine

/-- What holds at each point of a session: it is tidy, and when it returns, after its first call, it has
executed Die or an action is in flight. -/
def Config.Tidy {ω : Type} : Config ω → Prop
  | .running (.executeAction _) w => StateMachine.Tidy w.session
  | .running (.actionExecuted result) w =>
    StateMachine.Tidy w.session ∧ StateMachine.Settled w.session result
  | .returned w => StateMachine.Tidy w.session ∧ w.session.status.isEmpty = false ∧
      (StateMachine.Ended w.trace ∨ ∃ x, w.session.InFlight x)
  | .crashed _ _ => True

namespace StateMachine

variable {ω : Type} {m : StateMachine ω} {w : World ω} {out : Onward ω}

theorem executeAction_tidy (hm : Ordinary m) (hown : m.OwnResults) {id : ℤ} (hcalled : m.Called w.session id)
    (hs : m.Statused w.session) (hw : Tidy w.session) (h : m.executeAction w id = .ok out) :
    (Config.after out).Tidy := by
  cases executeAction_cases h with
  | die =>
    have hstarted := started_of_statused hs (hm.registered_default (.inl rfl))
    refine ⟨hw, hstarted, .inl ⟨w.session.request, ?_⟩⟩
    exact List.mem_append_right _ (List.mem_singleton.mpr rfl)
  | nothing h =>
    cases executeNone_cases (hcalled.nothing rfl) h with
    | finish _ hreg => exact hw.plan hreg
    | error _ hreg => exact (hw.plan hreg).congr rfl rfl rfl
  | @action _ ptr _ _ hptr w' result hperform =>
    have hbegin : Tidy (m.beginAction w.session id) := hw.beginAction id
    have hflow := ptr.sameFlow_of_perform hperform
    have hclean : Clean w'.session := Clean.perform hm hbegin.clean hptr hperform
    have hid : result.actionId = id := hown.perform hm.initialised.laid hptr hperform
    have hdone : IsDefault id → result.type = .done := by
      intro hdefault
      cases (hm.find?_default hdefault).symm.trans hptr
      rw [perform_defaultPtr hdefault] at hperform
      cases hperform
      rfl
    refine ⟨⟨hclean, fun x hx => hbegin.inFlight x (hx.congr hflow.status.symm)⟩, fun hdefault => ?_⟩
    rw [hid] at hdefault ⊢
    refine ⟨hdone hdefault, ?_, fun hleaves => ?_⟩
    · unfold Session.Active
      rw [hflow.nexts, hflow.pendings]
      exact fun hactive => (active_beginAction hactive).2.1 rfl
    · have hidle : (m.beginAction w.session id).Idle := by
        unfold StateMachine.beginAction
        dsimp only
        rw [if_pos hleaves]
        exact ⟨rfl, rfl⟩
      exact ⟨hflow.nexts.trans hidle.1, hflow.pendings.trans hidle.2⟩
  | absent hdie hneg hreg =>
    have hfinish : m.Registered Step.finish.id := hm.registered_default (.inr (.inl rfl))
    exact absurd (hcalled.registered hfinish (hm.registered_default (.inl rfl)) hneg hdie) hreg

theorem actionExecuted_tidy (hm : Ordinary m) (hvalid : m.validate = none) {result : Result}
    (hw : Tidy w.session) (hsettled : Settled w.session result) (h : m.actionExecuted w result = .ok out) :
    (Config.after out).Tidy := by
  obtain ⟨ptr, hptr, hconsumed⟩ := actionExecuted_cases h
  have hpos : result.type ≠ .done → 0 ≤ result.actionId := fun htype =>
    (hm.registered_cases ⟨ptr, hptr⟩).resolve_left fun hid => htype (hsettled hid).1
  have hdone : Tidy (w.session.setStatus result.actionId .done) := hw.setStatus (.inr (by decide))
  have hbound : ∀ {s}, m.bindResults w.env (w.session.setStatus result.actionId .done) result.actionId =
      .ok s → Tidy s := fun hbind =>
    hdone.reschedules (bindResults_reschedules hbind)
      (hdone.clean.bindResults (fun output hmem => hm.input_of_validate hvalid hmem) hbind)
  cases hconsumed with
  | broken => exact hw.congr rfl rfl rfl
  | done _ _ hbind hnext =>
    have hpromotes := (getNext_spec hnext).1
    exact (hbound hbind).reschedules hpromotes.reschedules ((hbound hbind).clean.promotes hpromotes)
  | async htype =>
    have hid := hpos (by rw [htype]; decide)
    exact ⟨hw.setStatus (.inl hid), started_setStatus .., .inr ⟨_, .inr (OrdMap.find?_insert_self ..)⟩⟩
  | finish _ hbind => exact hbound hbind
  | wait htype =>
    have hid := hpos (by rw [htype]; decide)
    exact ⟨hw.setStatus (.inl hid), started_setStatus .., .inr ⟨_, .inl (OrdMap.find?_insert_self ..)⟩⟩
  | error => exact hdone.congr rfl rfl rfl

/-! ### The first call -/

theorem setStarterInputs_inputs {s s' : Session} (starters : List InputBinding) (hinputs : s.inputs = s'.inputs)
    (hrequest : s.request = s'.request) :
    (setStarterInputs s starters).inputs = (setStarterInputs s' starters).inputs := by
  induction starters generalizing s s' with
  | nil => exact hinputs
  | cons input starters ih =>
    unfold setStarterInputs
    rw [List.foldl_cons, List.foldl_cons]
    split_ifs
    · exact ih hinputs hrequest
    · refine ih ?_ hrequest
      unfold Session.setInput Session.puts
      rw [hinputs, hrequest]

/-- The starters of a valid machine are scheduled to the last one, and set no more inputs. -/
theorem scheduleStarters_complete {env : ω} {starters : List InputBinding} {s s' : Session} {complete : Bool}
    (hreg : ∀ input ∈ starters, m.Registered input.actionId)
    (h : m.scheduleStarters env s starters = .ok (complete, s')) : complete = true := by
  induction starters generalizing s with
  | nil =>
    cases h
    rfl
  | cons input starters ih =>
    have htail := fun i hi => hreg i (.tail _ hi)
    obtain ⟨ptr, hptr⟩ := hreg input (.head _)
    rw [scheduleStarters, hptr] at h
    obtain ⟨executable, -, h⟩ := bind_eq_ok.mp h
    split_ifs at h
    · obtain ⟨s₁, -, h⟩ := bind_eq_ok.mp h
      exact ih htail h
    · obtain ⟨s₁, -, h⟩ := bind_eq_ok.mp h
      exact ih htail h
    · exact ih htail h

/-- The starters give Cleanup no `SkipCtx` of the request. -/
def SparesCleanup (m : StateMachine ω) (request : Request) : Prop :=
  (setStarterInputs (.ofRequest request) m.starters).hasSkipInput Step.cleanup.id = false

theorem SparesCleanup.prepared {request : Request} (h : m.SparesCleanup request) {s : Session}
    (hinputs : s.inputs = ∅) (houtputs : s.outputs = ∅) (hrequest : s.request = request) :
    Clean (m.prepared s) := by
  have hsame : (m.prepared s).inputs = (setStarterInputs (.ofRequest request) m.starters).inputs :=
    setStarterInputs_inputs _ hinputs hrequest
  refine ⟨fun name ctx _ hinput => ?_, fun id _ name => ?_⟩
  · by_contra hskip
    have hhas : (setStarterInputs (.ofRequest request) m.starters).hasSkipInput Step.cleanup.id = true := by
      refine Session.hasSkipInput_iff.mpr ⟨name, ctx, ?_, by simpa using hskip⟩
      unfold Session.getInput at hinput ⊢
      rwa [← hsame]
    rw [h] at hhas
    cases hhas
  · have hout : (m.prepared s).outputs = ∅ :=
      ((setStarterInputs_reschedules (m := m) m.starters _).outputs).trans houtputs
    unfold Session.getOutput
    rw [hout]
    rfl

/-- The first call of a valid machine goes on with all its starters scheduled. -/
theorem firstCall_of_validate (hvalid : m.validate = none) (h : m.firstCall w = .ok out) :
    ∃ s s' next, m.scheduleStarters w.env (m.prepared w.session) m.starters = .ok (true, s) ∧
      m.getNext s = .ok (next, s') ∧ out = ({ w with session := s' }, some (.executeAction next)) := by
  obtain ⟨complete, s, hstarters, hcases⟩ := firstCall_cases h
  have hcomplete := scheduleStarters_complete (fun _ hmem => registered_of_validate hvalid hmem) hstarters
  subst hcomplete
  rcases hcases with ⟨-, next, s', hnext, hout⟩ | ⟨hfalse, -⟩
  · exact ⟨s, s', next, hstarters, hnext, hout⟩
  · cases hfalse

theorem firstCall_tidy (hvalid : m.validate = none) {request : Request}
    (hspares : m.SparesCleanup request) (hinputs : w.session.inputs = ∅) (houtputs : w.session.outputs = ∅)
    (hrequest : w.session.request = request) (hfresh : w.session.status.isEmpty = true)
    (h : m.firstCall w = .ok out) : (Config.after out).Tidy := by
  obtain ⟨s, s', next, hstarters, hnext, rfl⟩ := firstCall_of_validate hvalid h
  have hsame := scheduleStarters_inputs hstarters
  have hscheduled := scheduleStarters_reschedules hstarters
  have hclean : Clean s := (hspares.prepared hinputs houtputs hrequest).congr hsame hscheduled.outputs
  have hquiet : (m.prepared w.session).Quiet := quiet_prepared hfresh
  have htidy : Tidy s := ⟨hclean, fun x hx => absurd hx (hscheduled.quiet hquiet x)⟩
  have hpromotes := (getNext_spec hnext).1
  exact htidy.reschedules hpromotes.reschedules (hclean.promotes hpromotes)

/-! ### Messages -/

/-- The messages of an undisturbed session: asynchronous actions are completed, and nobody interrupts. -/
structure Undisturbed (c : Config ω) (label : Option Message) : Prop where
  completes : CompletesAsync c label
  noInterrupt : ∀ request, label = some (.request request) → request.target.target ≠ .interrupt

theorem Undisturbed.admissible {c : Config ω} {label : Option Message} (h : Undisturbed c label) :
    m.Admissible c label :=
  ⟨h.completes, fun request heq hinterrupt => absurd hinterrupt (h.noInterrupt request heq)⟩

theorem receive_tidy (hm : Ordinary m) (hown : m.OwnResults) (hvalid : m.validate = none) {request : Request} {env : ω}
    (hspares : m.SparesCleanup request) {message : Message}
    (hw : w = ⟨.ofRequest request, env, []⟩ ∨ (Config.returned w).Tidy)
    (hguard : Undisturbed (.returned w) (some message)) (h : m.receive w message = .ok out) :
    (Config.after out).Tidy := by
  have htidy : w.session.status.isEmpty = false → Tidy w.session ∧
      (Ended w.trace ∨ ∃ x, w.session.InFlight x) := fun hstarted => by
    rcases hw with rfl | ⟨hw, -, hend⟩
    · cases hstarted
    · exact ⟨hw, hend⟩
  cases receive_cases hm.initialised.laid h with
  | @firstCall first _ hfresh h =>
    have heq : w = ⟨.ofRequest request, env, []⟩ := by
      refine hw.resolve_right fun ⟨_, hstarted, _⟩ => ?_
      rw [hfresh] at hstarted
      cases hstarted
    subst heq
    exact firstCall_tidy (w := ⟨(Session.ofRequest request).pushRequest first, env, []⟩) hvalid hspares
      rfl rfl rfl hfresh h
  | @answered answer ptr w' result hstarted _ hptr hwait hreply =>
    obtain ⟨hw, -⟩ := htidy hstarted
    have hpos : 0 ≤ answer.target.action := hw.inFlight _ (.inl hwait)
    have hpush : Tidy (w.session.pushRequest answer) := hw.congr rfl rfl rfl
    have hflow := ptr.sameFlow_of_replyReceived hreply
    have hclean : Clean w'.session := Clean.replyReceived hm.initialised.laid hpush.clean hptr hpos hreply
    have hresult : result.actionId = answer.target.action :=
      hown.replyReceived hm.initialised.laid hptr hreply
    refine ⟨⟨hclean, fun x hx => hpush.inFlight x (hx.congr hflow.status.symm)⟩, fun hid => ?_⟩
    have hid : IsDefault answer.target.action := hresult ▸ hid
    exact absurd hid.neg (not_lt.mpr hpos)
  | @reset answer step hstarted hkind hreg =>
    have hreset : Tidy (m.resetSchedule (w.session.pushRequest answer)) :=
      Tidy.resetSchedule ((htidy hstarted).1.congr rfl rfl rfl)
    exact hreset.plan hreg
  | ignored hstarted =>
    obtain ⟨hw, hend⟩ := htidy hstarted
    refine ⟨hw.congr rfl rfl rfl, hstarted, hend.imp_right fun ⟨x, hx⟩ => ⟨x, hx⟩⟩
  | @finished result _ h =>
    have hasync : w.session.status.find? result.actionId = some .async := hguard.completes result rfl
    have hstarted : w.session.status.isEmpty = false := Session.InFlight.started (.inr hasync)
    obtain ⟨hw, -⟩ := htidy hstarted
    have hpos := hw.inFlight _ (.inr hasync)
    exact actionExecuted_tidy hm hvalid hw (fun hid => absurd hid.neg (not_lt.mpr hpos)) h

/-! ### The rank of a call -/

/-- A bound on the calls still to be made, in tens for the workflow and in units for the way to Die. -/
def callRank (weight : ℤ → ℕ) (s : Session) : Call → ℕ
  | .executeAction id =>
    if id = Step.die.id then 1
    else if id = Step.cleanup.id then 3
    else if id = Step.error.id then 6
    else if id = -1 then 9
    else if id = Step.finish.id then 10 * load weight s + 8
    else 10 * load weight s + 5
  | .actionExecuted result =>
    if result.actionId = Step.cleanup.id then 2
    else if result.actionId = Step.error.id then 5
    else if result.actionId = Step.finish.id then 10 * load weight s + 7
    else 10 * (load weight s + weight result.actionId) + 4

end StateMachine

def Config.rank {ω : Type} (weight : ℤ → ℕ) : Config ω → ℕ
  | .running call w => StateMachine.callRank weight w.session call
  | _ => 0

namespace StateMachine

variable {ω : Type} {m : StateMachine ω} {w : World ω} {out : Onward ω} {weight : ℤ → ℕ}

theorem callRank_pos (weight : ℤ → ℕ) (s : Session) (call : Call) : 0 < callRank weight s call := by
  unfold callRank
  split <;> split_ifs <;> omega

/-- Any action executed next ranks below a fixed bound. -/
theorem callRank_execute_le (weight : ℤ → ℕ) (s : Session) (id : ℤ) :
    callRank weight s (.executeAction id) ≤ 10 * load weight s + 9 := by
  unfold callRank
  dsimp only
  split_ifs <;> omega

theorem callRank_execute_of_ne (weight : ℤ → ℕ) (s : Session) {id : ℤ} (hneg : id ≠ -1)
    (hfinish : id ≠ Step.finish.id) : callRank weight s (.executeAction id) ≤ 10 * load weight s + 6 := by
  unfold callRank
  dsimp only
  rw [if_neg hneg, if_neg hfinish]
  split_ifs <;> omega

theorem callRank_result_of_ordinary (weight : ℤ → ℕ) (s : Session) {result : Result}
    (h : 0 ≤ result.actionId) :
    callRank weight s (.actionExecuted result) = 10 * (load weight s + weight result.actionId) + 4 := by
  have hne : ∀ {id}, IsDefault id → result.actionId ≠ id := fun hid heq =>
    absurd hid.neg (not_lt.mpr (heq ▸ h))
  unfold callRank
  dsimp only
  rw [if_neg (hne (.inr (.inr rfl))), if_neg (hne (.inl rfl)), if_neg (hne (.inr (.inl rfl)))]

theorem callRank_execute_of_ordinary (weight : ℤ → ℕ) (s : Session) {id : ℤ} (h : 0 ≤ id) :
    callRank weight s (.executeAction id) = 10 * load weight s + 5 := by
  have hne : ∀ {step}, step < 0 → id ≠ step := fun hstep heq => absurd (heq ▸ h) (not_le.mpr hstep)
  unfold callRank
  dsimp only
  rw [if_neg (hne (by decide)), if_neg (hne (by decide)), if_neg (hne (by decide)), if_neg (hne (by decide)),
    if_neg (hne (by decide))]

theorem executeAction_rank (hm : Ordinary m) (hown : m.OwnResults) {id : ℤ}
    (hcalled : m.Called w.session id) (h : m.executeAction w id = .ok out) :
    (Config.after out).rank weight < callRank weight w.session (.executeAction id) := by
  cases executeAction_cases h with
  | die => exact callRank_pos ..
  | nothing h =>
    have hidle := hcalled.nothing rfl
    have hrank : callRank weight w.session (.executeAction (-1)) = 9 := rfl
    rw [hrank]
    cases executeNone_cases hidle h with
    | finish =>
      have hload : load weight (w.session.plan Step.finish.id) ≤ load weight w.session := by
        refine load_mono fun a ha => ⟨ha.1, ?_⟩
        rcases ha.2 with hmem | hmem
        · refine .inl ((OrdSet.mem_insert.mp hmem).resolve_left fun heq => ?_)
          exact absurd (heq ▸ ha.1) (by decide)
        · exact .inr hmem
      have hzero : load weight w.session = 0 := load_of_idle hidle
      show 10 * load weight (w.session.plan Step.finish.id) + 8 < 9
      omega
    | error =>
      show (6 : ℕ) < 9
      decide
  | @action _ ptr hdie hneg hptr w' result hperform =>
    have hflow := ptr.sameFlow_of_perform hperform
    have hid : result.actionId = id := hown.perform hm.initialised.laid hptr hperform
    have hload : load weight w'.session = load weight (m.beginAction w.session id) := by
      unfold load nodes
      rw [hflow.nexts, hflow.pendings]
    have hbegin : load weight (m.beginAction w.session id) ≤ load weight w.session :=
      load_mono fun a ha => ⟨ha.1, (active_beginAction ha.2).1⟩
    show callRank weight w'.session (.actionExecuted result) < _
    -- a default step has a rank of its own, an ordinary action takes its weight out of the load
    rcases hm.registered_cases ⟨ptr, hptr⟩ with hdefault | hpos
    · unfold callRank
      dsimp only
      rw [hid]
      rcases hdefault with rfl | rfl | rfl
      · show (5 : ℕ) < 6
        decide
      · show 10 * load weight w'.session + 7 < 10 * load weight w.session + 8
        omega
      · show (2 : ℕ) < 3
        decide
    · have htaken : load weight (m.beginAction w.session id) + weight id ≤ load weight w.session :=
        load_beginAction ⟨hpos, hcalled.active hpos⟩
      rw [callRank_result_of_ordinary weight _ (hid ▸ hpos), callRank_execute_of_ordinary weight _ hpos, hid]
      omega
  | absent => exact callRank_pos ..

theorem getNext_of_only (hm : m.Laid) {s s' : Session} {id next : ℤ} (hs : m.Grounded s)
    (hactive : s.Active id) (honly : ∀ a, s.Active a → a = id) (h : m.getNext s = .ok (next, s')) :
    next = id := by
  obtain ⟨-, hidle, hplanned⟩ := hs.getNext hm h
  have hiff := (getNext_spec h).1.active_iff
  have hne : next ≠ -1 := fun heq =>
    Session.not_active_of_idle (hidle heq) id ((hiff id).mpr hactive)
  exact honly next ((hiff next).mp (.inl (hplanned hne)))

theorem active_of_default (hm : Ordinary m) {s s' : Session} {id : ℤ} (hs : Clean s) (hid : IsDefault id)
    (hbind : m.bindResults w.env s id = .ok s') :
    s'.Active (defaultTarget id) ∧ ∀ a, s'.Active a → s.Active a ∨ a = defaultTarget id := by
  refine ⟨?_, fun a ha => ?_⟩
  · rcases hid with rfl | rfl | rfl
    · exact hs.active_cleanup hm (.inl rfl) hbind
    · exact hs.active_cleanup hm (.inr rfl) hbind
    · unfold bindResults at hbind
      rw [hm.bindings_default (.inr (.inr rfl)), List.foldlM_cons] at hbind
      obtain ⟨s₁, hstep, hdone⟩ := bind_eq_ok.mp hbind
      cases hdone
      have hdie : ¬m.Registered Step.die.id := hm.initialised.laid.not_registered (.inr (.inl rfl))
      cases bindResult_cases hstep with
      | target hptr => exact absurd ⟨_, hptr⟩ hdie
      | die => exact .inl (OrdSet.mem_insert.mpr (.inl rfl))
      | absent hne => exact absurd rfl hne
  · have hactive := (bindResults_reschedules hbind).active ha
    exact hactive.imp_right fun hleads => (hm.leads_default hid).mp hleads

theorem leaving_rank (hm : Ordinary m) {id next : ℤ} {s s' : Session} (hid : IsDefault id)
    (hleaves : leavesFlow id = true) (hidle : w.session.Idle) (hbound : m.Grounded s)
    (hactive : s.Active (defaultTarget id)) (honly : ∀ a, s.Active a → w.session.Active a ∨ a = defaultTarget id)
    (hnext : m.getNext s = .ok (next, s')) {result : Result} (hresult : result.actionId = id) :
    callRank weight s' (.executeAction next) < callRank weight w.session (.actionExecuted result) := by
  have hnone : ∀ a, ¬w.session.Active a := Session.not_active_of_idle hidle
  have hchosen : next = defaultTarget id := by
    refine getNext_of_only hm.initialised.laid hbound hactive (fun a ha => ?_) hnext
    exact (honly a ha).resolve_left (hnone a)
  rw [hchosen]
  unfold callRank
  dsimp only
  rw [hresult]
  rcases hid with heq | heq | heq <;> rw [heq] at hleaves ⊢
  · show (3 : ℕ) < 5
    decide
  · cases hleaves
  · show (1 : ℕ) < 2
    decide

theorem finishing_rank (hm : Ordinary m) {next : ℤ} {s s' : Session} (hbound : m.Grounded s)
    (hnot : ¬w.session.Active Step.finish.id) (hactive : s.Active Step.cleanup.id)
    (honly : ∀ a, s.Active a → w.session.Active a ∨ a = Step.cleanup.id)
    (hnext : m.getNext s = .ok (next, s')) {result : Result} (hresult : result.actionId = Step.finish.id) :
    callRank weight s' (.executeAction next) < callRank weight w.session (.actionExecuted result) := by
  obtain ⟨-, hidle, hplanned⟩ := hbound.getNext hm.initialised.laid hnext
  have hiff := (getNext_spec hnext).1.active_iff
  have hneg : next ≠ -1 := fun heq =>
    Session.not_active_of_idle (hidle heq) _ ((hiff _).mpr hactive)
  have hne : next ≠ Step.finish.id := by
    intro heq
    have hmem : s.Active next := (hiff next).mp (.inl (hplanned hneg))
    rw [heq] at hmem
    rcases honly _ hmem with hbefore | htarget
    · exact hnot hbefore
    · exact absurd htarget (by decide)
  have hload : load weight s' ≤ load weight w.session := by
    refine load_mono fun a ha => ⟨ha.1, ?_⟩
    refine (honly a ((hiff a).mp ha.2)).resolve_right fun htarget => ?_
    rw [htarget] at ha
    exact absurd ha.1 (by decide)
  have hrank : callRank weight w.session (.actionExecuted result) = 10 * load weight w.session + 7 := by
    unfold callRank
    dsimp only
    rw [hresult]
    rfl
  have hle := callRank_execute_of_ne weight s' hneg hne
  omega

theorem defaultExecuted_rank (hm : Ordinary m) {result : Result} {ptr : ActionPtr ω}
    (hptr : m.actions.find? result.actionId = some ptr) (hid : IsDefault result.actionId)
    (hground : m.Grounded w.session) (hw : Tidy w.session) (hsettled : Settled w.session result)
    (hconsumed : m.Consumed w result ptr out) :
    (Config.after out).rank weight < callRank weight w.session (.actionExecuted result) := by
  obtain ⟨hdone, hnot, hidle⟩ := hsettled hid
  cases hconsumed with
  | broken _ hcheck =>
    cases (hm.find?_default hid).symm.trans hptr
    rw [checkOutputs_defaultPtr] at hcheck
    cases hcheck
  | @done _ _ s s' next hbind hnext =>
    have hset : Tidy (w.session.setStatus result.actionId .done) := hw.setStatus (.inr (by decide))
    obtain ⟨hactive, honly⟩ := active_of_default hm hset.clean hid hbind
    have hbound : m.Grounded s :=
      (hground.setStatus ⟨ptr, hptr⟩ .done).reschedules (bindResults_reschedules hbind)
    show callRank weight s' (.executeAction next) < _
    by_cases hleaves : leavesFlow result.actionId = true
    · exact leaving_rank hm hid hleaves (hidle hleaves) hbound hactive honly hnext rfl
    · have hfinish : result.actionId = Step.finish.id := by
        rcases hid with heq | heq | heq
        · exact absurd (by rw [heq]; rfl) hleaves
        · exact heq
        · exact absurd (by rw [heq]; rfl) hleaves
      have htarget : defaultTarget result.actionId = Step.cleanup.id := by
        rw [hfinish]
        rfl
      rw [htarget] at hactive honly
      rw [hfinish] at hnot
      exact finishing_rank hm hbound hnot hactive honly hnext hfinish
  | async htype => exact nomatch htype.symm.trans hdone
  | finish htype => exact nomatch htype.symm.trans hdone
  | wait htype => exact nomatch htype.symm.trans hdone
  | error htype => exact nomatch htype.symm.trans hdone

theorem ordinaryExecuted_rank (hweight : m.Weighs weight) {result : Result} {ptr : ActionPtr ω}
    (hpos : 0 ≤ result.actionId) (hconsumed : m.Consumed w result ptr out) :
    (Config.after out).rank weight < callRank weight w.session (.actionExecuted result) := by
  rw [callRank_result_of_ordinary weight _ hpos]
  have hone : 1 ≤ weight result.actionId := by
    have := hweight result.actionId
    omega
  have hbound : ∀ {s}, m.bindResults w.env (w.session.setStatus result.actionId .done) result.actionId =
      .ok s → load weight s < load weight w.session + weight result.actionId := fun hbind =>
    load_lt_of_leads hweight hpos fun a ha =>
      ((bindResults_reschedules hbind).active ha.2).imp_left fun hactive => ⟨ha.1, hactive⟩
  cases hconsumed with
  | broken =>
    show 6 < _
    omega
  | @done _ _ s s' next hbind hnext =>
    have hload : load weight s' ≤ load weight s :=
      load_mono fun a ha => ⟨ha.1, ((getNext_spec hnext).1.active_iff a).mp ha.2⟩
    have hlt := hbound hbind
    have hle := callRank_execute_le weight s' next
    show callRank weight s' (.executeAction next) < _
    omega
  | async => exact Nat.succ_pos _
  | @finish _ s hbind =>
    have hlt := hbound hbind
    have hle := callRank_execute_le weight s Step.finish.id
    show callRank weight s (.executeAction Step.finish.id) < _
    omega
  | wait => exact Nat.succ_pos _
  | error =>
    show 6 < _
    omega

theorem actionExecuted_rank (hm : Ordinary m) (hweight : m.Weighs weight) {result : Result}
    (hground : m.Grounded w.session) (hw : Tidy w.session) (hsettled : Settled w.session result)
    (h : m.actionExecuted w result = .ok out) :
    (Config.after out).rank weight < callRank weight w.session (.actionExecuted result) := by
  obtain ⟨ptr, hptr, hconsumed⟩ := actionExecuted_cases h
  rcases hm.registered_cases ⟨ptr, hptr⟩ with hid | hpos
  · exact defaultExecuted_rank hm hptr hid hground hw hsettled hconsumed
  · exact ordinaryExecuted_rank hweight hpos hconsumed

end StateMachine

/-- All that holds at each point of a session after its first message. -/
structure Config.Conducted {ω : Type} (m : StateMachine ω) (c : Config ω) : Prop where
  grounded : c.Grounded m
  statused : c.Statused m
  answerable : c.Answerable m
  tidy : c.Tidy

namespace StateMachine

variable {ω : Type} {m : StateMachine ω} {w : World ω} {c c' : Config ω} {weight : ℤ → ℕ}

/-- Each call is made, keeps the session conducted and ranks lower than the one before. -/
theorem next_conducted (hm : Ordinary m) (hown : m.OwnResults) (hvalid : m.validate = none)
    (hweight : m.Weighs weight) (hc : c.Conducted m) (hnext : m.system.next c = some c') :
    c'.Conducted m ∧ c'.rank weight < c.rank weight := by
  have hlaid := hm.initialised.laid
  obtain ⟨hground, hstatused, hanswerable, htidy⟩ := hc
  rcases c with ⟨id | result, w⟩ | _ | _
  · obtain ⟨out, h⟩ := executeAction_succeeds hm.initialised hground.nothing hstatused
    have hc' : c' = .after out := (Option.some.inj hnext).symm.trans (congrArg (Config.ofStep w) h)
    rw [hc']
    refine ⟨?_, executeAction_rank hm hown hground h⟩
    exact {
      grounded := executeAction_grounded hground h
      statused := executeAction_statused hground hstatused h
      answerable := executeAction_answerable hlaid hown hground h
      tidy := executeAction_tidy hm hown hground hstatused htidy h }
  · obtain ⟨out, h⟩ := actionExecuted_succeeds hlaid hground hstatused hanswerable
    have hc' : c' = .after out := (Option.some.inj hnext).symm.trans (congrArg (Config.ofStep w) h)
    rw [hc']
    refine ⟨?_, actionExecuted_rank hm hweight hground htidy.1 htidy.2 h⟩
    exact {
      grounded := actionExecuted_grounded hlaid hground h
      statused := actionExecuted_statused hstatused h
      answerable := actionExecuted_answerable h
      tidy := actionExecuted_tidy hm hvalid htidy.1 htidy.2 h }
  · cases hnext
  · cases hnext

theorem receive_conducted (hm : Ordinary m) (hown : m.OwnResults) (hvalid : m.validate = none)
    {request : Request} {env : ω} (hspares : m.SparesCleanup request)
    (hc : w = ⟨.ofRequest request, env, []⟩ ∨ (Config.returned w).Conducted m) {message : Message}
    (hguard : Undisturbed (.returned w) (some message)) :
    (Config.ofStep w (m.receive w message)).Conducted m := by
  have hlaid := hm.initialised.laid
  have hground : m.Grounded w.session := by
    rcases hc with rfl | hc
    · exact Grounded.ofRequest request
    · exact hc.grounded
  have hstatused : m.StatusedWhenStarted w.session := by
    rcases hc with rfl | hc
    · exact .inl rfl
    · exact hc.statused
  obtain ⟨out, h⟩ := receive_succeeds hm.initialised hground hstatused hguard.admissible
  rw [h]
  exact {
    grounded := receive_grounded hlaid hground h
    statused := receive_statused hlaid hstatused hguard.completes h
    answerable := receive_answerable hlaid hown h
    tidy := receive_tidy hm hown hvalid hspares (hc.imp_right Config.Conducted.tidy) hguard h }

theorem run_conducted (hm : Ordinary m) (hown : m.OwnResults) (hvalid : m.validate = none)
    (hweight : m.Weighs weight) {request : Request} {env : ω} (hspares : m.SparesCleanup request)
    (hrun : m.system.Run Undisturbed (opened request env) c) :
    c = opened request env ∨ c.Conducted m := by
  have hnext : ∀ c c' : Config ω, c = opened request env ∨ c.Conducted m → Undisturbed c none →
      m.system.next c = some c' → c' = opened request env ∨ c'.Conducted m := by
    intro c c' hc _ hnext
    rcases hc with rfl | hc
    · cases hnext
    · exact .inr (next_conducted hm hown hvalid hweight hc hnext).1
  apply hrun.invariant_cases (.inl rfl) hnext
  intro c message c' hc hguard haccept
  rcases c with _ | w | _
  case returned =>
    cases haccept
    have hw : w = ⟨.ofRequest request, env, []⟩ ∨ (Config.returned w).Conducted m := by
      refine hc.imp_left fun heq => ?_
      cases heq
      rfl
    exact .inr (receive_conducted hm hown hvalid hspares hw hguard)
  all_goals cases haccept

/-- A conducted call comes to its end. -/
theorem returns_of_conducted (hm : Ordinary m) (hown : m.OwnResults) (hvalid : m.validate = none)
    (hweight : m.Weighs weight) (hc : c.Conducted m) :
    ∃ n w', m.system.advance n c = .returned w' ∧ (Config.returned w').Conducted m := by
  obtain ⟨n, hsettled, hend⟩ := Reactive.System.exists_settled (Config.rank weight)
    (fun c c' hc hnext => next_conducted hm hown hvalid hweight hc hnext) hc
  refine ⟨n, ?_⟩
  rcases hlast : m.system.advance n c with ⟨call, w⟩ | w | ⟨fault, w⟩ <;> rw [hlast] at hsettled hend
  · cases hsettled
  · exact ⟨w, rfl, hend⟩
  · exact hend.answerable.elim

/-- **No session stalls.** On the default steps and an acyclic workflow, where the starters spare Cleanup,
each message of an undisturbed session is taken by a call that returns; then Die was executed, or exactly
one action is waiting or asynchronous. -/
theorem no_session_stalls (hm : Ordinary m) (hown : m.OwnResults) (hvalid : m.validate = none)
    (hacyclic : m.Acyclic) {request : Request} {env : ω} (hspares : m.SparesCleanup request)
    (hrun : m.system.Run Undisturbed (opened request env) (.returned w)) {message : Message}
    (hguard : Undisturbed (.returned w) (some message)) :
    ∃ w', m.Returns w message w' ∧ (Ended w'.trace ∨ ∃! x, w'.session.InFlight x) := by
  obtain ⟨weight, hweight⟩ := hacyclic.exists_weighs hm.initialised.laid
  have hstart : w = ⟨.ofRequest request, env, []⟩ ∨ (Config.returned w).Conducted m := by
    refine (run_conducted hm hown hvalid hweight hspares hrun).imp_left fun heq => ?_
    cases heq
    rfl
  have hreceived := receive_conducted hm hown hvalid hspares hstart hguard
  obtain ⟨n, w', hlast, hend⟩ := returns_of_conducted hm hown hvalid hweight hreceived
  have hlater : m.system.Run Undisturbed (opened request env) (.returned w') := by
    rw [← hlast]
    exact .advance (fun _ => ⟨fun _ h => (nomatch h), fun _ h => (nomatch h)⟩) (hrun.input hguard rfl) n
  have hone : w'.session.AtMostOneInFlight :=
    (run_awaits hm.initialised.laid hown (hlater.mono fun _ _ h => h.completes)).2
  refine ⟨w', ⟨n, hlast⟩, hend.tidy.2.2.imp_right ?_⟩
  rintro ⟨x, hx⟩
  exact ⟨x, hx, fun y hy => hone y x hy hx⟩

/-! ### Cleanup is skipped for ever -/

/-- Cleanup holds a `SkipCtx` under a name, where no binding overwrites it. -/
def Cluttered (s : Session) : Prop :=
  ∃ name ctx, name ≠ "" ∧ s.getInput Step.cleanup.id name = some ctx ∧ ctx.isSkip = true

theorem bindResult_of_registered {env : ω} {s : Session} {id : ℤ} (hid : m.Registered id)
    {binding : OutputBinding} {ptr : ActionPtr ω} (hptr : m.actions.find? binding.toActionId = some ptr) :
    m.bindResult env id s binding = m.scheduleTarget env (s.setInput binding.toActionId binding.toActionInput
      (s.getOutput id binding.fromActionOutput)) binding.toActionId ptr := by
  obtain ⟨source, hsource⟩ := exists_actionAt hid
  unfold bindResult
  rw [hptr]
  dsimp only
  rw [hsource, ok_bind]

theorem scheduleTarget_of_skip {env : ω} {s : Session} {id : ℤ} (ptr : ActionPtr ω)
    (h : s.hasSkipInput id = true) : m.scheduleTarget env s id ptr = .ok (s.unschedule id .skipped) := by
  unfold scheduleTarget
  rw [h]
  rfl

theorem bindResults_error (hm : Ordinary m) {env : ω} {s : Session} (h : Cluttered s) :
    m.bindResults env s Step.error.id = .ok ((s.setInput Step.cleanup.id ""
      (s.getOutput Step.error.id "")).unschedule Step.cleanup.id .skipped) := by
  obtain ⟨name, ctx, hname, hinput, hskip⟩ := h
  have herror : IsDefault Step.error.id := .inl rfl
  have hcleanup : m.actions.find? Step.cleanup.id = some (defaultPtr ω Step.cleanup.id) :=
    hm.find?_default (.inr (.inr rfl))
  have hstill : (s.setInput Step.cleanup.id "" (s.getOutput Step.error.id "")).hasSkipInput
      Step.cleanup.id = true := by
    refine Session.hasSkipInput_iff.mpr ⟨name, ctx, ?_, hskip⟩
    rw [Session.getInput_setInput, if_neg fun heq => hname heq.2]
    exact hinput
  have hstep : m.bindResult env Step.error.id s (bindingTo Step.error.id "" Step.cleanup.id "") =
      m.scheduleTarget env (s.setInput Step.cleanup.id "" (s.getOutput Step.error.id "")) Step.cleanup.id
        (defaultPtr ω Step.cleanup.id) :=
    bindResult_of_registered (hm.registered_default herror) hcleanup
  unfold bindResults
  rw [hm.bindings_default herror, List.foldlM_cons]
  exact bind_eq_ok.mpr ⟨_, hstep.trans (scheduleTarget_of_skip _ hstill), rfl⟩

theorem canExecuteFinish_of_error (hm : Ordinary m) {s : Session} (hs : m.Statused s)
    (hdone : ∀ a, s.status.find? a = some .done → a = Step.error.id) : m.canExecuteFinish s = .ok false := by
  obtain ⟨executable, hexec⟩ := canExecuteFinish_succeeds hm.initialised.laid hs
  cases executable with
  | false => exact hexec
  | true =>
    obtain ⟨a, hleads, hst⟩ := canExecuteFinish_eq_true hm.initialised.laid hexec
    rw [hdone a hst, hm.leads_default (.inl rfl)] at hleads
    exact absurd hleads (by decide)

theorem next_of_makeCall {call : Call} {out : Onward ω} (h : m.makeCall w call = .ok out) :
    m.system.next (.running call w) = some (.after out) := congrArg (fun r => some (Config.ofStep w r)) h

/-- Nothing is left to execute, nothing but Error is done, and Cleanup is cluttered. -/
structure Stuck (m : StateMachine ω) (s : Session) : Prop where
  idle : s.Idle
  statused : m.Statused s
  done : ∀ a, s.status.find? a = some .done → a = Step.error.id
  cluttered : Cluttered s

theorem stuck_beginAction {s : Session} (h : Cluttered s) : m.Stuck (m.beginAction s Step.error.id) where
  idle := ⟨rfl, rfl⟩
  statused := (resetSchedule_statused _).setStatus _ .planned
  done a hst := by
    by_contra hne
    have hreset := (OrdMap.find?_insert_of_ne _ _ hne).symm.trans hst
    exact nomatch ((resetSchedule_status _ a).mp hreset).2
  cluttered := h

theorem Stuck.setStatus_error {s : Session} (h : m.Stuck s) : m.Stuck (s.setStatus Step.error.id .done) where
  idle := h.idle
  statused := h.statused.setStatus _ _
  done a hst := by
    by_contra hne
    exact hne (h.done a ((OrdMap.find?_insert_of_ne _ _ hne).symm.trans hst))
  cluttered := h.cluttered

theorem Stuck.bindResults {s s' : Session} (hm : Ordinary m) {env : ω} (h : m.Stuck s)
    (hbind : m.bindResults env s Step.error.id = .ok s') : m.Stuck s' := by
  rw [bindResults_error hm h.cluttered] at hbind
  cases hbind
  have hcluttered : Cluttered (s.setInput Step.cleanup.id "" (s.getOutput Step.error.id "")) := by
    obtain ⟨name, ctx, hname, hinput, hskip⟩ := h.cluttered
    refine ⟨name, ctx, hname, ?_, hskip⟩
    rw [Session.getInput_setInput, if_neg fun heq => hname heq.2]
    exact hinput
  have herase : ∀ (a : ℤ), (∅ : OrdSet ℤ).erase a = ∅ := fun _ => rfl
  refine ⟨⟨?_, ?_⟩, ?_, fun a hst => ?_, hcluttered⟩
  · show s.nexts.erase _ = ∅
    rw [h.idle.1, herase]
  · show s.pendings.erase _ = ∅
    rw [h.idle.2, herase]
  · exact h.statused.setStatus _ _
  · have hst : (s.status.insert Step.cleanup.id .skipped).find? a = some .done := hst
    rw [OrdMap.find?_insert] at hst
    split_ifs at hst
    · cases hst
    · exact h.done a hst

/-- Error is done, Cleanup is skipped, nothing is left, and Error is planned again. -/
theorem error_recurs (hm : Ordinary m) (h : Cluttered w.session) :
    ∃ w', m.system.advance 3 (.running (.executeAction Step.error.id) w) =
      .running (.executeAction Step.error.id) w' ∧ Cluttered w'.session := by
  have herror : IsDefault Step.error.id := .inl rfl
  have hreg := hm.registered_default herror
  obtain ⟨w₁, hperform, hstuck₁⟩ : ∃ w₁, m.executeAction w Step.error.id =
      .ok (w₁, some (.actionExecuted ⟨Step.error.id, .done, none⟩)) ∧ m.Stuck w₁.session := by
    refine ⟨_, hm.executeAction_default herror w, ?_⟩
    have hbegin := stuck_beginAction (m := m) h
    exact ⟨hbegin.idle, hbegin.statused, hbegin.done, hbegin.cluttered⟩
  obtain ⟨s, hbind, hstuck⟩ : ∃ s, m.bindResults w₁.env (w₁.session.setStatus Step.error.id .done)
      Step.error.id = .ok s ∧ m.Stuck s := by
    have hbind : m.bindResults w₁.env (w₁.session.setStatus Step.error.id .done) Step.error.id = _ :=
      bindResults_error hm hstuck₁.setStatus_error.cluttered
    exact ⟨_, hbind, hstuck₁.setStatus_error.bindResults hm hbind⟩
  have hconsume : m.actionExecuted w₁ ⟨Step.error.id, .done, none⟩ =
      .ok (⟨s, w₁.env, w₁.trace⟩, some (.executeAction (-1))) := by
    rw [hm.actionExecuted_default herror, hbind, ok_bind]
    exact executeNext_eq_ok.mpr ⟨-1, s, getNext_of_idle hstuck.idle, rfl⟩
  have hnone : m.executeAction ⟨s, w₁.env, w₁.trace⟩ (-1) = .ok
      (⟨(s.plan Step.error.id).setLastErrorReport (some (noend s)), w₁.env, w₁.trace⟩,
        some (.executeAction Step.error.id)) := by
    have hplan := addToNext_of_registered s hreg
    have hnext := executeNext_of_plan (m := m) (w := ⟨s, w₁.env, w₁.trace⟩)
      (s := s.setLastErrorReport (some (noend s))) hstuck.idle Step.error.id
    refine (executeNone_of_idle (w := ⟨s, w₁.env, w₁.trace⟩) hstuck.idle).trans ?_
    rw [canExecuteFinish_of_error hm hstuck.statused hstuck.done, ok_bind]
    exact bind_eq_ok.mpr ⟨_, hplan, hnext⟩
  refine ⟨⟨(s.plan Step.error.id).setLastErrorReport (some (noend s)), w₁.env, w₁.trace⟩, ?_, hstuck.cluttered⟩
  have h₁ : m.system.next (.running (.executeAction Step.error.id) w) = _ := next_of_makeCall hperform
  have h₂ : m.system.next (.running (.actionExecuted ⟨Step.error.id, .done, none⟩) w₁) = _ :=
    next_of_makeCall hconsume
  have h₃ : m.system.next (.running (.executeAction (-1)) ⟨s, w₁.env, w₁.trace⟩) = _ := next_of_makeCall hnone
  rw [Reactive.System.advance_succ_of_next h₁]
  apply (Reactive.System.advance_succ_of_next h₂ 1).trans
  exact Reactive.System.advance_succ_of_next h₃ 0

/-- **Error never returns** where Cleanup is cluttered. -/
theorem error_never_returns (hm : Ordinary m) (h : Cluttered w.session) :
    ¬m.system.Settles (.running (.executeAction Step.error.id) w) := by
  refine Reactive.System.not_settles_of_recurs
    (P := fun c => ∃ w, c = .running (.executeAction Step.error.id) w ∧ Cluttered w.session) ?_ ?_ ⟨w, rfl, h⟩
  · rintro c ⟨w, rfl, -⟩ hnext
    cases hnext
  · rintro c ⟨w, rfl, hcluttered⟩
    exact ⟨2, error_recurs hm hcluttered⟩

end StateMachine

namespace Sample

open StateMachine

theorem single_ordinary (type : ResultType) : Ordinary (single type) :=
  .addInput (.addAction .init 0 le_rfl _ _) _

theorem single_acyclic (type : ResultType) : (single type).Acyclic := by
  apply acyclic_of_rank Int.toNat
  cases type <;> decide

/-- The answer to an action that waits is taken by a call that returns. -/
theorem waiting_returns : ∃ w', (single .wait).Returns waiting (.request (request .reply 0 0)) w' ∧
    (Ended w'.trace ∨ ∃! x, w'.session.InFlight x) := by
  have hguard : ∀ c r, r.target.target ≠ .interrupt →
      Undisturbed (c : Config Unit) (some (.request r)) := fun c r hr =>
    ⟨fun _ h => (nomatch h), fun _ h => by cases h; exact hr⟩
  have hrun : (single .wait).system.Run Undisturbed (opened (request .defaultAction 0 0) ())
      (session (single .wait) [.request (request .defaultAction 0 0)]) := by
    refine .play (fun _ => ⟨fun _ h => (nomatch h), fun _ h => (nomatch h)⟩) (fun c message hmem => ?_) .start
    cases List.mem_singleton.mp hmem
    exact hguard c _ (by decide)
  exact no_session_stalls (single_ordinary .wait) (single_ownResults .wait) (by decide) (single_acyclic .wait)
    rfl hrun (hguard _ _ (by decide))

/-- A starter that gives an input of Cleanup a context of the request. -/
def cluttering : StateMachine Unit := (single .error).addInput ⟨"ctx", Step.cleanup.id, "in"⟩

/-- The first call of the request never returns. -/
theorem call_never_returns : Ordinary cluttering ∧ cluttering.OwnResults ∧ cluttering.validate = none ∧
    cluttering.Acyclic ∧
    ¬∃ w', cluttering.Returns ⟨.ofRequest skipRequest, (), []⟩ (.request skipRequest) w' := by
  have hm : Ordinary cluttering := .addInput (single_ordinary .error) _
  refine ⟨hm, single_ownResults .error, by decide, single_acyclic .error, ?_⟩
  rintro ⟨w', n, hreturned⟩
  have hsettles : cluttering.system.Settles (.ofStep ⟨.ofRequest skipRequest, (), []⟩
      (cluttering.receive ⟨.ofRequest skipRequest, (), []⟩ (.request skipRequest))) := ⟨n, by rw [hreturned]; rfl⟩
  have herror := hsettles.advance 2
  exact error_never_returns hm ⟨"in", .skip, by decide, rfl, rfl⟩ herror

end Sample

end LibWorkflow
