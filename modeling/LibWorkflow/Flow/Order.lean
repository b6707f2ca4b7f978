import LibWorkflow.Flow.Graph

/-!
# The order of execution

A session performs the ordinary actions in the order of the workflow graph as long as it walks ahead: no
action that is planned or pending leads to one that was performed (`Dag.Ahead`). Two things break it. When
nothing is planned, `getNext` promotes the pending action with the smallest id, whatever the graph says;
and the bindings of a reserved step may lead back. `Orderly` excludes the two, and under it
`performed_in_order` holds.
-/

namespace LibWorkflow

open Ordered

/-! ### The condition -/

/-- Before each transition: performed actions are done and met their contract; an action with a
predecessor that is not done is executed only if no other planned or pending action leads to it; and no
binding of a reserved step that is executed leads to an action that was performed. -/
structure StateMachine.Orderly {ω : Type} (m : StateMachine ω) (c : Config ω) (label : Option Message) :
    Prop where
  completes : CompletesAsync c label
  fulfils : c.Fulfils m
  promoted : ∀ id w, c = .running (.executeAction id) w → 0 ≤ id →
    (∃ p, m.Leads p id ∧ w.session.status.find? p ≠ some .done) →
    ∀ r, 0 ≤ r → w.session.Active r → r ≠ id → ¬m.Reaches r id
  steps : ∀ id w, c = .running (.executeAction id) w → id < 0 → ∀ y, 0 ≤ y → m.Leads id y →
    ∀ q, 0 ≤ q → q ∈ StateMachine.performedIds w.trace → ¬m.Reaches y q

namespace StateMachine

variable {ω : Type} {m : StateMachine ω} {w : World ω} {out : Onward ω}

/-! ### The invariant -/

def PerformedNode (trace : List Event) (id : ℤ) : Prop := 0 ≤ id ∧ id ∈ performedIds trace

/-- Each ordinary action is performed once, and after that none of its predecessors is. -/
def InOrder (m : StateMachine ω) (trace : List Event) : Prop :=
  (performedIds trace).Pairwise fun a b => 0 ≤ a → a ≠ b ∧ ¬m.Leads b a

/-- The session walks ahead. -/
structure Walks (m : StateMachine ω) (s : Session) (trace : List Event) : Prop where
  order : m.InOrder trace
  ahead : Dag.Ahead m.Edge (ActiveNode s) (PerformedNode trace)
  done : ∀ id, 0 ≤ id → s.status.find? id = some .done → id ∈ performedIds trace
  quiet : s.Quiet
  started : performedIds trace = [] ∨ s.status.isEmpty = false

namespace Walks

variable {s s' : Session} {trace : List Event}

/-- Rescheduling, where what comes in leads to nothing that was performed. -/
theorem reschedules {ids : ℤ → Prop} (h : m.Walks s trace) (hs : m.Reschedules ids s s')
    (hnew : ∀ y, 0 ≤ y → ids y → ∀ q, PerformedNode trace q → ¬m.Reaches y q) : m.Walks s' trace where
  order := h.order
  ahead := by
    intro a ha q hq
    rcases hs.active ha.2 with hactive | hid
    · exact h.ahead a ⟨ha.1, hactive⟩ q hq
    · exact hnew a ha.1 hid q hq
  done id hid hst := h.done id hid (hs.status_of_started hst (by simp [ExecutionStatus.NotStarted]))
  quiet := hs.quiet h.quiet
  started := h.started.imp_right hs.started

theorem promotes (h : m.Walks s trace) (hs : m.Promotes s s') : m.Walks s' trace :=
  h.reschedules hs.reschedules fun y hy hmem q hq => h.ahead y ⟨hy, .inr hmem⟩ q hq

theorem plan (h : m.Walks s trace) {id : ℤ} (hneg : id < 0) (hreg : m.Registered id) :
    m.Walks (s.plan id) trace := by
  have hplan : m.Reschedules (· = id) s (s.plan id) := .plan rfl (.inr hreg)
  exact h.reschedules hplan fun y hy heq => absurd (heq ▸ hneg) (not_lt.mpr hy)

theorem congr (h : m.Walks s trace) {trace' : List Event} (hnexts : s'.nexts = s.nexts)
    (hpendings : s'.pendings = s.pendings) (hstatus : s'.status = s.status)
    (htrace : performedIds trace' = performedIds trace) : m.Walks s' trace' where
  order := by
    unfold InOrder
    rw [htrace]
    exact h.order
  ahead := by
    refine h.ahead.mono (fun a ha => ?_) (fun q hq => ?_)
    · unfold ActiveNode Session.Active at ha
      rwa [hnexts, hpendings] at ha
    · unfold PerformedNode at hq
      rwa [htrace] at hq
  done id hid hst := by
    rw [htrace]
    rw [hstatus] at hst
    exact h.done id hid hst
  quiet := h.quiet.congr hstatus
  started := by
    rw [htrace, hstatus]
    exact h.started

theorem of_idle (horder : m.InOrder trace) (hidle : s.Idle) (hdone : ∀ id, s.status.find? id ≠ some .done)
    (hquiet : s.Quiet) (hstarted : performedIds trace = [] ∨ s.status.isEmpty = false) : m.Walks s trace where
  order := horder
  ahead a ha := absurd ha.2 (Session.not_active_of_idle hidle a)
  done id _ hst := absurd hst (hdone id)
  quiet := hquiet
  started := hstarted

end Walks

theorem walks_reset {s : Session} {trace : List Event} (horder : m.InOrder trace) {id : ℤ} (hneg : id < 0)
    (hreg : m.Registered id) : m.Walks ((m.resetSchedule s).plan id) trace := by
  have hdone : ∀ a, (m.resetSchedule s).status.find? a ≠ some .done := fun a hst =>
    nomatch ((resetSchedule_status s a).mp hst).2
  have hstarted : (m.resetSchedule s).status.isEmpty = false :=
    started_of_statused (resetSchedule_statused s) hreg
  exact (Walks.of_idle horder (resetSchedule_idle s) hdone (quiet_resetSchedule s) (.inr hstarted)).plan
    hneg hreg

end StateMachine

/-- The invariant: the session walks ahead, and the targets of a result lead to nothing that was
performed. -/
def Config.Walks {ω : Type} (m : StateMachine ω) : Config ω → Prop
  | .running (.executeAction _) w => m.Walks w.session w.trace
  | .running (.actionExecuted result) w => m.Walks w.session w.trace ∧
      result.actionId ∈ StateMachine.performedIds w.trace ∧
      ∀ y, 0 ≤ y → m.Leads result.actionId y → ∀ q, StateMachine.PerformedNode w.trace q → ¬m.Reaches y q
  | .returned w => m.Walks w.session w.trace
  | .crashed _ w => m.InOrder w.trace

namespace StateMachine

variable {ω : Type} {m : StateMachine ω} {w : World ω} {out : Onward ω}

/-! ### One action -/

/-- An ordinary action is performed: nothing that is active leads to it, and it leads to nothing that was
performed. -/
theorem Walks.ordinary {id : ℤ} (hw : m.Walks w.session w.trace) (hacyclic : m.Acyclic) (hid : 0 ≤ id)
    (hactive : w.session.Active id)
    (hguard : m.Orderly (.running (.executeAction id) w) none) :
    (∀ r, ActiveNode w.session r → r ≠ id → ¬m.Reaches r id) ∧
      ∀ y, 0 ≤ y → m.Leads id y → ∀ q, PerformedNode w.trace q ∨ q = id → ¬m.Reaches y q := by
  have hnode : ActiveNode w.session id := ⟨hid, hactive⟩
  refine ⟨fun r hr hne => ?_, fun y hy hleads q hq => ?_⟩
  · by_cases hready : ∃ p, m.Leads p id ∧ w.session.status.find? p ≠ some .done
    · exact hguard.promoted id w rfl hid hready r hr.1 hr.2 hne
    · -- all predecessors are done, so they were performed
      refine hw.ahead.minimal (fun p hp => ⟨hp.1, hw.done p hp.1 ?_⟩) hr hne
      by_contra hnot
      exact hready ⟨p, hp.2.2, hnot⟩
  · exact hw.ahead.successor hacyclic hnode ⟨hid, hy, hleads⟩ hq

/-- Whatever is executed leads ahead: an ordinary action was planned, and a reserved step is no node of the
graph. -/
theorem Walks.leads {id : ℤ} (hw : m.Walks w.session w.trace) (hacyclic : m.Acyclic)
    (hplanned : 0 ≤ id → w.session.Active id) (hguard : m.Orderly (.running (.executeAction id) w) none) :
    (∀ r, ActiveNode w.session r → r ≠ id → 0 ≤ id → ¬m.Reaches r id) ∧
      ∀ y, 0 ≤ y → m.Leads id y → ∀ q, PerformedNode w.trace q ∨ 0 ≤ id ∧ q = id → ¬m.Reaches y q := by
  by_cases hid : 0 ≤ id
  · obtain ⟨hmin, hnew⟩ := hw.ordinary hacyclic hid (hplanned hid) hguard
    refine ⟨fun r hr hne _ => hmin r hr hne, fun y hy hleads q hq => ?_⟩
    exact hnew y hy hleads q (hq.imp_right And.right)
  · refine ⟨fun r _ _ hid' => absurd hid' hid, fun y hy hleads q hq => ?_⟩
    have hold : PerformedNode w.trace q := hq.resolve_right fun h => hid h.1
    exact hguard.steps id w rfl (not_le.mp hid) y hy hleads q hold.1 hold.2

/-- What is performed after an action: what was before, and the action if it is an ordinary one. -/
theorem performedNode_cases {trace trace' : List Event} {id q : ℤ}
    (htrace : performedIds trace' = performedIds trace ++ [id]) (hq : PerformedNode trace' q) :
    PerformedNode trace q ∨ 0 ≤ id ∧ q = id := by
  obtain ⟨hpos, hmem⟩ := hq
  rw [htrace] at hmem
  rcases List.mem_append.mp hmem with hmem | hmem
  · exact .inl ⟨hpos, hmem⟩
  · have heq : q = id := List.mem_singleton.mp hmem
    exact .inr ⟨heq ▸ hpos, heq⟩

theorem Walks.perform {s s' : Session} {trace trace' : List Event} {id : ℤ} (hw : m.Walks s trace)
    (hplanned : 0 ≤ id → s.Active id) (hmin : ∀ r, ActiveNode s r → r ≠ id → 0 ≤ id → ¬m.Reaches r id)
    (hnew : ∀ y, 0 ≤ y → m.Leads id y → ∀ q, PerformedNode trace' q → ¬m.Reaches y q)
    (hsame : (m.beginAction s id).SameFlow s') (hstarted : (m.beginAction s id).status.isEmpty = false)
    (htrace : performedIds trace' = performedIds trace ++ [id]) : m.Walks s' trace' where
  order := by
    unfold InOrder
    rw [htrace, List.pairwise_append]
    refine ⟨hw.order, List.pairwise_singleton .., ?_⟩
    intro a ha b hb hpos
    cases List.mem_singleton.mp hb
    have hnode : PerformedNode trace' a := ⟨hpos, htrace ▸ List.mem_append_left _ ha⟩
    refine ⟨?_, fun hleads => hnew a hpos hleads a hnode .refl⟩
    rintro rfl
    exact hw.ahead.not_performed ⟨hpos, hplanned hpos⟩ ⟨hpos, ha⟩
  ahead := by
    intro r hr q hq
    have hactive : (m.beginAction s id).Active r := by
      have hactive := hr.2
      unfold Session.Active at hactive ⊢
      rwa [hsame.nexts, hsame.pendings] at hactive
    obtain ⟨hbefore, hne, -⟩ := active_beginAction hactive
    rcases performedNode_cases htrace hq with hold | ⟨hid, rfl⟩
    · exact hw.ahead r ⟨hr.1, hbefore⟩ q hold
    · exact hmin r ⟨hr.1, hbefore⟩ hne hid
  done a ha hst := by
    rw [hsame.status] at hst
    rw [htrace]
    exact List.mem_append_left _ (hw.done a ha (done_of_beginAction hst))
  quiet := (quiet_beginAction (.inl hw.quiet)).congr hsame.status
  started := by
    rw [hsame.status]
    exact .inr hstarted

theorem executeAction_walks (hm : m.Laid) (hown : m.OwnResults) (hacyclic : m.Acyclic) {id : ℤ}
    (hcalled : m.Called w.session id) (hs : m.Statused w.session) (hw : m.Walks w.session w.trace)
    (hguard : m.Orderly (.running (.executeAction id) w) none) (h : m.executeAction w id = .ok out) :
    (Config.after out).Walks m := by
  cases executeAction_cases h with
  | die =>
    apply hw.congr rfl rfl rfl
    exact (performedIds_append _ _).trans (List.append_nil _)
  | nothing h =>
    cases executeNone_cases (hcalled.nothing rfl) h with
    | finish _ hreg => exact hw.plan (by decide) hreg
    | error _ hreg => exact (hw.plan (by decide) hreg).congr rfl rfl rfl rfl
  | @action _ ptr hdie hneg hptr w' result hperform =>
    have hflow := ptr.sameFlow_of_perform hperform
    have htrace := performedIds_perform hm hptr hperform
    have hresult : result.actionId = id := hown.perform hm hptr hperform
    obtain ⟨hmin, hnew⟩ := hw.leads hacyclic hcalled.active hguard
    have hnew' : ∀ y, 0 ≤ y → m.Leads id y → ∀ q, PerformedNode w'.trace q → ¬m.Reaches y q :=
      fun y hy hleads q hq => hnew y hy hleads q (performedNode_cases htrace hq)
    have hstarted : (m.beginAction w.session id).status.isEmpty = false :=
      started_of_statused (beginAction_statused hs id) ⟨ptr, hptr⟩
    refine ⟨hw.perform hcalled.active hmin hnew' hflow hstarted htrace, ?_, ?_⟩
    · rw [hresult, htrace]
      exact List.mem_append_right _ (List.mem_singleton.mpr rfl)
    · rw [hresult]
      exact hnew'
  | absent =>
    refine ⟨hw.order, ?_, ?_, quiet_beginAction (.inl hw.quiet), ?_⟩
    · exact hw.ahead.mono (fun a ha => ⟨ha.1, (active_beginAction ha.2).1⟩) fun q hq => hq
    · exact fun a ha hst => hw.done a ha (done_of_beginAction hst)
    · exact hw.started.imp_right fun h => started_beginAction (.inr h)

/-! ### Results and messages -/

theorem actionExecuted_walks {result : Result} (hw : (Config.running (.actionExecuted result) w).Walks m)
    (hguard : m.Orderly (.running (.actionExecuted result) w) none)
    (h : m.actionExecuted w result = .ok out) : (Config.after out).Walks m := by
  obtain ⟨hwalks, hperformed, hnew⟩ := hw
  have hfulfils : m.Fulfils w result := hguard.fulfils
  obtain ⟨ptr, hptr, hconsumed⟩ := actionExecuted_cases h
  have hset : m.Walks (w.session.setStatus result.actionId .done) w.trace := by
    refine ⟨hwalks.order, hwalks.ahead, fun a ha hst => ?_, ?_, .inr (started_setStatus ..)⟩
    · by_cases heq : a = result.actionId
      · rw [heq]
        exact hperformed
      · exact hwalks.done a ha ((OrdMap.find?_insert_of_ne _ _ heq).symm.trans hst)
    · exact (hwalks.quiet.awaitsOnly result.actionId).settle (by decide) (by decide)
  obtain ⟨s, s', next, hbind, hnext, rfl⟩ := hfulfils.consumed hptr hconsumed
  have hbound := hset.reschedules (bindResults_reschedules hbind) hnew
  exact hbound.promotes (getNext_spec hnext).1

theorem firstCall_walks (hw : m.Walks w.session w.trace) (hfresh : w.session.status.isEmpty = true)
    (h : m.firstCall w = .ok out) : (Config.after out).Walks m := by
  have hnone : performedIds w.trace = [] := hw.started.resolve_right (by rw [hfresh]; decide)
  have hprepared : m.Walks (w.session.setStatuses m.actions.keys .unplanned) w.trace := by
    refine ⟨hw.order, hw.ahead, fun a ha hst => ?_, fun a ha => ?_, .inl hnone⟩
    · unfold Session.setStatuses at hst
      rw [OrdMap.find?_insertAll] at hst
      split_ifs at hst
      · cases hst
      · exact hw.done a ha hst
    · unfold Session.InFlight Session.setStatuses at ha
      rw [OrdMap.find?_insertAll] at ha
      split_ifs at ha
      · simp at ha
      · exact hw.quiet a ha
  have hnew : ∀ (y q : ℤ), PerformedNode w.trace q → ¬m.Reaches y q := fun y q hq => by
    rw [PerformedNode, hnone] at hq
    exact nomatch hq.2
  obtain ⟨complete, s, hstarters, hcases⟩ := firstCall_cases h
  have hinputs : m.Walks (m.prepared w.session) w.trace :=
    hprepared.reschedules (setStarterInputs_reschedules (m := m) m.starters _) fun y _ _ q hq => hnew y q hq
  have hscheduled : m.Walks s w.trace :=
    hinputs.reschedules (scheduleStarters_reschedules hstarters) fun y _ _ q hq => hnew y q hq
  rcases hcases with ⟨-, next, s', hnext, rfl⟩ | ⟨-, rfl⟩
  · exact hscheduled.promotes (getNext_spec hnext).1
  · exact hscheduled

theorem receive_walks (hm : m.Laid) {message : Message} (hw : m.Walks w.session w.trace)
    (hguard : m.Orderly (.returned w) (some message)) (h : m.receive w message = .ok out) :
    (Config.after out).Walks m := by
  cases receive_cases hm h with
  | @firstCall request _ hfresh h =>
    have hpush : m.Walks (w.session.pushRequest request) w.trace := hw.congr rfl rfl rfl rfl
    exact firstCall_walks (w := ⟨w.session.pushRequest request, w.env, w.trace⟩) hpush hfresh h
  | answered _ _ _ hwait => exact absurd (.inl hwait) (hw.quiet _)
  | @reset request step _ hkind hreg =>
    have hneg : step.id < 0 := by rcases hkind with ⟨-, rfl, -⟩ | ⟨-, rfl⟩ <;> decide
    exact walks_reset hw.order hneg hreg
  | ignored => exact hw.congr rfl rfl rfl rfl
  | @finished result _ h =>
    have hasync : w.session.status.find? result.actionId = some .async := hguard.completes result rfl
    exact absurd (.inr hasync) (hw.quiet _)

/-- **Order of execution.** On an acyclic workflow, in a run in which performed actions are done and
nothing is promoted or led back out of order, an ordinary action is performed at most once and never before
a predecessor that is performed too. -/
theorem performed_in_order (hm : Constructed m) (hown : m.OwnResults) (hacyclic : m.Acyclic)
    {request : Request} {env : ω} {c : Config ω} (hrun : m.system.Run m.Orderly (opened request env) c) :
    (performedIds c.world.trace).Pairwise fun a b => 0 ≤ a → a ≠ b ∧ ¬m.Leads b a := by
  have hstart : m.Walks (.ofRequest request) [] :=
    .of_idle .nil ⟨rfl, rfl⟩ (fun _ h => nomatch h) (Session.quiet_ofRequest request) (.inl rfl)
  have hinv : c.Grounded m ∧ c.Statused m ∧ c.Walks m := by
    refine run_induction (I := fun c => c.Grounded m ∧ c.Statused m ∧ c.Walks m) hrun
      ⟨Grounded.ofRequest request, .inl rfl, hstart⟩ ?_ ?_ ?_ ?_
    · rintro (id | result) w out ⟨hw, hs, hwalks⟩ hguard h
      · exact ⟨executeAction_grounded hw h, executeAction_statused hw hs h,
          executeAction_walks hm.laid hown hacyclic hw hs hwalks hguard h⟩
      · exact ⟨actionExecuted_grounded hm.laid hw h, actionExecuted_statused hs h,
          actionExecuted_walks hwalks hguard h⟩
    · rintro message w out ⟨hw, hs, hwalks⟩ hguard h
      exact ⟨receive_grounded hm.laid hw h, receive_statused hm.laid hs hguard.completes h,
        receive_walks hm.laid hwalks hguard h⟩
    · rintro (id | result) w fault ⟨hw, -, hwalks⟩ - -
      · exact ⟨hw.grounded, trivial, hwalks.order⟩
      · exact ⟨hw, trivial, hwalks.1.order⟩
    · rintro message w fault ⟨hw, -, hwalks⟩ - -
      exact ⟨hw, trivial, hwalks.order⟩
  have horder : ∀ c : Config ω, c.Walks m → m.InOrder c.world.trace := by
    rintro (⟨id | result, w⟩ | w | ⟨fault, w⟩) hwalks
    · exact hwalks.order
    · exact hwalks.1.order
    · exact hwalks.order
    · exact hwalks
  exact horder c hinv.2.2

end StateMachine

/-- The action that is executed next, if it is an ordinary one, has only predecessors that are done. -/
def Config.Ready {ω : Type} (m : StateMachine ω) : Config ω → Prop
  | .running (.executeAction id) w =>
    0 ≤ id → ∀ p ∈ ((m.inputsMap.find? id).getD ∅).elems, w.session.status.find? p = some .done
  | _ => True

instance {ω : Type} (m : StateMachine ω) : (c : Config ω) → Decidable (c.Ready m)
  | .running (.executeAction _) _ => inferInstanceAs (Decidable (_ → ∀ _ ∈ _, _))
  | .running (.actionExecuted _) _ | .returned _ | .crashed _ _ => inferInstanceAs (Decidable True)

namespace StateMachine

variable {ω : Type} {m : StateMachine ω}

/-- A run that promotes nothing is orderly where no reserved step leads back. -/
theorem orderly_of_ready (hm : m.Laid) (hback : ∀ entry ∈ m.outputs.entries, entry.1 < 0 →
    ∀ output ∈ entry.2, output.toActionId < 0) {c : Config ω} (hfulfils : c.Fulfils m) (hready : c.Ready m) :
    m.Orderly c none where
  completes _ h := nomatch h
  fulfils := hfulfils
  promoted id w hc hid hpred := by
    obtain ⟨p, hleads, hnot⟩ := hpred
    rw [hc] at hready
    exact absurd (hready hid p (hm.inputs.mpr hleads)) hnot
  steps id w _ hneg y hy hleads := by
    obtain ⟨entry, hentry, rfl, output, houtput, rfl⟩ := exists_entry_of_leads hleads
    exact absurd hy (not_le.mpr (hback entry hentry hneg output houtput))

end StateMachine

namespace Sample

open StateMachine

theorem chain_ready : ∀ n < 12, (started chain n).Fulfils chain ∧ (started chain n).Ready chain := by decide

/-- The whole first call of the chain, in order. -/
theorem chain_in_order : performedIds (started chain 12).world.trace = [0, 1, -1010, -1020] ∧
    (performedIds (started chain 12).world.trace).Pairwise fun a b => 0 ≤ a → a ≠ b ∧ ¬chain.Leads b a := by
  have hm : Constructed chain := Initialised.constructed (.addInput (.addAction (.addAction .refl _ _ _) _ _ _) _)
  have hguard : ∀ n < 12, chain.Orderly (started chain n) none := fun n hn =>
    orderly_of_ready hm.laid (by decide) (chain_ready n hn).1 (chain_ready n hn).2
  refine ⟨by decide, performed_in_order hm chain_ownResults (acyclic_of_rank Int.toNat (by decide))
    (.advance_of (.input .start ?_ rfl) hguard)⟩
  exact {
    completes := fun _ h => nomatch h
    fulfils := trivial
    promoted := fun _ _ h => nomatch h
    steps := fun _ _ h => nomatch h }

/-- Two paths that join, where one action is skipped: after 2, both 3 and its predecessor 4 are pending. -/
def jumbled : StateMachine Unit :=
  ((((((new.init.addAction 0 skipping [leadTo 2, bindingTo 0 "skip" 1 ""]).addAction 1 (returning .done)
    [leadTo 4]).addAction 2 (returning .done) [leadTo 3, leadTo 4]).addAction 3 (returning .done)
    [leadTo Step.finish.id]).addAction 4 (returning .done) [leadTo 3])).addInput ⟨"", 0, ""⟩

theorem jumbled_fulfils : ∀ n < 10, (started jumbled n).Fulfils jumbled := by decide

/-- The smaller id is promoted first: 3 is performed before its predecessor 4, and once more after it. -/
theorem performed_out_of_order : jumbled.validate = none ∧ jumbled.Acyclic ∧
    jumbled.system.Run (fun c _ => c.Fulfils jumbled) (opened (request .defaultAction 0 0) ())
      (started jumbled 10) ∧
    performedIds (started jumbled 10).world.trace = [0, 2, 3, 4, 3] ∧
    ¬(performedIds (started jumbled 10).world.trace).Pairwise fun a b => 0 ≤ a → a ≠ b ∧ ¬jumbled.Leads b a := by
  have htrace : performedIds (started jumbled 10).world.trace = [0, 2, 3, 4, 3] := by decide
  refine ⟨by decide, ?_, .advance_of (.input .start trivial rfl) jumbled_fulfils, htrace, ?_⟩
  · exact acyclic_of_rank (fun a => if a = 3 then 5 else a.toNat) (by decide)
  · rw [htrace]
    intro h
    have htail : List.Pairwise (fun a b => 0 ≤ a → a ≠ b ∧ ¬jumbled.Leads b a) [3, 4, 3] :=
      h.sublist (by decide)
    have hpair := (List.pairwise_cons.mp htail).1 3 (by decide) (by decide)
    exact hpair.1 rfl

end Sample

end LibWorkflow
