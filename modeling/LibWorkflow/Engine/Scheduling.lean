import LibWorkflow.Core.Engine
import LibWorkflow.Engine.Layout
import LibWorkflow.Lib.Fallible

/-!
# What scheduling does

The functions that plan actions (`addToNext`, `addToPending`, `bindResults`, `tryPromotePending`,
`getNext`, the loops of `firstCall`), each with the lemma its callers use. They write nothing but the
schedule of the session (`nexts`, `pendings` and `status`) and its inputs, and the schedule only at the
ids they are about: `Reschedules ids s s'` says so, and it composes. Which of them succeed is the
matter of `Statused`: an action that is registered has a status.
-/

namespace LibWorkflow

open Ordered Fallible

/-- The statuses of an action that was neither performed nor answered since the last reset. -/
def ExecutionStatus.NotStarted (status : ExecutionStatus) : Prop :=
  status = .unplanned ∨ status = .pending ∨ status = .planned ∨ status = .skipped

namespace Session

def Active (s : Session) (id : ℤ) : Prop := id ∈ s.nexts ∨ id ∈ s.pendings

def Idle (s : Session) : Prop := s.nexts = ∅ ∧ s.pendings = ∅

/-- What `addToNext` writes. -/
def plan (s : Session) (id : ℤ) : Session :=
  { s with nexts := s.nexts.insert id, status := s.status.insert id .planned }

/-- What `addToPending` writes. -/
def pend (s : Session) (id : ℤ) : Session :=
  { s with pendings := s.pendings.insert id, status := s.status.insert id .pending }

def unschedule (s : Session) (id : ℤ) (status : ExecutionStatus) : Session :=
  ((s.removeFromNext id).removeFromPending id).setStatus id status

theorem not_active_of_idle {s : Session} (h : s.Idle) (id : ℤ) : ¬s.Active id := by
  rintro (hid | hid)
  · rw [h.1] at hid; cases hid
  · rw [h.2] at hid; cases hid

end Session

namespace StateMachine

variable {ω : Type} {m : StateMachine ω}

/-! ### Single writes -/

theorem actionAt_eq_ok {id : ℤ} {ptr : ActionPtr ω} :
    m.actionAt id = .ok ptr ↔ m.actions.find? id = some ptr := by
  unfold actionAt
  cases m.actions.find? id <;> simp

theorem exists_actionAt {id : ℤ} (h : m.Registered id) : ∃ ptr, m.actionAt id = .ok ptr := by
  obtain ⟨ptr, hptr⟩ := h
  exact ⟨ptr, actionAt_eq_ok.mpr hptr⟩

theorem addToNext_eq_ok {s s' : Session} {id : ℤ} :
    m.addToNext s id = .ok s' ↔ (id = Step.die.id ∨ m.Registered id) ∧ s' = s.plan id := by
  unfold addToNext
  by_cases hdie : id = Step.die.id
  · rw [if_neg (not_not.mpr hdie)]
    constructor
    · intro h
      cases h
      exact ⟨.inl hdie, rfl⟩
    · rintro ⟨-, rfl⟩
      rfl
  · rw [if_pos hdie, bind_eq_ok]
    constructor
    · rintro ⟨ptr, hptr, h⟩
      cases h
      exact ⟨.inr ⟨ptr, actionAt_eq_ok.mp hptr⟩, rfl⟩
    · rintro ⟨hreg, rfl⟩
      obtain ⟨ptr, hptr⟩ := exists_actionAt (hreg.resolve_left hdie)
      exact ⟨ptr, hptr, rfl⟩

theorem addToNext_of_registered (s : Session) {id : ℤ} (h : m.Registered id) :
    m.addToNext s id = .ok (s.plan id) := addToNext_eq_ok.mpr ⟨.inr h, rfl⟩

theorem addToPending_eq_ok {s s' : Session} {id : ℤ} :
    m.addToPending s id = .ok s' ↔ m.Registered id ∧ s' = s.pend id := by
  unfold addToPending
  rw [bind_eq_ok]
  constructor
  · rintro ⟨ptr, hptr, h⟩
    cases h
    exact ⟨⟨ptr, actionAt_eq_ok.mp hptr⟩, rfl⟩
  · rintro ⟨hreg, rfl⟩
    obtain ⟨ptr, hptr⟩ := exists_actionAt hreg
    exact ⟨ptr, hptr, rfl⟩

/-! ### The frame -/

/-- From `s` to `s'` only the schedule and the inputs change, and the schedule only at `ids`: these are
left as they were, or planned, pending, skipped or unplanned. -/
structure Reschedules (m : StateMachine ω) (ids : ℤ → Prop) (s s' : Session) : Prop where
  rest : s' = { s with
    nexts := s'.nexts, pendings := s'.pendings, status := s'.status, inputs := s'.inputs }
  nexts : ∀ id, id ∈ s'.nexts → id ∈ s.nexts ∨ (ids id ∧ (id = Step.die.id ∨ m.Registered id))
  pendings : ∀ id, id ∈ s'.pendings → id ∈ s.pendings ∨ (ids id ∧ m.Registered id)
  kept : ∀ id, ¬ids id → (id ∈ s'.nexts ↔ id ∈ s.nexts) ∧ (id ∈ s'.pendings ↔ id ∈ s.pendings)
  status : ∀ id, s'.status.find? id = s.status.find? id ∨
    ids id ∧ ∃ status, s'.status.find? id = some status ∧ status.NotStarted

namespace Reschedules

variable {ids ids' : ℤ → Prop} {s s' s'' : Session}

theorem refl (s : Session) : m.Reschedules ids s s :=
  ⟨rfl, fun _ h => .inl h, fun _ h => .inl h, fun _ _ => ⟨Iff.rfl, Iff.rfl⟩, fun _ => .inl rfl⟩

theorem trans (h : m.Reschedules ids s s') (h' : m.Reschedules ids s' s'') :
    m.Reschedules ids s s'' where
  rest := by rw [h'.rest, h.rest]
  nexts id hid := (h'.nexts id hid).elim (h.nexts id) .inr
  pendings id hid := (h'.pendings id hid).elim (h.pendings id) .inr
  kept id hid :=
    ⟨(h'.kept id hid).1.trans (h.kept id hid).1, (h'.kept id hid).2.trans (h.kept id hid).2⟩
  status id := (h'.status id).elim (fun heq => heq ▸ h.status id) .inr

theorem mono (h : m.Reschedules ids s s') (hids : ∀ id, ids id → ids' id) :
    m.Reschedules ids' s s' where
  rest := h.rest
  nexts id hid := (h.nexts id hid).imp_right fun ⟨hi, hreg⟩ => ⟨hids id hi, hreg⟩
  pendings id hid := (h.pendings id hid).imp_right fun ⟨hi, hreg⟩ => ⟨hids id hi, hreg⟩
  kept id hid := h.kept id fun hi => hid (hids id hi)
  status id := (h.status id).imp_right fun ⟨hi, hrest⟩ => ⟨hids id hi, hrest⟩

theorem plan {id : ℤ} (hid : ids id) (hreg : id = Step.die.id ∨ m.Registered id) :
    m.Reschedules ids s (s.plan id) where
  rest := rfl
  nexts _ ha := by
    rcases OrdSet.mem_insert.mp ha with rfl | ha
    · exact .inr ⟨hid, hreg⟩
    · exact .inl ha
  pendings _ ha := .inl ha
  kept a ha := ⟨⟨fun h => (OrdSet.mem_insert.mp h).resolve_left (fun heq => ha (heq ▸ hid)),
    fun h => OrdSet.mem_insert.mpr (.inr h)⟩, Iff.rfl⟩
  status a := by
    by_cases ha : a = id
    · rw [ha]
      exact .inr ⟨hid, .planned, OrdMap.find?_insert_self .., .inr (.inr (.inl rfl))⟩
    · exact .inl (OrdMap.find?_insert_of_ne _ _ ha)

theorem pend {id : ℤ} (hid : ids id) (hreg : m.Registered id) : m.Reschedules ids s (s.pend id) where
  rest := rfl
  nexts _ ha := .inl ha
  pendings _ ha := by
    rcases OrdSet.mem_insert.mp ha with rfl | ha
    · exact .inr ⟨hid, hreg⟩
    · exact .inl ha
  kept a ha := ⟨Iff.rfl, fun h => (OrdSet.mem_insert.mp h).resolve_left (fun heq => ha (heq ▸ hid)),
    fun h => OrdSet.mem_insert.mpr (.inr h)⟩
  status a := by
    by_cases ha : a = id
    · rw [ha]
      exact .inr ⟨hid, .pending, OrdMap.find?_insert_self .., .inr (.inl rfl)⟩
    · exact .inl (OrdMap.find?_insert_of_ne _ _ ha)

theorem removeFromNext {id : ℤ} (hid : ids id) : m.Reschedules ids s (s.removeFromNext id) where
  rest := rfl
  nexts _ ha := .inl (OrdSet.mem_erase.mp ha).2
  pendings _ ha := .inl ha
  kept _ ha := ⟨⟨fun h => (OrdSet.mem_erase.mp h).2,
    fun h => OrdSet.mem_erase.mpr ⟨fun heq => ha (heq ▸ hid), h⟩⟩, Iff.rfl⟩
  status _ := .inl rfl

theorem removeFromPending {id : ℤ} (hid : ids id) : m.Reschedules ids s (s.removeFromPending id) where
  rest := rfl
  nexts _ ha := .inl ha
  pendings _ ha := .inl (OrdSet.mem_erase.mp ha).2
  kept _ ha := ⟨Iff.rfl, fun h => (OrdSet.mem_erase.mp h).2,
    fun h => OrdSet.mem_erase.mpr ⟨fun heq => ha (heq ▸ hid), h⟩⟩
  status _ := .inl rfl

theorem setStatus {id : ℤ} {status : ExecutionStatus} (hid : ids id) (hst : status.NotStarted) :
    m.Reschedules ids s (s.setStatus id status) where
  rest := rfl
  nexts _ ha := .inl ha
  pendings _ ha := .inl ha
  kept _ _ := ⟨Iff.rfl, Iff.rfl⟩
  status a := by
    by_cases ha : a = id
    · rw [ha]
      exact .inr ⟨hid, status, OrdMap.find?_insert_self .., hst⟩
    · exact .inl (OrdMap.find?_insert_of_ne _ _ ha)

theorem unschedule {id : ℤ} {status : ExecutionStatus} (hid : ids id) (hst : status.NotStarted) :
    m.Reschedules ids s (s.unschedule id status) :=
  ((removeFromNext hid).trans (removeFromPending hid)).trans (setStatus hid hst)

theorem removeFromPending_plan {id : ℤ} (hid : ids id) (hreg : id = Step.die.id ∨ m.Registered id) :
    m.Reschedules ids s ((s.removeFromPending id).plan id) :=
  (removeFromPending hid).trans (plan hid hreg)

theorem removeFromNext_pend {id : ℤ} (hid : ids id) (hreg : m.Registered id) :
    m.Reschedules ids s ((s.removeFromNext id).pend id) :=
  (removeFromNext hid).trans (pend hid hreg)

theorem setInput (id : ℤ) (name : String) (ctx : Option Context) :
    m.Reschedules ids s (s.setInput id name ctx) :=
  ⟨rfl, fun _ h => .inl h, fun _ h => .inl h, fun _ _ => ⟨Iff.rfl, Iff.rfl⟩, fun _ => .inl rfl⟩

theorem outputs (h : m.Reschedules ids s s') : s'.outputs = s.outputs := by rw [h.rest]

theorem active (h : m.Reschedules ids s s') {id : ℤ} (hid : s'.Active id) : s.Active id ∨ ids id := by
  rcases hid with hid | hid
  · exact (h.nexts id hid).imp .inl And.left
  · exact (h.pendings id hid).imp .inr And.left

theorem status_of_started (h : m.Reschedules ids s s') {id : ℤ} {status : ExecutionStatus}
    (hst : s'.status.find? id = some status) (hnot : ¬status.NotStarted) :
    s.status.find? id = some status := by
  rcases h.status id with heq | ⟨-, status', hst', hns⟩
  · rw [← heq]; exact hst
  · rw [hst] at hst'; cases hst'; exact absurd hns hnot

end Reschedules

/-! ### Statuses -/

def Statused (m : StateMachine ω) (s : Session) : Prop :=
  ∀ id, m.Registered id → ∃ status, s.status.find? id = some status

theorem Statused.setStatus {s : Session} (h : m.Statused s) (id : ℤ) (status : ExecutionStatus) :
    m.Statused (s.setStatus id status) := by
  intro a ha
  by_cases heq : a = id
  · exact ⟨status, by rw [heq]; exact OrdMap.find?_insert_self ..⟩
  · obtain ⟨st, hst⟩ := h a ha
    exact ⟨st, (OrdMap.find?_insert_of_ne _ _ heq).trans hst⟩

theorem Reschedules.statused {ids : ℤ → Prop} {s s' : Session} (h : m.Reschedules ids s s')
    (hs : m.Statused s) : m.Statused s' := by
  intro id hid
  rcases h.status id with heq | ⟨-, status, hst, -⟩
  · obtain ⟨status, hst⟩ := hs id hid
    exact ⟨status, heq.trans hst⟩
  · exact ⟨status, hst⟩

/-! ### The guards -/

theorem allDone_eq_true {s : Session} {l : List ℤ} :
    m.allDone s l = .ok true ↔ ∀ a ∈ l, s.status.find? a = some .done := by
  induction l with
  | nil => simp [allDone]
  | cons a l ih =>
    rw [allDone, bind_eq_ok, List.forall_mem_cons]
    constructor
    · rintro ⟨status, hst, h⟩
      split_ifs at h with hdone
      · exact ⟨hdone ▸ Session.getStatus_eq_ok.mp hst, ih.mp h⟩
      · obtain ⟨_, _, h⟩ := bind_eq_ok.mp h
        cases h
    · rintro ⟨ha, hl⟩
      exact ⟨.done, Session.getStatus_eq_ok.mpr ha, by rw [if_pos rfl]; exact ih.mpr hl⟩

theorem allDone_succeeds {s : Session} (hs : m.Statused s) {l : List ℤ} (hl : ∀ a ∈ l, m.Registered a) :
    ∃ b, m.allDone s l = .ok b := by
  induction l with
  | nil => exact ⟨true, rfl⟩
  | cons a l ih =>
    obtain ⟨status, hst⟩ := hs a (hl a (.head l))
    rw [allDone, Session.getStatus_eq_ok.mpr hst]
    by_cases hdone : status = .done
    · obtain ⟨b, hb⟩ := ih fun a ha => hl a (.tail _ ha)
      exact ⟨b, (if_pos hdone).trans hb⟩
    · obtain ⟨ptr, hptr⟩ := exists_actionAt (hl a (.head l))
      refine ⟨false, (if_neg hdone).trans ?_⟩
      rw [hptr]
      rfl

theorem canExecuteAction_eq_true (hm : m.Laid) {env : ω} {s : Session} {ptr : ActionPtr ω} :
    m.canExecuteAction env s ptr = .ok true ↔
      ptr.checkInputs env s = true ∧ ptr.canPerform env s = true ∧
        ∀ a, m.Leads a ptr.getActionId → s.status.find? a = some .done := by
  unfold canExecuteAction
  by_cases hchecks : (ptr.checkInputs env s && ptr.canPerform env s) = true
  · rw [if_pos hchecks]
    rw [Bool.and_eq_true] at hchecks
    simp only [hchecks, true_and]
    have hiff : ∀ a, a ∈ (m.inputsMap.find? ptr.getActionId).getD ∅ ↔ m.Leads a ptr.getActionId :=
      fun a => hm.inputs
    cases hin : m.inputsMap.find? ptr.getActionId with
    | none =>
      rw [hin] at hiff
      exact ⟨fun _ a ha => (nomatch (hiff a).mpr ha), fun _ => rfl⟩
    | some inputs =>
      rw [hin] at hiff
      refine allDone_eq_true.trans (forall_congr' fun a => ?_)
      rw [← hiff a]
      rfl
  · rw [if_neg hchecks]
    rw [Bool.and_eq_true, not_and] at hchecks
    exact ⟨(nomatch ·), fun ⟨h₁, h₂, _⟩ => absurd h₂ (hchecks h₁)⟩

theorem canExecuteAction_succeeds (hm : m.Laid) {env : ω} {s : Session} (hs : m.Statused s)
    (ptr : ActionPtr ω) : ∃ b, m.canExecuteAction env s ptr = .ok b := by
  unfold canExecuteAction
  split_ifs
  · cases hin : m.inputsMap.find? ptr.getActionId with
    | none => exact ⟨true, rfl⟩
    | some inputs =>
      refine allDone_succeeds hs fun a ha => hm.source (b := ptr.getActionId) (hm.inputs.mp ?_)
      rw [hin]
      exact ha
  · exact ⟨false, rfl⟩

/-! ### Bindings -/

/-- What becomes of a target of a binding: skipped, planned, pending or unplanned. -/
inductive Placed (m : StateMachine ω) (env : ω) (s : Session) (id : ℤ) (ptr : ActionPtr ω) :
    Session → Prop
  | skipped (hskip : s.hasSkipInput id = true) : Placed m env s id ptr (s.unschedule id .skipped)
  | planned (hskip : s.hasSkipInput id = false) (hexec : m.canExecuteAction env s ptr = .ok true)
      (hreg : id = Step.die.id ∨ m.Registered id) :
      Placed m env s id ptr ((s.removeFromPending id).plan id)
  | pending (hskip : s.hasSkipInput id = false) (hexec : m.canExecuteAction env s ptr = .ok false)
      (hpend : canPendAction env s ptr = true) (hreg : m.Registered id) :
      Placed m env s id ptr ((s.removeFromNext id).pend id)
  | unplanned (hskip : s.hasSkipInput id = false) (hexec : m.canExecuteAction env s ptr = .ok false)
      (hpend : canPendAction env s ptr = false) :
      Placed m env s id ptr (s.unschedule id .unplanned)

theorem scheduleTarget_cases {env : ω} {s s' : Session} {id : ℤ} {ptr : ActionPtr ω}
    (h : m.scheduleTarget env s id ptr = .ok s') : m.Placed env s id ptr s' := by
  unfold scheduleTarget at h
  cases hskip : s.hasSkipInput id with
  | true =>
    rw [hskip, if_pos rfl] at h
    cases h
    exact .skipped hskip
  | false =>
    rw [hskip, if_neg Bool.false_ne_true] at h
    obtain ⟨executable, hexec, h⟩ := bind_eq_ok.mp h
    cases executable with
    | true =>
      obtain ⟨hreg, rfl⟩ := addToNext_eq_ok.mp h
      exact .planned hskip hexec hreg
    | false =>
      rw [if_neg Bool.false_ne_true] at h
      cases hpend : canPendAction env s ptr with
      | true =>
        rw [hpend, if_pos rfl] at h
        obtain ⟨hreg, rfl⟩ := addToPending_eq_ok.mp h
        exact .pending hskip hexec hpend hreg
      | false =>
        rw [hpend, if_neg Bool.false_ne_true] at h
        cases h
        exact .unplanned hskip hexec hpend

theorem Placed.reschedules {env : ω} {s s' : Session} {id : ℤ} {ptr : ActionPtr ω}
    (h : m.Placed env s id ptr s') : m.Reschedules (· = id) s s' := by
  cases h with
  | skipped => exact .unschedule rfl (.inr (.inr (.inr rfl)))
  | planned _ _ hreg => exact .removeFromPending_plan rfl hreg
  | pending _ _ _ hreg => exact .removeFromNext_pend rfl hreg
  | unplanned => exact .unschedule rfl (.inl rfl)

theorem Placed.inputs {env : ω} {s s' : Session} {id : ℤ} {ptr : ActionPtr ω} (h : m.Placed env s id ptr s') :
    s'.inputs = s.inputs := by cases h <;> rfl

theorem scheduleTarget_succeeds (hm : m.Laid) {env : ω} {s : Session} (hs : m.Statused s) {id : ℤ}
    (hid : m.Registered id) (ptr : ActionPtr ω) : ∃ s', m.scheduleTarget env s id ptr = .ok s' := by
  obtain ⟨executable, hexec⟩ : ∃ b, m.canExecuteAction env s ptr = .ok b :=
    canExecuteAction_succeeds hm hs ptr
  unfold scheduleTarget
  cases s.hasSkipInput id with
  | true => exact ⟨_, rfl⟩
  | false =>
    rw [if_neg Bool.false_ne_true, hexec]
    cases executable with
    | true => exact ⟨_, addToNext_eq_ok.mpr ⟨.inr hid, rfl⟩⟩
    | false =>
      cases canPendAction env s ptr with
      | true => exact ⟨_, addToPending_eq_ok.mpr ⟨hid, rfl⟩⟩
      | false => exact ⟨_, rfl⟩

/-- One binding, from the session before it. -/
inductive Bound (m : StateMachine ω) (env : ω) (id : ℤ) (binding : OutputBinding) (s : Session) :
    Session → Prop
  | target {ptr : ActionPtr ω} {s' : Session} (hptr : m.actions.find? binding.toActionId = some ptr)
      (h : m.Placed env (s.setInput binding.toActionId binding.toActionInput
        (s.getOutput id binding.fromActionOutput)) binding.toActionId ptr s') : Bound m env id binding s s'
  | die (hdie : binding.toActionId = Step.die.id) : Bound m env id binding s (s.plan Step.die.id)
  | absent (hdie : binding.toActionId ≠ Step.die.id) (hreg : ¬m.Registered binding.toActionId) :
      Bound m env id binding s s

theorem bindResult_cases {env : ω} {id : ℤ} {binding : OutputBinding} {s s' : Session}
    (h : m.bindResult env id s binding = .ok s') : m.Bound env id binding s s' := by
  unfold bindResult at h
  cases hptr : m.actions.find? binding.toActionId with
  | some ptr =>
    rw [hptr] at h
    obtain ⟨_, _, h⟩ := bind_eq_ok.mp h
    exact .target hptr (scheduleTarget_cases h)
  | none =>
    rw [hptr] at h
    by_cases hdie : binding.toActionId = Step.die.id
    · rw [if_pos hdie] at h
      obtain ⟨-, rfl⟩ := addToNext_eq_ok.mp h
      rw [hdie]
      exact .die hdie
    · rw [if_neg hdie] at h
      cases h
      exact .absent hdie fun ⟨ptr, hptr'⟩ => by rw [hptr] at hptr'; cases hptr'

theorem Bound.reschedules {env : ω} {id : ℤ} {binding : OutputBinding} {s s' : Session}
    (h : m.Bound env id binding s s') : m.Reschedules (· = binding.toActionId) s s' := by
  cases h with
  | target _ h => exact (Reschedules.setInput ..).trans h.reschedules
  | die hdie => exact .plan hdie.symm (.inl rfl)
  | absent => exact .refl s

/-- `bindResults` schedules the successors of the action. -/
theorem bindResults_reschedules {env : ω} {s s' : Session} {id : ℤ} (h : m.bindResults env s id = .ok s') :
    m.Reschedules (m.Leads id) s s' := by
  apply foldlM_invariant h (P := m.Reschedules (m.Leads id) s) (.refl s)
  intro c binding c' hmem hc hstep
  exact hc.trans ((bindResult_cases hstep).reschedules.mono fun a ha => ⟨binding, hmem, ha.symm⟩)

theorem bindResults_succeeds (hm : m.Laid) {env : ω} {s : Session} (hs : m.Statused s) {id : ℤ}
    (hid : m.Registered id) : ∃ s', m.bindResults env s id = .ok s' := by
  have hstep : ∀ c binding, m.Statused c → ∃ c', m.bindResult env id c binding = .ok c' := by
    intro c binding hc
    unfold bindResult
    cases hptr : m.actions.find? binding.toActionId with
    | some ptr =>
      obtain ⟨_, hat⟩ := exists_actionAt hid
      simp only [hat]
      have hset : m.Reschedules (· = id) c (c.setInput binding.toActionId binding.toActionInput
        (c.getOutput id binding.fromActionOutput)) := .setInput ..
      exact scheduleTarget_succeeds hm (hset.statused hc) ⟨ptr, hptr⟩ ptr
    | none =>
      by_cases hdie : binding.toActionId = Step.die.id
      · exact ⟨_, (if_pos hdie).trans (addToNext_eq_ok.mpr ⟨.inl hdie, rfl⟩)⟩
      · exact ⟨_, if_neg hdie⟩
  obtain ⟨s', h, -⟩ : ∃ s', m.bindResults env s id = .ok s' ∧ m.Statused s' :=
    foldlM_succeeds hs fun c binding _ hc => by
      obtain ⟨c', h⟩ := hstep c binding hc
      exact ⟨c', h, (bindResult_cases h).reschedules.statused hc⟩
  exact ⟨s', h⟩

end StateMachine

end LibWorkflow
