import LibWorkflow.Engine.Scheduling

/-!
# The choice of the next action

`getNext` promotes pending actions while there is nothing better to do, then picks one of the planned.
`getNext_eq` is the recursion of the source; `getNext_spec` splits a call into its promotions
(`Promotes`) and its choice (`Picked`).
-/

namespace LibWorkflow

open Ordered Fallible

namespace StateMachine

variable {ω : Type} {m : StateMachine ω}

/-! ### One promotion -/

theorem getNextPending_mem {s : Session} (h : getNextPending s ≠ -1) : getNextPending s ∈ s.pendings := by
  unfold getNextPending at h ⊢
  rw [OrdSet.mem_def]
  split at h <;> rename_i heq
  · exact absurd rfl h
  · rw [heq]
    exact .head _
  · rw [heq]
    split_ifs
    · exact .tail _ (.head _)
    · exact .head _

theorem pendings_of_getNextPending {s : Session} (h : getNextPending s = -1) (hneg : -1 ∉ s.pendings) :
    s.pendings = ∅ := by
  cases hl : s.pendings.elems with
  | nil => exact OrdSet.eq_empty_of_elems hl
  | cons a l =>
    refine absurd ?_ hneg
    rw [OrdSet.mem_def, hl]
    rw [getNextPending, hl] at h
    cases l with
    | nil => exact h ▸ .head _
    | cons b l =>
      dsimp only at h
      split_ifs at h
      · exact h ▸ .tail _ (.head _)
      · exact h ▸ .head _

theorem tryPromotePending_eq_none {s : Session} :
    m.tryPromotePending s = .ok none ↔ getNextPending s = -1 := by
  unfold tryPromotePending
  by_cases h : getNextPending s = -1
  · simp [h]
  · simp only [h, ne_eq, not_false_eq_true, if_true, iff_false]
    intro hok
    obtain ⟨_, _, hok⟩ := bind_eq_ok.mp hok
    obtain ⟨_, _, hok⟩ := bind_eq_ok.mp hok
    cases hok

theorem tryPromotePending_eq_some {s s' : Session} :
    m.tryPromotePending s = .ok (some s') ↔
      getNextPending s ≠ -1 ∧ m.Registered (getNextPending s) ∧
        s' = (s.removeFromPending (getNextPending s)).plan (getNextPending s) := by
  unfold tryPromotePending
  by_cases h : getNextPending s = -1
  · simp [h]
  · simp only [h, ne_eq, not_false_eq_true, if_true, true_and]
    constructor
    · intro hok
      obtain ⟨ptr, hptr, hok⟩ := bind_eq_ok.mp hok
      obtain ⟨s₁, hs₁, hok⟩ := bind_eq_ok.mp hok
      cases hok
      exact ⟨⟨ptr, actionAt_eq_ok.mp hptr⟩, (addToNext_eq_ok.mp hs₁).2⟩
    · rintro ⟨hreg, rfl⟩
      obtain ⟨ptr, hptr⟩ := exists_actionAt hreg
      refine bind_eq_ok.mpr ⟨ptr, hptr, bind_eq_ok.mpr ⟨_, addToNext_eq_ok.mpr ⟨.inr hreg, rfl⟩, rfl⟩⟩

theorem length_pendings_of_promotion {s s' : Session} (h : m.tryPromotePending s = .ok (some s')) :
    s'.pendings.elems.length + 1 = s.pendings.elems.length := by
  obtain ⟨hne, -, rfl⟩ := tryPromotePending_eq_some.mp h
  exact OrdSet.length_erase_of_mem (getNextPending_mem hne)

/-! ### `getNext` -/

theorem getNext_eq (s : Session) : m.getNext s =
    match s.nexts.elems with
    | [] => do
      match ← m.tryPromotePending s with
      | some s => m.getNext s
      | none => return (-1, s)
    | [candidate] =>
      if isLast candidate then do
        match ← m.tryPromotePending s with
        | some s => m.getNext s
        | none => return (candidate, s)
      else .ok (candidate, s)
    | candidate :: second :: _ => .ok (if isLast candidate then second else candidate, s) := by
  have hrec : ∀ s', m.tryPromotePending s = .ok (some s') →
      m.getNextWithin s.pendings.elems.length s' = m.getNext s' := by
    intro s' h
    rw [getNext, length_pendings_of_promotion h]
  rw [getNext, getNextWithin]
  rcases s.nexts.elems with _ | ⟨candidate, _ | ⟨second, rest⟩⟩
  · cases hp : m.tryPromotePending s with
    | error fault => rfl
    | ok promoted =>
      cases promoted with
      | none => rfl
      | some s' => exact hrec s' hp
  · dsimp only
    split_ifs
    · cases hp : m.tryPromotePending s with
      | error fault => rfl
      | ok promoted =>
        cases promoted with
        | none => rfl
        | some s' => exact hrec s' hp
    · rfl
  · rfl

/-- `s'` is `s` after some of its pending actions were promoted, one after the other. -/
inductive Promotes (m : StateMachine ω) : Session → Session → Prop
  | refl (s : Session) : Promotes m s s
  | step {s s' : Session} {id : ℤ} (hid : id ∈ s.pendings) (hreg : m.Registered id)
      (h : Promotes m ((s.removeFromPending id).plan id) s') : Promotes m s s'

/-- The choice `getNext` makes when it promotes no more. -/
def Picked (s : Session) (id : ℤ) : Prop :=
  match s.nexts.elems with
  | [] => id = -1 ∧ getNextPending s = -1
  | [candidate] => id = candidate ∧ (isLast candidate = true → getNextPending s = -1)
  | candidate :: second :: _ => id = if isLast candidate then second else candidate

theorem promotes_of_tryPromotePending {s s' s'' : Session} (h : m.tryPromotePending s = .ok (some s'))
    (h' : m.Promotes s' s'') : m.Promotes s s'' := by
  obtain ⟨hne, hreg, rfl⟩ := tryPromotePending_eq_some.mp h
  exact .step (getNextPending_mem hne) hreg h'

/-- `getNext` promotes, then picks. -/
theorem getNext_spec {s s' : Session} {id : ℤ} (h : m.getNext s = .ok (id, s')) :
    m.Promotes s s' ∧ Picked s' id := by
  induction hn : s.pendings.elems.length using Nat.strongRecOn generalizing s with
  | _ n ih =>
    have hpromoted : ∀ {candidate : ℤ},
        (do match ← m.tryPromotePending s with
            | some s => m.getNext s
            | none => return (candidate, s) : Except Fault (ℤ × Session)) = .ok (id, s') →
        (m.Promotes s s' ∧ Picked s' id) ∨ s' = s ∧ id = candidate ∧ getNextPending s = -1 := by
      intro candidate h
      obtain ⟨promoted, hp, h⟩ := bind_eq_ok.mp h
      cases promoted with
      | none =>
        cases h
        exact .inr ⟨rfl, rfl, tryPromotePending_eq_none.mp hp⟩
      | some s₁ =>
        have hlen := length_pendings_of_promotion hp
        obtain ⟨hrest, hpicked⟩ := ih _ (by omega) h rfl
        exact .inl ⟨promotes_of_tryPromotePending hp hrest, hpicked⟩
    rw [getNext_eq] at h
    rcases hl : s.nexts.elems with _ | ⟨candidate, _ | ⟨second, rest⟩⟩ <;> rw [hl] at h
    · rcases hpromoted h with hdone | ⟨rfl, rfl, hnone⟩
      · exact hdone
      · refine ⟨.refl _, ?_⟩
        rw [Picked, hl]
        exact ⟨rfl, hnone⟩
    · dsimp only at h
      split_ifs at h with hlast
      · rcases hpromoted h with hdone | ⟨rfl, rfl, hnone⟩
        · exact hdone
        · refine ⟨.refl _, ?_⟩
          rw [Picked, hl]
          exact ⟨rfl, fun _ => hnone⟩
      · cases h
        refine ⟨.refl _, ?_⟩
        rw [Picked, hl]
        exact ⟨rfl, fun h => absurd h hlast⟩
    · cases h
      refine ⟨.refl _, ?_⟩
      rw [Picked, hl]

/-! ### What promotions keep -/

namespace Promotes

variable {s s' : Session}

theorem reschedules (h : m.Promotes s s') : m.Reschedules (· ∈ s.pendings) s s' := by
  induction h with
  | refl s => exact .refl s
  | @step s s' id hid hreg _ ih =>
    have hstep : m.Reschedules (· ∈ s.pendings) s ((s.removeFromPending id).plan id) :=
      .removeFromPending_plan hid (.inr hreg)
    exact hstep.trans (ih.mono fun a ha => (OrdSet.mem_erase.mp ha).2)

theorem inputs (h : m.Promotes s s') : s'.inputs = s.inputs := by
  induction h with
  | refl => rfl
  | step _ _ _ ih => exact ih

/-- What is pending is pending or planned afterwards; nothing else comes in. -/
theorem active_iff (h : m.Promotes s s') (a : ℤ) : s'.Active a ↔ s.Active a := by
  induction h with
  | refl => rfl
  | @step s s' id hid _ _ ih =>
    rw [ih]
    simp only [Session.Active, Session.plan, Session.removeFromPending, OrdSet.mem_insert,
      OrdSet.mem_erase]
    by_cases ha : a = id
    · subst ha
      simp [hid]
    · simp [ha]

theorem mem_pendings (h : m.Promotes s s') {a : ℤ} (ha : a ∈ s'.pendings) : a ∈ s.pendings := by
  induction h with
  | refl => exact ha
  | step _ _ _ ih => exact (OrdSet.mem_erase.mp (ih ha)).2

end Promotes

theorem Picked.idle {s : Session} (h : Picked s (-1)) (hnexts : -1 ∉ s.nexts) (hpend : -1 ∉ s.pendings) :
    s.Idle := by
  unfold Picked at h
  rw [OrdSet.mem_def] at hnexts
  split at h <;> rename_i heq
  · exact ⟨OrdSet.eq_empty_of_elems heq, pendings_of_getNextPending h.2 hpend⟩
  · rw [heq, ← h.1] at hnexts
    exact absurd (.head _) hnexts
  · rw [heq] at hnexts
    split_ifs at h with hlast
    · exact absurd (h ▸ .tail _ (.head _)) hnexts
    · exact absurd (h ▸ .head _) hnexts

theorem Picked.mem_nexts {s : Session} {id : ℤ} (h : Picked s id) (hid : id ≠ -1) : id ∈ s.nexts := by
  unfold Picked at h
  rw [OrdSet.mem_def]
  split at h <;> rename_i heq
  · exact absurd h.1 hid
  · rw [heq, h.1]
    exact .head _
  · rw [heq, h]
    split_ifs
    · exact .tail _ (.head _)
    · exact .head _

/-- A last step is picked when no id above it is active. -/
theorem Picked.only {s : Session} {id : ℤ} (h : Picked s id) (hlast : isLast id = true) (hneg : -1 ∉ s.pendings)
    (hmin : ∀ a, s.Active a → id ≤ a) : ∀ a, s.Active a → a = id := by
  have hsorted := s.nexts.sorted
  have hleast : ∀ a ∈ s.nexts.elems, id ≤ a := fun a ha => hmin a (.inl ha)
  unfold Picked at h
  split at h <;> rename_i heq
  · rw [h.1] at hlast
    cases hlast
  · obtain ⟨hid, hpending⟩ := h
    have hnone := pendings_of_getNextPending (hpending (hid ▸ hlast)) hneg
    rintro a (ha | ha)
    · rw [OrdSet.mem_def, heq, ← hid] at ha
      exact List.mem_singleton.mp ha
    · rw [hnone] at ha
      cases ha
  · rename_i candidate second rest
    rw [heq] at hsorted hleast
    have hlt : candidate < second := (List.pairwise_cons.mp hsorted).1 second (.head _)
    split_ifs at h with hcandidate
    · exact absurd (h ▸ hleast candidate (.head _)) (not_le.mpr hlt)
    · exact absurd (h ▸ hlast) hcandidate

theorem getNext_of_idle {s : Session} (h : s.Idle) : m.getNext s = .ok (-1, s) := by
  have hnexts : s.nexts.elems = [] := by rw [h.1]; rfl
  have hpend : getNextPending s = -1 := by rw [getNextPending, h.2]; rfl
  rw [getNext_eq, hnexts]
  dsimp only
  rw [tryPromotePending_eq_none.mpr hpend]
  rfl

theorem getNext_succeeds {s : Session} (h : ∀ id ∈ s.pendings, m.Registered id) :
    ∃ next s', m.getNext s = .ok (next, s') := by
  induction hn : s.pendings.elems.length using Nat.strongRecOn generalizing s with
  | _ n ih =>
    have hpromoted : ∀ candidate : ℤ, ∃ next s',
        (do match ← m.tryPromotePending s with
            | some s => m.getNext s
            | none => return (candidate, s) : Except Fault (ℤ × Session)) = .ok (next, s') := by
      intro candidate
      by_cases hnone : getNextPending s = -1
      · rw [tryPromotePending_eq_none.mpr hnone]
        exact ⟨candidate, s, rfl⟩
      · have hp := tryPromotePending_eq_some.mpr ⟨hnone, h _ (getNextPending_mem hnone), rfl⟩
        have hlen := length_pendings_of_promotion hp
        rw [hp]
        exact ih _ (by omega) (fun id hid => h id (OrdSet.mem_erase.mp hid).2) rfl
    rw [getNext_eq]
    rcases s.nexts.elems with _ | ⟨candidate, _ | ⟨second, rest⟩⟩
    · exact hpromoted (-1)
    · dsimp only
      split_ifs
      · exact hpromoted candidate
      · exact ⟨candidate, s, rfl⟩
    · exact ⟨_, s, rfl⟩

end StateMachine

end LibWorkflow
