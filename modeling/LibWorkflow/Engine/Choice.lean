import LibWorkflow.Engine.Samples

/-!
# The last steps among the others

`getNext` puts Finish, Cleanup and Die off while another id is planned or pending, but looks at the first
two planned ids only, and `getNextPending` at the first two pending ones ("there cant be both finish, clean
or die in the same execution stack"). `getNext_choice`: on every session a run hands to it, `getNext`
returns, chooses -1 only when there is nothing left, loses and invents nothing, and it chooses one of the
three before its time exactly on the sessions that are `crowded`.
-/

namespace LibWorkflow

open Ordered Fallible

/-- An id other than Finish, Cleanup and Die is planned or pending. -/
def Session.Busy (s : Session) : Prop := ∃ id, s.Active id ∧ StateMachine.isLast id = false

/-- `getNext` sees last steps only: they are the first two planned, or one of them is planned alone and
they are the first two pending, with another one in the second place. -/
def Session.crowded (s : Session) : Bool :=
  match s.nexts.elems, s.pendings.elems with
  | first :: second :: _, _ => StateMachine.isLast first && StateMachine.isLast second
  | [planned], first :: second :: _ =>
    StateMachine.isLast planned && StateMachine.isLast first && StateMachine.isLast second
      && planned ≠ second
  | _, _ => false

namespace StateMachine

variable {ω : Type} {m : StateMachine ω} {s : Session}

/-! ### One choice -/

theorem isLast_cases {id : ℤ} (h : isLast id = true) (hdie : id ≠ Step.die.id) :
    id = Step.finish.id ∨ id = Step.cleanup.id := by
  simpa [isLast, hdie] using h

/-- Where nothing or one last step is planned, a pending action is promoted before the choice. -/
theorem getNext_of_promotion (hnexts : s.nexts.elems = [] ∨ ∃ c, s.nexts.elems = [c] ∧ isLast c = true)
    (hne : getNextPending s ≠ -1) (hreg : m.Registered (getNextPending s)) :
    m.getNext s = m.getNext ((s.removeFromPending (getNextPending s)).plan (getNextPending s)) := by
  have hp : m.tryPromotePending s = .ok (some _) := tryPromotePending_eq_some.mpr ⟨hne, hreg, rfl⟩
  rw [getNext_eq]
  rcases hnexts with hnil | ⟨c, hc, hlast⟩
  · rw [hnil]
    dsimp only
    rw [hp, ok_bind]
  · rw [hc]
    dsimp only
    rw [if_pos hlast, hp, ok_bind]

theorem getNext_of_two {first second : ℤ} {rest : List ℤ} (hnexts : s.nexts.elems = first :: second :: rest) :
    m.getNext s = .ok (if isLast first then second else first, s) := by
  rw [getNext_eq, hnexts]

theorem getNext_of_ordinary {c : ℤ} (hnexts : s.nexts.elems = [c]) (hlast : isLast c = false) :
    m.getNext s = .ok (c, s) := by
  rw [getNext_eq, hnexts]
  dsimp only
  rw [hlast, if_neg Bool.false_ne_true]

/-- With two last steps planned, one of them is chosen. -/
theorem isLast_of_two_last {next : ℤ} {s' : Session} (h : m.getNext s = .ok (next, s')) {a b : ℤ} (hab : a ≠ b)
    (hmem : ∀ id, id ∈ s.nexts ↔ id = a ∨ id = b) (hlast : isLast a = true ∧ isLast b = true) :
    isLast next = true := by
  have hall : ∀ id ∈ s.nexts.elems, isLast id = true := fun id hid => by
    rcases (hmem id).mp hid with rfl | rfl
    · exact hlast.1
    · exact hlast.2
  have ha : a ∈ s.nexts.elems := (hmem a).mpr (.inl rfl)
  have hb : b ∈ s.nexts.elems := (hmem b).mpr (.inr rfl)
  rcases helems : s.nexts.elems with _ | ⟨first, _ | ⟨second, rest⟩⟩
  · rw [helems] at ha
    cases ha
  · rw [helems, List.mem_singleton] at ha hb
    exact absurd (ha.trans hb.symm) hab
  · rw [helems] at hall
    cases h.symm.trans (getNext_of_two helems)
    rw [hall first (.head _), if_pos rfl]
    exact hall second (.tail _ (.head _))

theorem getNext_of_pending
    (hnexts : s.nexts.elems = [] ∨ ∃ c, s.nexts.elems = [c] ∧ isLast c = true)
    (hne : getNextPending s ≠ -1) (hreg : m.Registered (getNextPending s))
    (hlast : isLast (getNextPending s) = false) : ∃ s', m.getNext s = .ok (getNextPending s, s') := by
  rw [getNext_of_promotion hnexts hne hreg]
  generalize getNextPending s = p at *
  have hmem : ∀ a, a ∈ ((s.removeFromPending p).plan p).nexts ↔ a = p ∨ a ∈ s.nexts := fun a =>
    OrdSet.mem_insert
  have hold : ∀ a ∈ s.nexts, isLast a = true ∧ ∀ b ∈ s.nexts, b = a := by
    intro a ha
    rw [OrdSet.mem_def] at ha
    rcases hnexts with hnil | ⟨c, hc, hclast⟩
    · rw [hnil] at ha
      cases ha
    · simp only [OrdSet.mem_def, hc, List.mem_singleton] at ha ⊢
      exact ⟨ha ▸ hclast, fun b hb => hb.trans ha.symm⟩
  generalize (s.removeFromPending p).plan p = s₁ at *
  rcases helems : s₁.nexts.elems with _ | ⟨a, _ | ⟨b, rest⟩⟩
  · have hp := (hmem p).mpr (.inl rfl)
    rw [OrdSet.mem_def, helems] at hp
    cases hp
  · have hp := (hmem p).mpr (.inl rfl)
    rw [OrdSet.mem_def, helems, List.mem_singleton] at hp
    subst hp
    exact ⟨s₁, getNext_of_ordinary helems hlast⟩
  · have hnodup := s₁.nexts.nodup
    rw [helems] at hnodup
    have hab : a ≠ b := fun h => (List.nodup_cons.mp hnodup).1 (h ▸ .head _)
    have ha := (hmem a).mp (by rw [OrdSet.mem_def, helems]; exact .head _)
    have hb := (hmem b).mp (by rw [OrdSet.mem_def, helems]; exact .tail _ (.head _))
    refine ⟨s₁, ?_⟩
    rw [getNext_of_two helems]
    rcases ha with rfl | ha
    · rw [hlast, if_neg Bool.false_ne_true]
    · rw [(hold a ha).1, if_pos rfl, hb.resolve_right fun hb => hab ((hold a ha).2 b hb).symm]

section TwoPending

variable {first second : ℤ} {rest : List ℤ}

theorem isLast_of_mem_rest (hm : m.Laid) (hs : m.Grounded s) (hpend : s.pendings.elems = first :: second :: rest)
    (hfirst : isLast first = true) (hsecond : isLast second = true) {a : ℤ} (ha : a ∈ rest) : isLast a = false := by
  have hnotDie : ∀ {b}, b ∈ first :: second :: rest → b ≠ Step.die.id := fun hb =>
    (hm.not_special (hs.pendings _ (by rw [OrdSet.mem_def, hpend]; exact hb))).1
  have hnodup := s.pendings.nodup
  rw [hpend, List.nodup_cons, List.nodup_cons, List.mem_cons, not_or] at hnodup
  obtain ⟨⟨hne, hfirstRest⟩, hsecondRest, -⟩ := hnodup
  by_contra hlast
  rw [Bool.not_eq_false] at hlast
  have hafirst : a ≠ first := fun h => hfirstRest (h ▸ ha)
  have hasecond : a ≠ second := fun h => hsecondRest (h ▸ ha)
  have h₁ := isLast_cases hfirst (hnotDie (.head _))
  have h₂ := isLast_cases hsecond (hnotDie (.tail _ (.head _)))
  have h₃ := isLast_cases hlast (hnotDie (.tail _ (.tail _ ha)))
  omega

theorem exists_third (hbusy : s.Busy) (hpend : s.pendings.elems = first :: second :: rest)
    (hfirst : isLast first = true) (hsecond : isLast second = true)
    (hnexts : s.nexts.elems = [] ∨ s.nexts.elems = [second]) : ∃ third tail, rest = third :: tail := by
  obtain ⟨a, ha, hlast⟩ := hbusy
  have hin : a ∈ rest := by
    rcases ha with ha | ha
    · rw [OrdSet.mem_def] at ha
      rcases hnexts with h | h <;> rw [h] at ha
      · cases ha
      · rw [List.mem_singleton.mp ha, hsecond] at hlast
        cases hlast
    · rw [OrdSet.mem_def, hpend, List.mem_cons, List.mem_cons] at ha
      rcases ha with rfl | rfl | ha
      · rw [hfirst] at hlast
        cases hlast
      · rw [hsecond] at hlast
        cases hlast
      · exact ha
  cases rest with
  | nil => cases hin
  | cons third tail => exact ⟨third, tail, rfl⟩

theorem getNextPending_of_two (hpend : s.pendings.elems = first :: second :: rest) (hfirst : isLast first = true) :
    getNextPending s = second := by
  rw [getNextPending, hpend]
  exact if_pos hfirst

theorem elems_of_promotion (hpend : s.pendings.elems = first :: second :: rest)
    (hnexts : s.nexts.elems = [] ∨ s.nexts.elems = [second]) :
    ((s.removeFromPending second).plan second).nexts.elems = [second] ∧
      ((s.removeFromPending second).plan second).pendings.elems = first :: rest := by
  have hnodup := s.pendings.nodup
  rw [hpend, List.nodup_cons, List.mem_cons, not_or] at hnodup
  constructor
  · have hset : ((s.removeFromPending second).plan second).nexts = (∅ : OrdSet ℤ).insert second := by
      refine OrdSet.ext_mem fun a => ?_
      show a ∈ s.nexts.insert second ↔ _
      rw [OrdSet.mem_insert, OrdSet.mem_insert, OrdSet.mem_def]
      rcases hnexts with h | h <;> simp [h]
    rw [hset]
    rfl
  · show s.pendings.elems.erase second = _
    rw [hpend, List.erase_cons_tail (by simpa using hnodup.1.1), List.erase_cons_head]

theorem getNext_of_two_pending (hm : m.Laid) (hs : m.Grounded s) (hbusy : s.Busy)
    (hpend : s.pendings.elems = first :: second :: rest) (hfirst : isLast first = true)
    (hsecond : isLast second = true) (hnexts : s.nexts.elems = [] ∨ s.nexts.elems = [second]) :
    ∃ next s', m.getNext s = .ok (next, s') ∧ isLast next = false := by
  obtain ⟨third, tail, rfl⟩ := exists_third hbusy hpend hfirst hsecond hnexts
  have hlast : isLast third = false := isLast_of_mem_rest hm hs hpend hfirst hsecond (.head _)
  have hreg : ∀ {a}, a ∈ first :: second :: third :: tail → m.Registered a := fun ha =>
    hs.pendings _ (by rw [OrdSet.mem_def, hpend]; exact ha)
  have hsecondReg := hreg (.tail _ (.head _))
  have hthirdReg := hreg (.tail _ (.tail _ (.head _)))
  have hchosen := getNextPending_of_two hpend hfirst
  have hpromoted : m.getNext s = m.getNext ((s.removeFromPending second).plan second) := by
    rw [getNext_of_promotion ?_ (hchosen ▸ (hm.not_special hsecondReg).2) (hchosen ▸ hsecondReg), hchosen]
    rcases hnexts with h | h
    · exact .inl h
    · exact .inr ⟨second, h, hsecond⟩
  obtain ⟨hplanned, hleft⟩ := elems_of_promotion hpend hnexts
  have hthird := getNextPending_of_two hleft hfirst
  obtain ⟨s', hs'⟩ := getNext_of_pending (m := m) (.inr ⟨second, hplanned, hsecond⟩)
    (hthird ▸ (hm.not_special hthirdReg).2) (hthird ▸ hthirdReg) (hthird ▸ hlast)
  exact ⟨third, s', hpromoted.trans (hthird ▸ hs'), hlast⟩

end TwoPending

/-- Where an ordinary id is pending, `getNextPending` finds one, or the first two are last steps. -/
theorem getNextPending_cases {a : ℤ} (ha : a ∈ s.pendings) (hlast : isLast a = false) :
    (getNextPending s ∈ s.pendings ∧ isLast (getNextPending s) = false ∧
      ∀ first second rest, s.pendings.elems = first :: second :: rest →
        (isLast first && isLast second) = false) ∨
    ∃ first second rest, s.pendings.elems = first :: second :: rest ∧ isLast first = true ∧
      isLast second = true := by
  rw [OrdSet.mem_def] at ha ⊢
  rw [getNextPending]
  generalize s.pendings.elems = pendings at ha ⊢
  rcases pendings with _ | ⟨first, _ | ⟨second, rest⟩⟩
  · cases ha
  · cases List.mem_singleton.mp ha
    refine .inl ⟨ha, hlast, ?_⟩
    rintro _ _ _ ⟨⟩
  · dsimp only
    cases hfirst : isLast first with
    | false =>
      refine .inl ⟨.head _, hfirst, ?_⟩
      rintro _ _ _ ⟨⟩
      rw [hfirst, Bool.false_and]
    | true =>
      cases hsecond : isLast second with
      | false =>
        refine .inl ⟨.tail _ (.head _), hsecond, ?_⟩
        rintro _ _ _ ⟨⟩
        rw [hsecond, Bool.and_false]
      | true => exact .inr ⟨first, second, rest, rfl, hfirst, hsecond⟩

/-- Where only last steps are planned and an ordinary id is pending, at most one being planned, `getNext`
chooses a last step only if the first two pending are last steps and the planned one is not the second. -/
theorem isLast_getNext_of_pending (hm : m.Laid) (hs : m.Grounded s) (hbusy : s.Busy)
    (hnexts : s.nexts.elems = [] ∨ ∃ c, s.nexts.elems = [c] ∧ isLast c = true) {next : ℤ} {s' : Session}
    (h : m.getNext s = .ok (next, s')) : isLast next = true ↔ s.crowded = true := by
  obtain ⟨a, ha, hlast⟩ : ∃ a ∈ s.pendings, isLast a = false := by
    obtain ⟨a, ha | ha, hlast⟩ := hbusy
    · rw [OrdSet.mem_def] at ha
      rcases hnexts with hn | ⟨c, hn, hc⟩ <;> rw [hn] at ha
      · cases ha
      · cases List.mem_singleton.mp ha
        rw [hc] at hlast
        cases hlast
    · exact ⟨a, ha, hlast⟩
  rcases getNextPending_cases ha hlast with ⟨hp, hlast, hnone⟩ | ⟨first, second, rest, hp, hfirst, hsecond⟩
  -- the pending action that is promoted is ordinary, and goes first
  · have hreg := hs.pendings _ hp
    obtain ⟨s₁, hs₁⟩ := getNext_of_pending (m := m) hnexts (hm.not_special hreg).2 hreg hlast
    cases h.symm.trans hs₁
    have hcrowded : s.crowded = false := by
      unfold Session.crowded
      rcases hnexts with hn | ⟨c, hn, hc⟩ <;> rw [hn]
      rcases hp : s.pendings.elems with _ | ⟨first, _ | ⟨second, rest⟩⟩ <;> dsimp only
      rw [Bool.and_assoc (isLast c), hnone first second rest hp, Bool.and_false, Bool.false_and]
    rw [hlast, hcrowded]
  · by_cases hsame : s.nexts.elems = [] ∨ s.nexts.elems = [second]
    · obtain ⟨_, s₁, hs₁, hlast⟩ := getNext_of_two_pending hm hs hbusy hp hfirst hsecond hsame
      cases h.symm.trans hs₁
      have hcrowded : s.crowded = false := by
        unfold Session.crowded
        rcases hsame with hn | hn <;> rw [hn, hp]
        simp
      rw [hlast, hcrowded]
    · obtain ⟨c, hn, hc⟩ := hnexts.resolve_left fun hn => hsame (.inl hn)
      -- two last steps are planned then, and one of them is chosen
      have hne : c ≠ second := fun heq => hsame (.inr (heq ▸ hn))
      have hchosen := getNextPending_of_two hp hfirst
      have hreg : m.Registered second := hs.pendings second (by rw [OrdSet.mem_def, hp]; exact .tail _ (.head _))
      rw [getNext_of_promotion hnexts (hchosen ▸ (hm.not_special hreg).2) (hchosen ▸ hreg), hchosen] at h
      have hplanned : ∀ id, id ∈ ((s.removeFromPending second).plan second).nexts ↔ id = c ∨ id = second := by
        intro id
        show id ∈ s.nexts.insert second ↔ _
        rw [OrdSet.mem_insert, OrdSet.mem_def, hn, List.mem_singleton, or_comm]
      rw [isLast_of_two_last h hne hplanned ⟨hc, hsecond⟩, Session.crowded, hn, hp]
      simp [hc, hfirst, hsecond, hne]

/-- Where an ordinary id is scheduled, `getNext` chooses a last step on the crowded sessions only. -/
theorem isLast_getNext_iff (hm : m.Laid) (hs : m.Grounded s) (hbusy : s.Busy) {next : ℤ} {s' : Session}
    (h : m.getNext s = .ok (next, s')) : isLast next = true ↔ s.crowded = true := by
  rcases hn : s.nexts.elems with _ | ⟨c, _ | ⟨d, rest⟩⟩
  · exact isLast_getNext_of_pending hm hs hbusy (.inl hn) h
  · cases hc : isLast c with
    | true => exact isLast_getNext_of_pending hm hs hbusy (.inr ⟨c, hn, hc⟩) h
    | false =>
      cases h.symm.trans (getNext_of_ordinary hn hc)
      rw [hc, Session.crowded, hn]
      rcases s.pendings.elems with _ | ⟨first, _ | ⟨second, rest⟩⟩ <;> simp [hc]
  · cases h.symm.trans (getNext_of_two hn)
    rw [Session.crowded, hn]
    cases hc : isLast c <;> simp [hc]

/-! ### The sessions a run hands to `getNext` -/

/-- The session `actionExecuted` goes on with after the bindings of an action that is done. -/
def CompletesTo (m : StateMachine ω) (w : World ω) (result : Result) (s : Session) : Prop :=
  result.type = .done ∧
    (∃ ptr, m.actionAt result.actionId = .ok ptr ∧ ptr.checkOutputs w.env w.session = true) ∧
    m.bindResults w.env (w.session.setStatus result.actionId .done) result.actionId = .ok s

/-- The sessions on which a transition calls `getNext`: `executeAction` for -1 does so up to twice, an
action that is done, a first call and a message that resets the schedule once. -/
inductive Asks (m : StateMachine ω) : Config ω → Option Message → Session → Prop
  | nothing (w : World ω) : Asks m (.running (.executeAction (-1)) w) none w.session
  | finish {w : World ω} {next : ℤ} {s s' : Session} (hnext : m.getNext w.session = .ok (next, s))
      (hno : m.canExecuteNext w.env s next = .ok false) (hfinish : m.canExecuteFinish s = .ok true)
      (hadd : m.addToNext s Step.finish.id = .ok s') :
      Asks m (.running (.executeAction (-1)) w) none s'
  | error {w : World ω} {next : ℤ} {s s' : Session} (hnext : m.getNext w.session = .ok (next, s))
      (hno : m.canExecuteNext w.env s next = .ok false) (hfinish : m.canExecuteFinish s = .ok false)
      (hadd : m.addToNext s Step.error.id = .ok s') :
      Asks m (.running (.executeAction (-1)) w) none (s'.setLastErrorReport (some (noend s')))
  | done {w : World ω} {result : Result} {s : Session} (hbound : m.CompletesTo w result s) :
      Asks m (.running (.actionExecuted result) w) none s
  | asyncDone {w : World ω} {result : Result} {s : Session} (hbound : m.CompletesTo w result s) :
      Asks m (.returned w) (some (.asyncFinished result)) s
  | firstCall {w : World ω} {request : Request} {s : Session} (hfresh : w.session.status.isEmpty = true)
      (hstarters : m.scheduleStarters w.env (m.prepared (w.session.pushRequest request)) m.starters =
        .ok (true, s)) :
      Asks m (.returned w) (some (.request request)) s
  | reset {w : World ω} {request : Request} {step : Step} {s : Session}
      (hstarted : w.session.status.isEmpty = false)
      (hkind : request.target.target = .error ∧ step = .error ∧
          ¬m.Caught { w with session := w.session.pushRequest request } request ∨
        request.target.target = .interrupt ∧ step = .interrupt)
      (hadd : m.addToNext (m.resetSchedule (w.session.pushRequest request)) step.id = .ok s) :
      Asks m (.returned w) (some (.request request)) s

theorem CompletesTo.grounded {w : World ω} {result : Result} (hw : m.Grounded w.session)
    (h : m.CompletesTo w result s) : m.Grounded s := by
  obtain ⟨-, ⟨ptr, hptr, -⟩, hbind⟩ := h
  exact (hw.setStatus ⟨ptr, actionAt_eq_ok.mp hptr⟩ .done).reschedules (bindResults_reschedules hbind)

/-- What is handed to `getNext` is registered, as what is scheduled always is. -/
theorem Asks.grounded {c : Config ω} {label : Option Message} (hc : c.Grounded m) (h : m.Asks c label s) :
    m.Grounded s := by
  cases h with
  | nothing w => exact Called.grounded hc
  | finish hnext _ _ hadd =>
    rw [getNext_of_idle (hc.nothing rfl)] at hnext
    cases hnext
    obtain ⟨hreg, rfl⟩ := addToNext_eq_ok.mp hadd
    exact (Called.grounded hc).plan (hreg.resolve_left (by decide))
  | error hnext _ _ hadd =>
    rw [getNext_of_idle (hc.nothing rfl)] at hnext
    cases hnext
    obtain ⟨hreg, rfl⟩ := addToNext_eq_ok.mp hadd
    exact ((Called.grounded hc).plan (hreg.resolve_left (by decide))).congr rfl rfl rfl
  | done hbound => exact hbound.grounded hc
  | asyncDone hbound => exact hbound.grounded hc
  | @firstCall w request _ _ hstarters =>
    have hpush : m.Grounded (w.session.pushRequest request) := Grounded.congr hc rfl rfl rfl
    have hprepared := hpush.setStatuses.reschedules (setStarterInputs_reschedules m.starters _)
    exact hprepared.reschedules (scheduleStarters_reschedules hstarters)
  | reset _ hkind hadd =>
    obtain ⟨hreg, rfl⟩ := addToNext_eq_ok.mp hadd
    refine (Grounded.resetSchedule _).plan (hreg.resolve_left ?_)
    rcases hkind with ⟨-, rfl, -⟩ | ⟨-, rfl⟩ <;> decide

theorem CompletesTo.of_actionExecuted {w w' : World ω} {result : Result} {next : ℤ}
    (h : m.actionExecuted w result = .ok (w', some (.executeAction next))) :
    (∃ s, m.CompletesTo w result s ∧ m.getNext s = .ok (next, w'.session)) ∨
      next = Step.finish.id ∨ next = Step.error.id := by
  obtain ⟨ptr, hptr, hconsumed⟩ := actionExecuted_cases h
  cases hconsumed with
  | broken => exact .inr (.inr rfl)
  | done htype hcheck hbind hnext =>
    exact .inl ⟨_, ⟨htype, ⟨ptr, actionAt_eq_ok.mpr hptr, hcheck⟩, hbind⟩, hnext⟩
  | finish => exact .inr (.inl rfl)
  | error => exact .inr (.inr rfl)

theorem Asks.of_executeNone {w w' : World ω} {next : ℤ}
    (h : m.executeNone w = .ok (w', some (.executeAction next))) :
    ∃ s, m.Asks (.running (.executeAction (-1)) w) none s ∧ m.getNext s = .ok (next, w'.session) := by
  cases executedNone_of_eq_ok h with
  | next hnext => exact ⟨_, .nothing w, hnext⟩
  | finish hfirst hno hfinish hadd hnext => exact ⟨_, .finish hfirst hno hfinish hadd, hnext⟩
  | error hfirst hno hfinish hadd hnext => exact ⟨_, .error hfirst hno hfinish hadd, hnext⟩

/-- An action is called because `getNext` chose it on one of these sessions; Finish and Error are also
called for the result of an action. -/
theorem Asks.of_trans (hm : m.Laid) {c : Config ω} {label : Option Message} {next : ℤ} {w' : World ω}
    (htrans : m.system.Trans c label (.running (.executeAction next) w')) :
    (∃ s, m.Asks c label s ∧ m.getNext s = .ok (next, w'.session)) ∨
      next = Step.finish.id ∨ next = Step.error.id := by
  cases htrans with
  | internal hnext =>
    obtain ⟨call, w⟩ | _ | _ := c
    case running =>
      have hstep : m.makeCall w call = .ok (w', some (.executeAction next)) :=
        Config.ofStep_eq_running.mp (Option.some.inj hnext)
      cases call with
      | actionExecuted result =>
        rcases CompletesTo.of_actionExecuted hstep with ⟨s, hbound, hchosen⟩ | hdirect
        · exact .inl ⟨s, .done hbound, hchosen⟩
        · exact .inr hdirect
      | executeAction id =>
        cases executeAction_cases hstep with
        | nothing hnone =>
          exact .inl (Asks.of_executeNone hnone)
    all_goals cases hnext
  | @input _ message haccept =>
    obtain _ | w | _ := c
    case returned =>
      have hstep : m.receive w message = .ok (w', some (.executeAction next)) :=
        Config.ofStep_eq_running.mp (Option.some.inj haccept)
      cases receive_cases hm hstep with
      | firstCall hfresh h =>
        obtain ⟨complete, s, hstarters, ⟨rfl, _, _, hchosen, heq⟩ | ⟨-, heq⟩⟩ := firstCall_cases h
        · cases heq
          exact .inl ⟨s, .firstCall hfresh hstarters, hchosen⟩
        · cases heq
      | reset hstarted hkind hreg =>
        refine .inl ⟨_, .reset hstarted hkind (addToNext_of_registered _ hreg), ?_⟩
        exact getNext_of_single rfl rfl
      | finished h =>
        rcases CompletesTo.of_actionExecuted h with ⟨s, hbound, hchosen⟩ | hdirect
        · exact .inl ⟨s, .asyncDone hbound, hchosen⟩
        · exact .inr hdirect
    all_goals cases haccept

/-! ### Every call of a run -/

theorem grounded_world {c : Config ω} (h : c.Grounded m) : m.Grounded c.world.session := by
  obtain ⟨call, w⟩ | w | ⟨fault, w⟩ := c
  · cases call with
    | executeAction id => exact Called.grounded h
    | actionExecuted result => exact h
  · exact h
  · exact h

/-- `getNext` returns, with -1 only where there is nothing left and with a planned id otherwise, and keeps
what is scheduled; a last step comes last unless the session is crowded and has an ordinary id. -/
theorem getNext_choice (hm : Constructed m) {request : Request} {env : ω} {c : Config ω}
    (hrun : m.system.Reachable (opened request env) c) {label : Option Message}
    (hs : s = c.world.session ∨ m.Asks c label s) :
    ∃ next s', m.getNext s = .ok (next, s') ∧ (next = -1 → s.Idle) ∧ (next ≠ -1 → next ∈ s'.nexts) ∧
      (∀ id, s'.Active id ↔ s.Active id) ∧
      ((isLast next = true → ¬s.Busy) ↔ ¬(s.Busy ∧ s.crowded = true)) := by
  have hground : m.Grounded s := by
    have hc := reachable_grounded hm.laid hrun
    rcases hs with rfl | hasks
    · exact grounded_world hc
    · exact hasks.grounded hc
  obtain ⟨next, s', hnext⟩ := getNext_succeeds (m := m) hground.pendings
  obtain ⟨-, hidle, hmem⟩ := hground.getNext hm.laid hnext
  have hactive := (getNext_spec hnext).1.active_iff
  refine ⟨next, s', hnext, fun heq => ?_, hmem, hactive, ?_⟩
  · have hnone : ∀ id, ¬s.Active id := fun id hid =>
      Session.not_active_of_idle (hidle heq) id ((hactive id).mpr hid)
    exact ⟨OrdSet.eq_empty_iff.mpr fun id hid => hnone id (.inl hid),
      OrdSet.eq_empty_iff.mpr fun id hid => hnone id (.inr hid)⟩
  · by_cases hbusy : s.Busy
    · rw [isLast_getNext_iff hm.laid hground hbusy hnext]
      simp [hbusy]
    · simp [hbusy]

end StateMachine

namespace Sample

open StateMachine

/-- An action that leads to Die, to Finish and to another action, in this order of ids. -/
def forking : StateMachine Unit :=
  ((new.init.addAction 0 (returning .done) [leadTo Step.die.id, leadTo Step.finish.id, leadTo 1]).addAction 1
    (returning .done) []).addInput ⟨"", 0, ""⟩

theorem forking_constructed : Constructed forking :=
  Initialised.constructed (.addInput (.addAction (.addAction .refl _ _ _) _ _ _) _)

theorem forking_reachable (n : ℕ) :
    forking.system.Reachable (opened (request .defaultAction 0 0) ()) (started forking n) :=
  .advance_of (.input .start trivial rfl) fun _ _ => trivial

/-- The choice after action 0, which is done. -/
theorem forking_choice : ∃ next s s', forking.Asks (started forking 1) none s ∧
    forking.getNext s = .ok (next, s') ∧ (∀ id, s'.Active id ↔ s.Active id) ∧
    ((isLast next = true → ¬s.Busy) ↔ ¬(s.Busy ∧ s.crowded = true)) := by
  have hasks : forking.Asks (started forking 1) none _ :=
    .done ⟨rfl, ⟨_, rfl, rfl⟩, rfl⟩
  obtain ⟨next, s', hnext, -, -, hactive, hlast⟩ :=
    getNext_choice forking_constructed (forking_reachable 1) (.inr hasks)
  exact ⟨next, _, s', hasks, hnext, hactive, hlast⟩

/-- Finish is chosen while action 1 is planned. -/
theorem finish_chosen_early : Constructed forking ∧ forking.validate = none ∧
    forking.system.Reachable (opened (request .defaultAction 0 0) ()) (started forking 1) ∧
    ∃ s s', forking.Asks (started forking 1) none s ∧ forking.getNext s = .ok (Step.finish.id, s') ∧
      1 ∈ s.nexts ∧ isLast 1 = false := by
  obtain ⟨s, hasks, hnexts⟩ : ∃ s, forking.Asks (started forking 1) none s ∧
      s.nexts.elems = [Step.die.id, Step.finish.id, 1] :=
    ⟨_, .done ⟨rfl, ⟨_, rfl, rfl⟩, rfl⟩, by decide⟩
  refine ⟨forking_constructed, by decide, forking_reachable 1, s, s, hasks, getNext_of_two hnexts, ?_, by decide⟩
  rw [OrdSet.mem_def, hnexts]
  decide

end Sample

end LibWorkflow
