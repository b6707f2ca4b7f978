import LibWorkflow.Flow.Graph
import LibWorkflow.Flow.Termination

/-!
# Interrupts

An Interrupt message clears the schedule and executes `Step::Interrupt`, an action `init` does not
register: unless the author did, `addToNext` looks up an action that is not there. Where there is one the
session runs through the steps outside the normal flow, Interrupt, Error, perhaps Finish, and Cleanup, to
Die. The message ends the session just when the author registered that action, Finish does not wait, and
only finitely many results turn the call back (`interrupt_ends_iff`): a result that does not, `Closes`,
brings it a stage on (`stageRank`).
-/

namespace LibWorkflow

open Ordered Fallible

namespace StateMachine

variable {ω : Type} {m : StateMachine ω}

def Terminal (id : ℤ) : Prop :=
  id = Step.interrupt.id ∨ id = Step.error.id ∨ id = Step.finish.id ∨ id = Step.cleanup.id

/-- Error, Finish and Cleanup lead where `init` makes them lead; Interrupt, which it does not register,
leads to Cleanup if anywhere. -/
structure TerminalBindings (m : StateMachine ω) : Prop where
  error : m.bindings Step.error.id = [bindingTo Step.error.id "" Step.cleanup.id ""]
  finish : m.bindings Step.finish.id = [bindingTo Step.finish.id "" Step.cleanup.id ""]
  cleanup : m.bindings Step.cleanup.id = [bindingTo Step.cleanup.id "" Step.die.id ""]
  interrupt : ∀ a, m.Leads Step.interrupt.id a → a = Step.cleanup.id

/-- The session as `bindResults` leaves it when it comes to schedule Cleanup after Error or Finish. -/
def boundToCleanup (s : Session) (id : ℤ) : Session :=
  (s.setStatus id .done).setInput Step.cleanup.id "" (s.getOutput id "")

/-- Cleanup is neither skipped nor left unplanned. -/
def TakesCleanup (m : StateMachine ω) (env : ω) (s : Session) : Prop :=
  s.hasSkipInput Step.cleanup.id = false ∧
    ∀ ptr, m.actions.find? Step.cleanup.id = some ptr → ptr.checkInputs env s = true

/-- A result of Error, Finish or Cleanup does not turn back: the step waits, or Error calls for Finish, or
the step is done, with its contract met and, but for Cleanup itself, with inputs Cleanup takes. -/
def Closes (m : StateMachine ω) : Config ω → Prop
  | .running (.actionExecuted result) w =>
    Terminal result.actionId → result.actionId ≠ Step.interrupt.id →
      (result.type = .wait ∨ result.type = .async) ∨
      result.actionId = Step.error.id ∧ result.type = .finish ∨
      m.Fulfils w result ∧ (result.actionId ≠ Step.cleanup.id →
        m.TakesCleanup w.env (boundToCleanup w.session result.actionId))
  | _ => True

/-- Finish, of which there is no later message to wait for, waits. -/
def FinishRests : Config ω → Prop
  | .running (.actionExecuted result) _ =>
    result.actionId = Step.finish.id ∧ (result.type = .wait ∨ result.type = .async)
  | _ => False

instance : DecidablePred Terminal := fun _ => inferInstanceAs (Decidable (_ ∨ _ ∨ _ ∨ _))

instance (env : ω) (s : Session) : Decidable (m.TakesCleanup env s) :=
  inferInstanceAs (Decidable (_ ∧ ∀ ptr ∈ m.actions.find? Step.cleanup.id, ptr.checkInputs env s = true))

instance : DecidablePred m.Closes
  | .running (.actionExecuted result) w => inferInstanceAs (Decidable (Terminal result.actionId →
      result.actionId ≠ Step.interrupt.id →
        (result.type = .wait ∨ result.type = .async) ∨
        result.actionId = Step.error.id ∧ result.type = .finish ∨
        m.Fulfils w result ∧ (result.actionId ≠ Step.cleanup.id →
          m.TakesCleanup w.env (boundToCleanup w.session result.actionId))))
  | .running (.executeAction _) _ | .returned _ | .crashed _ _ => inferInstanceAs (Decidable True)

instance : DecidablePred (FinishRests : Config ω → Prop)
  | .running (.actionExecuted result) _ => inferInstanceAs (Decidable
      (result.actionId = Step.finish.id ∧ (result.type = .wait ∨ result.type = .async)))
  | .running (.executeAction _) _ | .returned _ | .crashed _ _ => inferInstanceAs (Decidable False)

/-- Nothing is scheduled but Die, and since the trace was `trace` either Die was executed, or one of the
terminal steps and nothing else was left waiting or asynchronous. -/
def Closed (trace : List Event) (w : World ω) : Prop :=
  (∀ a, w.session.Active a → a = Step.die.id) ∧
  ((∃ events, w.trace = trace ++ events ∧ Ended events) ∨
    ∃ x, (x = Step.interrupt.id ∨ x = Step.error.id ∨ x = Step.cleanup.id) ∧
      ∀ a, w.session.InFlight a ↔ a = x)

/-- The message is taken by a call that returns, and closes the session. -/
def EndsSession (m : StateMachine ω) (w : World ω) (request : Request) : Prop :=
  ∃ w', m.Returns w (.request request) w' ∧ Closed w.trace w'

/-- What a session is between two calls of its closing: nothing is in flight, and Die is still to come. -/
structure Subsides (m : StateMachine ω) (trace : List Event) (w : World ω) : Prop where
  trace : ∃ events, w.trace = trace ++ events ∧ ¬Ended events
  grounded : m.Grounded w.session
  statused : m.Statused w.session
  quiet : w.session.Quiet

/-- Cleanup and Die, where the other terminal steps lead. -/
def Last (id : ℤ) : Prop := id = Step.cleanup.id ∨ id = Step.die.id

/-- What is executed next, with what may be scheduled. Interrupt, Error and Cleanup clear the schedule
before they are performed. -/
structure Executes (s : Session) (id : ℤ) : Prop where
  stage : Terminal id ∨ id = Step.die.id ∨ id = -1
  nothing : id = -1 → s.Idle
  finish : id = Step.finish.id → ∀ a, s.Active a → a = id ∨ Last a
  die : id = Step.die.id → ∀ a, s.Active a → a = id

def stageRank (id : ℤ) : ℕ :=
  if id = Step.interrupt.id then 11
  else if id = -1 then 9
  else if id = Step.error.id then 7
  else if id = Step.finish.id then 5
  else if id = Step.cleanup.id then 3
  else 1

end StateMachine

namespace Config

variable {ω : Type}

/-- What holds at each point of the call an Interrupt makes, from a session whose trace was `trace`. -/
def Closing (m : StateMachine ω) (trace : List Event) : Config ω → Prop
  | .running (.executeAction id) w => m.Subsides trace w ∧ StateMachine.Executes w.session id
  | .running (.actionExecuted result) w =>
    m.Subsides trace w ∧ StateMachine.Terminal result.actionId ∧ m.Registered result.actionId ∧
      ∀ a, w.session.Active a → result.actionId = Step.finish.id ∧ StateMachine.Last a
  | .returned w => StateMachine.Closed trace w
  | .crashed _ _ => False

def closingRank : Config ω → ℕ
  | .running (.executeAction id) _ => StateMachine.stageRank id
  | .running (.actionExecuted result) _ => StateMachine.stageRank result.actionId - 1
  | _ => 0

end Config

namespace StateMachine

variable {ω : Type} {m : StateMachine ω} {w : World ω} {out : Onward ω} {trace : List Event}

/-! ### The terminal steps -/

theorem Terminal.registered (hm : Initialised m) (hinterrupt : m.Registered Step.interrupt.id) {id : ℤ}
    (h : Terminal id) : m.Registered id := by
  rcases h with rfl | rfl | rfl | rfl
  · exact hinterrupt
  · exact hm.registered (.inr (.inl rfl))
  · exact hm.registered (.inr (.inr (.inl rfl)))
  · exact hm.registered (.inr (.inr (.inr rfl)))

theorem leads_of_bindings {a b : ℤ} {output : OutputBinding} (h : m.bindings a = [output])
    (hleads : m.Leads a b) : b = output.toActionId := by
  obtain ⟨o, ho, rfl⟩ := hleads
  rw [h, List.mem_singleton] at ho
  rw [ho]

theorem TerminalBindings.leads (h : m.TerminalBindings) {a b : ℤ} (ha : Terminal a)
    (hne : a ≠ Step.cleanup.id) (hleads : m.Leads a b) : b = Step.cleanup.id := by
  rcases ha with rfl | rfl | rfl | rfl
  · exact h.interrupt b hleads
  · exact leads_of_bindings h.error hleads
  · exact leads_of_bindings h.finish hleads
  · exact absurd rfl hne

theorem TerminalBindings.last (h : m.TerminalBindings) {a b : ℤ} (ha : Terminal a) (hleads : m.Leads a b) :
    Last b := by
  by_cases hne : a = Step.cleanup.id
  · exact .inr (leads_of_bindings (hne ▸ h.cleanup) hleads)
  · exact .inl (h.leads ha hne hleads)

theorem bindResults_single {env : ω} {s s' : Session} {id : ℤ} {output : OutputBinding}
    (h : m.bindings id = [output]) (hbind : m.bindResults env s id = .ok s') :
    m.Bound env id output s s' := by
  unfold bindResults at hbind
  rw [h, List.foldlM_cons] at hbind
  obtain ⟨s₁, hstep, hdone⟩ := bind_eq_ok.mp hbind
  cases hdone
  exact bindResult_cases hstep

/-- After Error or Finish Cleanup is scheduled, if it takes its inputs. -/
theorem active_cleanup (hm : Initialised m) (hterminal : m.TerminalBindings) {env : ω} {s s' : Session}
    {id : ℤ} (hid : id = Step.error.id ∨ id = Step.finish.id)
    (htakes : m.TakesCleanup env (boundToCleanup s id))
    (hbind : m.bindResults env (s.setStatus id .done) id = .ok s') : s'.Active Step.cleanup.id := by
  have hbindings : m.bindings id = [bindingTo id "" Step.cleanup.id ""] := by
    rcases hid with rfl | rfl
    · exact hterminal.error
    · exact hterminal.finish
  obtain ⟨hskip, hcheck⟩ := htakes
  cases bindResults_single hbindings hbind with
  | @target ptr _ hptr h =>
    cases h with
    | skipped h =>
      have hskipped : (boundToCleanup s id).hasSkipInput Step.cleanup.id = true := h
      rw [hskip] at hskipped
      cases hskipped
    | planned => exact .inl (OrdSet.mem_insert.mpr (.inl rfl))
    | pending => exact .inr (OrdSet.mem_insert.mpr (.inl rfl))
    | unplanned _ _ h =>
      have hrefused : ptr.checkInputs env (boundToCleanup s id) = false := h
      rw [hcheck ptr hptr] at hrefused
      cases hrefused
  | die hdie =>
    have hne : Step.cleanup.id ≠ Step.die.id := by decide
    exact absurd hdie hne
  | absent _ hreg => exact absurd (hm.registered (.inr (.inr (.inr rfl)))) hreg

/-- After Cleanup Die is scheduled. -/
theorem active_die (hm : m.Laid) (hterminal : m.TerminalBindings) {env : ω} {s s' : Session}
    (hbind : m.bindResults env s Step.cleanup.id = .ok s') : s'.Active Step.die.id := by
  cases bindResults_single hterminal.cleanup hbind with
  | target hptr => exact absurd ⟨_, hptr⟩ (hm.not_registered (.inr (.inl rfl)))
  | die => exact .inl (OrdSet.mem_insert.mpr (.inl rfl))
  | absent hne => exact absurd rfl hne

theorem inFlight_setStatus {s : Session} (hs : s.Quiet) {x : ℤ} {status : ExecutionStatus}
    (hstatus : status = .waiting ∨ status = .async) (a : ℤ) :
    (s.setStatus x status).InFlight a ↔ a = x := by
  constructor
  · intro ha
    by_contra hne
    exact hs a (ha.of_setStatus hne)
  · rintro rfl
    unfold Session.InFlight Session.setStatus
    rw [OrdMap.find?_insert_self]
    rcases hstatus with rfl | rfl
    · exact .inl rfl
    · exact .inr rfl

/-! ### One call -/

namespace Subsides

variable {w' : World ω}

theorem reschedules (h : m.Subsides trace w) {ids : ℤ → Prop} {s : Session}
    (hs : m.Reschedules ids w.session s) : m.Subsides trace { w with session := s } :=
  ⟨h.trace, h.grounded.reschedules hs, hs.statused h.statused, hs.quiet h.quiet⟩

theorem setStatus (h : m.Subsides trace w) {id : ℤ} (hreg : m.Registered id) :
    m.Subsides trace { w with session := w.session.setStatus id .done } where
  trace := h.trace
  grounded := h.grounded.setStatus hreg .done
  statused := h.statused.setStatus id .done
  quiet := (h.quiet.awaitsOnly id).settle (by decide) (by decide)

theorem setLastErrorReport (h : m.Subsides trace w) (report : Option ErrorReport) :
    m.Subsides trace { w with session := w.session.setLastErrorReport report } :=
  ⟨h.trace, h.grounded.congr rfl rfl rfl, h.statused.congr rfl, h.quiet.congr rfl⟩

theorem perform (h : m.Subsides trace w) {id : ℤ} {ptr : ActionPtr ω} {result : Result}
    (hperform : ptr.perform m.getExpectedOutput { w with session := m.beginAction w.session id } =
      (w', result)) : m.Subsides trace w' := by
  have hflow := ptr.sameFlow_of_perform hperform
  obtain ⟨sent, htrace⟩ := ptr.trace_of_perform hperform
  obtain ⟨events, hbefore, hunended⟩ := h.trace
  refine ⟨⟨events ++ _, htrace.trans (by rw [hbefore, List.append_assoc]), ?_⟩,
    (h.grounded.beginAction id).sameFlow hflow, ?_, ?_⟩
  · rintro ⟨request, hmem⟩
    rcases List.mem_append.mp hmem with hmem | hmem
    · exact hunended ⟨request, hmem⟩
    · rcases List.mem_cons.mp hmem with hmem | hmem
      · cases hmem
      rcases List.mem_append.mp hmem with hmem | hmem
      · exact nomatch isReply_of_mem_wrapReplies hmem
      · obtain ⟨_, -, hmem⟩ := List.mem_map.mp hmem
        cases hmem
  · exact (beginAction_statused h.statused id).congr hflow.status
  · exact (quiet_beginAction (.inl h.quiet)).congr hflow.status

end Subsides

theorem Executes.of_idle {s : Session} (hs : s.Idle) {id : ℤ} (hid : Terminal id) : Executes (s.plan id) id := by
  have honly : ∀ a, (s.plan id).Active a → a = id := by
    rintro a (ha | ha)
    · refine (OrdSet.mem_insert.mp ha).resolve_right fun hmem => ?_
      exact Session.not_active_of_idle hs a (.inl hmem)
    · exact absurd (.inr ha) (Session.not_active_of_idle hs a)
  refine ⟨.inl hid, fun h => ?_, fun _ a ha => .inl (honly a ha), fun _ => honly⟩
  rw [h] at hid
  exact absurd hid (by decide)

theorem Executes.congr {s s' : Session} {id : ℤ} (h : Executes s id) (hnexts : s'.nexts = s.nexts)
    (hpendings : s'.pendings = s.pendings) : Executes s' id := by
  have hactive : ∀ a, s'.Active a → s.Active a := fun a ha => by
    unfold Session.Active at ha ⊢
    rwa [hnexts, hpendings] at ha
  exact ⟨h.stage, fun hid => ⟨hnexts ▸ (h.nothing hid).1, hpendings ▸ (h.nothing hid).2⟩,
    fun hid a ha => h.finish hid a (hactive a ha), fun hid a ha => h.die hid a (hactive a ha)⟩

theorem executeAction_closing (hm : Initialised m) (hown : m.OwnResults)
    (hinterrupt : m.Registered Step.interrupt.id) {id : ℤ} (hw : m.Subsides trace w)
    (hid : Executes w.session id) (h : m.executeAction w id = .ok out) :
    (Config.after out).Closing m trace ∧ (Config.after out).closingRank < stageRank id := by
  cases executeAction_cases h with
  | die =>
    obtain ⟨events, htrace, -⟩ := hw.trace
    refine ⟨⟨hid.die rfl, .inl ⟨events ++ [.requestFinished w.session.request], ?_, w.session.request, ?_⟩⟩,
      Nat.zero_lt_one⟩
    · rw [← List.append_assoc, ← htrace]
      rfl
    · exact List.mem_append_right _ (List.mem_singleton.mpr rfl)
  | nothing h =>
    have hidle := hid.nothing rfl
    have hplan : ∀ a, m.Registered a → m.Subsides trace { w with session := w.session.plan a } :=
      fun a ha => hw.reschedules (Reschedules.plan rfl (.inr ha) : m.Reschedules (· = a) w.session _)
    cases executeNone_cases hidle h with
    | finish _ hreg =>
      refine ⟨⟨hplan _ hreg, .of_idle hidle (.inr (.inr (.inl rfl)))⟩, ?_⟩
      show stageRank Step.finish.id < stageRank (-1)
      decide
    | error _ hreg =>
      have hexecutes := Executes.of_idle hidle (.inr (.inl rfl))
      refine ⟨⟨(hplan _ hreg).setLastErrorReport _, hexecutes.congr rfl rfl⟩, ?_⟩
      show stageRank Step.error.id < stageRank (-1)
      decide
  | @action _ ptr hdie hneg hptr w' result hperform =>
    have hterminal : Terminal id := hid.stage.resolve_right fun h => h.elim hdie hneg
    have hresult := hown.perform hm.laid hptr hperform
    have hflow := ptr.sameFlow_of_perform hperform
    refine ⟨⟨hw.perform hperform, hresult ▸ hterminal, hresult ▸ ⟨ptr, hptr⟩, fun a ha => ?_⟩, ?_⟩
    · have hbegun : (m.beginAction w.session id).Active a := by
        unfold Session.Active at ha
        rwa [hflow.nexts, hflow.pendings] at ha
      obtain ⟨hactive, hne, hstays⟩ := active_beginAction hbegun
      have hfinish : id = Step.finish.id := by
        rcases hterminal with rfl | rfl | rfl | rfl
        · cases hstays
        · cases hstays
        · rfl
        · cases hstays
      exact ⟨hresult.trans hfinish, (hid.finish hfinish a hactive).resolve_left hne⟩
    · show stageRank result.actionId - 1 < stageRank id
      rw [hresult]
      have hpos : 0 < stageRank id := by
        unfold stageRank
        split_ifs <;> decide
      omega
  | absent hdie hneg hreg =>
    have hterminal : Terminal id := hid.stage.resolve_right fun h => h.elim hdie hneg
    exact absurd (hterminal.registered hm hinterrupt) hreg

/-- Of Cleanup and Die `getNext` leaves Die to the last. -/
theorem Executes.of_getNext (hm : m.Laid) {s s' : Session} {next : ℤ} (hs : m.Grounded s)
    (hlast : ∀ a, s.Active a → Last a) (h : m.getNext s = .ok (next, s')) :
    Executes s' next ∧ (next = -1 ∨ s.Active next) := by
  obtain ⟨hs', hidle, hplanned⟩ := hs.getNext hm h
  obtain ⟨hpromotes, hpicked⟩ := getNext_spec h
  have hiff := hpromotes.active_iff
  have hlast' : ∀ a, s'.Active a → Last a := fun a ha => hlast a ((hiff a).mp ha)
  by_cases hneg : next = -1
  · refine ⟨⟨.inr (.inr hneg), hidle, fun heq => ?_, fun heq => ?_⟩, .inl hneg⟩
    all_goals exact absurd (hneg.symm.trans heq) (by decide)
  · have hactive : s'.Active next := .inl (hplanned hneg)
    refine ⟨⟨?_, hidle, fun _ a ha => .inr (hlast' a ha), ?_⟩, .inr ((hiff next).mp hactive)⟩
    · exact (hlast' next hactive).elim (fun h => .inl (.inr (.inr (.inr h)))) fun h => .inr (.inl h)
    · rintro rfl
      refine hpicked.only rfl (fun hmem => hm.not_registered (.inl rfl) (hs'.pendings _ hmem)) fun a ha => ?_
      rcases hlast' a ha with rfl | rfl <;> decide

/-- A step that is done: Cleanup comes after it, or Error or Finish, or Die. -/
theorem done_closing (hm : Initialised m) (hterminal : m.TerminalBindings) {result : Result}
    (hw : m.Subsides trace w) (hstep : Terminal result.actionId) (hreg : m.Registered result.actionId)
    (hactive : ∀ a, w.session.Active a → result.actionId = Step.finish.id ∧ Last a) {s s' : Session} {next : ℤ}
    (hbind : m.bindResults w.env (w.session.setStatus result.actionId .done) result.actionId = .ok s)
    (hnext : m.getNext s = .ok (next, s')) :
    (Config.running (.executeAction next) { w with session := s' }).Closing m trace ∧
      ((result.actionId ≠ Step.interrupt.id → result.actionId ≠ Step.cleanup.id →
          m.TakesCleanup w.env (boundToCleanup w.session result.actionId)) →
        stageRank next < stageRank result.actionId - 1) := by
  have hreschedules := bindResults_reschedules hbind
  have hsub := (hw.setStatus hreg).reschedules hreschedules
  have hsub' : m.Subsides trace { w with session := s' } :=
    hsub.reschedules (getNext_spec hnext).1.reschedules
  have hlast : ∀ a, s.Active a → Last a := by
    intro a ha
    rcases hreschedules.active ha with hbefore | hleads
    · exact (hactive a hbefore).2
    · exact hterminal.last hstep hleads
  obtain ⟨hexecutes, hchosen⟩ := Executes.of_getNext hm.laid hsub.grounded hlast hnext
  refine ⟨⟨hsub', hexecutes⟩, fun htakes => ?_⟩
  have hiff := (getNext_spec hnext).1.active_iff
  have hscheduled : ∀ {a}, s.Active a → next ≠ -1 := fun {a} ha heq =>
    Session.not_active_of_idle (hexecutes.nothing heq) a ((hiff a).mpr ha)
  -- after Error and after Finish comes Cleanup, before Die
  have hcleanup : s.Active Step.cleanup.id → stageRank next ≤ 3 := by
    intro ha
    rcases hlast next (hchosen.resolve_left (hscheduled ha)) with rfl | rfl <;> decide
  rcases hstep with heq | heq | heq | heq <;> rw [heq] at htakes ⊢
  · rcases hchosen with rfl | hchosen
    · decide
    · rcases hlast next hchosen with rfl | rfl <;> decide
  · have ha := active_cleanup hm hterminal (.inl heq) (heq ▸ htakes (by decide) (by decide)) hbind
    exact lt_of_le_of_lt (hcleanup ha) (by decide)
  · have ha := active_cleanup hm hterminal (.inr heq) (heq ▸ htakes (by decide) (by decide)) hbind
    exact lt_of_le_of_lt (hcleanup ha) (by decide)
  · have hdie : s.Active Step.die.id := active_die hm.laid hterminal (heq ▸ hbind)
    have honly : ∀ a, s.Active a → a = Step.die.id := by
      intro a ha
      rcases hreschedules.active ha with hbefore | hleads
      · exact absurd (heq ▸ (hactive a hbefore).1) (by decide)
      · exact leads_of_bindings hterminal.cleanup (heq ▸ hleads)
    rw [honly next (hchosen.resolve_left (hscheduled hdie))]
    decide

theorem waiting_closed {result : Result} (hw : m.Subsides trace w) (hstep : Terminal result.actionId)
    (hne : result.actionId ≠ Step.finish.id) (hidle : ∀ a, ¬w.session.Active a) {status : ExecutionStatus}
    (hstatus : status = .waiting ∨ status = .async) :
    Closed trace { w with session := w.session.setStatus result.actionId status } := by
  refine ⟨fun a ha => absurd ha (hidle a), .inr ⟨result.actionId, ?_, inFlight_setStatus hw.quiet hstatus⟩⟩
  rcases hstep with h | h | h | h
  · exact .inl h
  · exact .inr (.inl h)
  · exact absurd h hne
  · exact .inr (.inr h)

theorem Executes.of_error {s : Session} : Executes s Step.error.id where
  stage := .inl (.inr (.inl rfl))
  nothing h := absurd h (by decide)
  finish h := absurd h (by decide)
  die h := absurd h (by decide)

theorem actionExecuted_closing (hm : Initialised m) (hterminal : m.TerminalBindings) {result : Result}
    (hc : (Config.running (.actionExecuted result) w).Closing m trace)
    (hguard : ¬FinishRests (.running (.actionExecuted result) w)) (h : m.actionExecuted w result = .ok out) :
    (Config.after out).Closing m trace ∧ (m.Closes (.running (.actionExecuted result) w) →
      (Config.after out).closingRank < stageRank result.actionId - 1) := by
  obtain ⟨hw, hstep, hreg, hactive⟩ := hc
  obtain ⟨ptr, hptr, hconsumed⟩ := actionExecuted_cases h
  have hpos : 0 < stageRank result.actionId - 1 := by
    rcases hstep with heq | heq | heq | heq <;> rw [heq] <;> decide
  -- an error or a broken contract is no way on but from Interrupt
  have herror : ¬m.Fulfils w result → result.type = .done ∨ result.type = .error →
      m.Closes (.running (.actionExecuted result) w) →
      stageRank Step.error.id < stageRank result.actionId - 1 := by
    intro hunmet htype hcloses
    by_cases heq : result.actionId = Step.interrupt.id
    · rw [heq]
      decide
    · rcases hcloses hstep heq with h | ⟨-, h⟩ | ⟨h, -⟩
      · rcases htype with htype | htype <;> rw [htype] at h <;> simp at h
      · rcases htype with htype | htype <;> rw [htype] at h <;> cases h
      · exact absurd h hunmet
  have hrests : result.type = .wait ∨ result.type = .async → result.actionId ≠ Step.finish.id :=
    fun htype heq => hguard ⟨heq, htype⟩
  cases hconsumed with
  | broken htype hcheck =>
    refine ⟨⟨hw.setLastErrorReport _, .of_error⟩, herror (fun h => ?_) (.inl htype)⟩
    rw [h.checkOutputs hptr] at hcheck
    cases hcheck
  | error htype =>
    refine ⟨⟨(hw.setLastErrorReport result.error).setStatus hreg, .of_error⟩,
      herror (fun h => ?_) (.inr htype)⟩
    rw [h.1] at htype
    cases htype
  | finish htype hbind =>
    have hreschedules := bindResults_reschedules hbind
    refine ⟨⟨(hw.setStatus hreg).reschedules hreschedules, .inl (.inr (.inr (.inl rfl))),
      fun h => absurd h (by decide), fun _ a ha => .inr ?_, fun h => absurd h (by decide)⟩, fun hcloses => ?_⟩
    · rcases hreschedules.active ha with hbefore | hleads
      · exact (hactive a hbefore).2
      · exact hterminal.last hstep hleads
    · show stageRank Step.finish.id < _
      by_cases heq : result.actionId = Step.interrupt.id
      · rw [heq]
        decide
      · rcases hcloses hstep heq with h | ⟨h, -⟩ | ⟨h, -⟩
        · rw [htype] at h
          simp at h
        · rw [h]
          decide
        · rw [h.1] at htype
          cases htype
  | async htype =>
    have hne := hrests (.inr htype)
    exact ⟨waiting_closed hw hstep hne (fun a ha => hne (hactive a ha).1) (.inr rfl), fun _ => hpos⟩
  | wait htype =>
    have hne := hrests (.inl htype)
    exact ⟨waiting_closed hw hstep hne (fun a ha => hne (hactive a ha).1) (.inl rfl), fun _ => hpos⟩
  | done htype hcheck hbind hnext =>
    obtain ⟨hclosing, hrank⟩ := done_closing hm hterminal hw hstep hreg hactive hbind hnext
    refine ⟨hclosing, fun hcloses => hrank fun hinterrupt hcleanup => ?_⟩
    rcases hcloses hstep hinterrupt with h | ⟨-, h⟩ | ⟨-, h⟩
    · rw [htype] at h
      simp at h
    · rw [htype] at h
      cases h
    · exact h hcleanup

/-! ### The message -/

theorem next_closing (hm : Initialised m) (hown : m.OwnResults) (hterminal : m.TerminalBindings)
    (hinterrupt : m.Registered Step.interrupt.id) {c c' : Config ω} (hc : c.Closing m trace)
    (hguard : ¬FinishRests c) (hnext : m.system.next c = some c') :
    c'.Closing m trace ∧ (m.Closes c → c'.closingRank < c.closingRank) := by
  rcases c with ⟨id | result, w⟩ | _ | _
  · obtain ⟨out, h⟩ := executeAction_succeeds hm hc.2.nothing hc.1.statused
    have hc' : c' = .after out := (Option.some.inj hnext).symm.trans (congrArg (Config.ofStep w) h)
    rw [hc']
    exact (executeAction_closing hm hown hinterrupt hc.1 hc.2 h).imp_right fun hrank _ => hrank
  · obtain ⟨out, h⟩ := actionExecuted_succeeds hm.laid hc.1.grounded hc.1.statused hc.2.2.1
    have hc' : c' = .after out := (Option.some.inj hnext).symm.trans (congrArg (Config.ofStep w) h)
    rw [hc']
    exact actionExecuted_closing hm hterminal hc hguard h
  · cases hnext
  · cases hnext

theorem advance_closing (hm : Initialised m) (hown : m.OwnResults) (hterminal : m.TerminalBindings)
    (hinterrupt : m.Registered Step.interrupt.id) {n : ℕ} {c : Config ω} (hc : c.Closing m trace)
    (hguard : ∀ k < n, ¬FinishRests (m.system.advance k c)) : (m.system.advance n c).Closing m trace := by
  induction n generalizing c with
  | zero => exact hc
  | succ n ih =>
    cases hnext : m.system.next c with
    | none => rwa [Reactive.System.advance_of_settled hnext]
    | some c' =>
      rw [Reactive.System.advance_succ_of_next hnext]
      refine ih (next_closing hm hown hterminal hinterrupt hc (hguard 0 n.succ_pos) hnext).1 fun k hk => ?_
      rw [← Reactive.System.advance_succ_of_next hnext]
      exact hguard (k + 1) (Nat.succ_lt_succ hk)

/-- Where Finish waits the call returns, and the session is not closed. -/
theorem not_closed_of_finishRests (hm : m.Laid) {c : Config ω} (hc : c.Closing m trace) (h : FinishRests c) :
    ∃ w', m.system.next c = some (.returned w') ∧ ¬Closed trace w' := by
  rcases c with ⟨id | result, w⟩ | _ | _
  · exact h.elim
  · obtain ⟨hfinish, htype⟩ := h
    obtain ⟨hw, -, hreg, -⟩ := hc
    obtain ⟨out, hout⟩ := actionExecuted_succeeds hm hw.grounded hw.statused hreg
    have hnext : m.system.next (.running (.actionExecuted result) w) = some (.after out) :=
      congrArg (fun step => some (Config.ofStep w step)) hout
    have hrested : ∀ status, (status = .waiting ∨ status = .async) →
        ¬Closed trace { w with session := w.session.setStatus result.actionId status } := by
      rintro status hstatus ⟨-, ⟨events, htrace, hended⟩ | ⟨x, hx, honly⟩⟩
      · obtain ⟨before, hbefore, hunended⟩ := hw.trace
        have heq : before = events := List.append_cancel_left (hbefore.symm.trans htrace)
        exact hunended (heq ▸ hended)
      · have heq := (honly _).mp ((inFlight_setStatus hw.quiet hstatus _).mpr rfl)
        rw [← heq, hfinish] at hx
        exact absurd hx (by decide)
    obtain ⟨ptr, -, hconsumed⟩ := actionExecuted_cases hout
    cases hconsumed with
    | wait => exact ⟨_, hnext, hrested _ (.inl rfl)⟩
    | async => exact ⟨_, hnext, hrested _ (.inr rfl)⟩
    | broken h | done h | finish h | error h =>
      rw [h] at htype
      simp at htype
  · exact h.elim
  · exact h.elim

/-- The session after `interruptReceived`, where Interrupt is planned and nothing else. -/
def interrupted (m : StateMachine ω) (w : World ω) (request : Request) : World ω :=
  { w with session := (m.resetSchedule (w.session.pushRequest request)).plan Step.interrupt.id }

theorem receive_interrupt {request : Request} (hstarted : w.session.status.isEmpty = false)
    (hkind : request.target.target = .interrupt) (hinterrupt : m.Registered Step.interrupt.id) :
    m.receive w (.request request) =
      .ok (m.interrupted w request, some (.executeAction Step.interrupt.id)) := by
  have hstep : m.receiveStep { w with session := w.session.pushRequest request } .interrupt =
      .ok (m.interrupted w request, some (.executeAction Step.interrupt.id)) :=
    (receiveStep_eq_ok (by decide)).mpr ⟨hinterrupt, rfl⟩
  show m.execute w request = _
  unfold execute
  dsimp only
  rw [if_neg (started_pushRequest hstarted request), hkind]
  exact hstep

theorem closing_interrupt {request : Request} (hinterrupt : m.Registered Step.interrupt.id) :
    (Config.running (.executeAction Step.interrupt.id) (m.interrupted w request)).Closing m w.trace := by
  have hplan : m.Reschedules (· = Step.interrupt.id) (m.resetSchedule (w.session.pushRequest request))
      ((m.resetSchedule (w.session.pushRequest request)).plan Step.interrupt.id) :=
    .plan rfl (.inr hinterrupt)
  refine ⟨⟨⟨[], (List.append_nil _).symm, ?_⟩, ?_, ?_, ?_⟩, .of_idle (resetSchedule_idle _) (.inl rfl)⟩
  · rintro ⟨_, hmem⟩
    cases hmem
  · exact (Grounded.resetSchedule _).plan hinterrupt
  · exact hplan.statused (resetSchedule_statused _)
  · exact hplan.quiet (quiet_resetSchedule _)

theorem EndsSession.registered (hm : m.Laid) (hstarted : w.session.status.isEmpty = false) {request : Request}
    (hkind : request.target.target = .interrupt) (h : m.EndsSession w request) :
    m.Registered Step.interrupt.id := by
  obtain ⟨w', ⟨n, hreturned⟩, -⟩ := h
  cases hout : m.receive w (.request request) with
  | error fault =>
    rw [hout, Reactive.System.advance_of_settled rfl] at hreturned
    cases hreturned
  | ok out =>
    cases receive_cases hm hout with
    | firstCall hfresh => rw [hstarted] at hfresh; cases hfresh
    | answered _ h => rw [hkind] at h; simp at h
    | reset _ h hreg =>
      rcases h with ⟨h, -⟩ | ⟨-, rfl⟩
      · rw [hkind] at h; cases h
      · exact hreg
    | ignored _ _ h => exact absurd hkind h

/-- The call that closes a session returns, and so turns back only finitely often. -/
theorem EndsSession.closes {request : Request} (h : m.EndsSession w request) :
    ∃ n, ∀ k ≥ n, m.Closes (m.system.advance k (.ofStep w (m.receive w (.request request)))) := by
  obtain ⟨w', ⟨n, hreturned⟩, -⟩ := h
  refine ⟨n, fun k hk => ?_⟩
  obtain ⟨j, rfl⟩ := Nat.exists_eq_add_of_le hk
  rw [Reactive.System.advance_add, hreturned, Reactive.System.advance_of_settled rfl]
  trivial

theorem EndsSession.not_finishRests (hm : Initialised m) (hown : m.OwnResults) (hterminal : m.TerminalBindings)
    (hinterrupt : m.Registered Step.interrupt.id) (hstarted : w.session.status.isEmpty = false)
    {request : Request} (hkind : request.target.target = .interrupt) (h : m.EndsSession w request) (k : ℕ) :
    ¬FinishRests (m.system.advance k (.ofStep w (m.receive w (.request request)))) := by
  obtain ⟨w', ⟨n, hreturned⟩, hclosed⟩ := h
  rw [receive_interrupt hstarted hkind hinterrupt] at hreturned ⊢
  -- the first step at which Finish waits is one of the closing, and the last of the call
  induction k using Nat.strongRecOn with
  | _ k ih =>
    intro hrests
    obtain ⟨rested, hnext, hunclosed⟩ := not_closed_of_finishRests hm.laid
      (advance_closing hm hown hterminal hinterrupt (closing_interrupt hinterrupt) ih) hrests
    have hback : m.system.advance (k + 1) (.ofStep w (.ok (m.interrupted w request,
        some (.executeAction Step.interrupt.id)))) = .returned rested := by
      rw [Reactive.System.advance_add]
      exact (Reactive.System.advance_succ_of_next hnext 0).trans rfl
    have hsame : Config.returned w' = .returned rested := by
      rw [← hreturned, ← hback]
      exact Reactive.System.advance_unique (by rw [hreturned]; rfl) (by rw [hback]; rfl)
    cases hsame
    exact hunclosed hclosed

/-- **Interrupts.** Of a machine whose terminal steps keep their bindings, a started session is ended by
an Interrupt just when the author registered an Interrupt action, Finish does not wait in the call, and
the call turns back only finitely often. -/
theorem interrupt_ends_iff (hm : Initialised m) (hown : m.OwnResults) (hterminal : m.TerminalBindings)
    (hstarted : w.session.status.isEmpty = false) {request : Request}
    (hkind : request.target.target = .interrupt) :
    m.EndsSession w request ↔ m.Registered Step.interrupt.id ∧
      (∀ k, ¬FinishRests (m.system.advance k (.ofStep w (m.receive w (.request request))))) ∧
      ∃ n, ∀ k ≥ n, m.Closes (m.system.advance k (.ofStep w (m.receive w (.request request)))) := by
  constructor
  · intro h
    have hinterrupt := h.registered hm.laid hstarted hkind
    exact ⟨hinterrupt, h.not_finishRests hm hown hterminal hinterrupt hstarted hkind, h.closes⟩
  · rintro ⟨hinterrupt, hguard, n, hcloses⟩
    rw [receive_interrupt hstarted hkind hinterrupt] at hguard hcloses
    have hstep : ∀ c c' : Config ω, (c.Closing m w.trace ∧
          ∀ k, ¬FinishRests (m.system.advance k c) ∧ m.Closes (m.system.advance k c)) →
        m.system.next c = some c' →
        (c'.Closing m w.trace ∧ ∀ k, ¬FinishRests (m.system.advance k c') ∧ m.Closes (m.system.advance k c')) ∧
          c'.closingRank < c.closingRank := by
      rintro c c' ⟨hc, hrest⟩ hnext
      obtain ⟨hc', hrank⟩ := next_closing hm hown hterminal hinterrupt hc (hrest 0).1 hnext
      refine ⟨⟨hc', fun k => ?_⟩, hrank (hrest 0).2⟩
      rw [← Reactive.System.advance_succ_of_next hnext]
      exact hrest (k + 1)
    -- from `n` on the call only goes on
    obtain ⟨j, hsettled, hend, -⟩ := Reactive.System.exists_settled Config.closingRank hstep
      ⟨advance_closing hm hown hterminal hinterrupt (closing_interrupt hinterrupt) fun k _ => hguard k,
        fun k => ⟨Reactive.System.advance_add n k _ ▸ hguard (n + k),
          Reactive.System.advance_add n k _ ▸ hcloses (n + k) (Nat.le_add_right n k)⟩⟩
    rw [← Reactive.System.advance_add] at hsettled hend
    rcases hreached : m.system.advance (n + j) _ with ⟨call, w'⟩ | w' | ⟨fault, w'⟩ <;>
      rw [hreached] at hsettled hend
    · cases hsettled
    · refine ⟨w', ⟨n + j, ?_⟩, hend⟩
      rw [receive_interrupt hstarted hkind hinterrupt]
      exact hreached
    · exact hend.elim

end StateMachine

namespace Sample

open StateMachine

def interruptible : StateMachine Unit :=
  (single .wait).addAction Step.interrupt.id (returning .done) [leadTo Step.cleanup.id]

def interruptibleWaiting : World Unit := (session interruptible [.request (request .defaultAction 0 0)]).world

theorem interruptible_terminalBindings : interruptible.TerminalBindings where
  error := by decide
  finish := by decide
  cleanup := by decide
  interrupt a hleads := by
    have hbindings : interruptible.bindings Step.interrupt.id =
      [bindingTo Step.interrupt.id "" Step.cleanup.id ""] := by decide
    exact leads_of_bindings hbindings hleads

theorem single_terminalBindings : (single .wait).TerminalBindings where
  error := by decide
  finish := by decide
  cleanup := by decide
  interrupt _ hleads := absurd ((single_initialised .wait).laid.source hleads)
    ((single_ordinary .wait).not_registered_interrupt)

theorem interruptible_initialised : Initialised interruptible := (single_initialised .wait).addAction _ _ _

theorem interruptible_ownResults : interruptible.OwnResults :=
  (single_ownResults .wait).addAction _ (fun _ _ _ => rfl) (fun _ _ _ _ => rfl) _

theorem interruptible_registered : interruptible.Registered Step.interrupt.id := ⟨_, rfl⟩

theorem interruptible_goes_on (k : ℕ) :
    ¬FinishRests (interruptible.system.advance k (.ofStep interruptibleWaiting
      (interruptible.receive interruptibleWaiting (.request (request .interrupt (-1) 0))))) ∧
    interruptible.Closes (interruptible.system.advance k (.ofStep interruptibleWaiting
      (interruptible.receive interruptibleWaiting (.request (request .interrupt (-1) 0))))) :=
  Reactive.System.forall_advance (P := fun c => ¬FinishRests c ∧ interruptible.Closes c) (k := 5)
    (by decide) (by decide) k

theorem interruptible_ends : interruptible.EndsSession interruptibleWaiting (request .interrupt (-1) 0) :=
  (interrupt_ends_iff interruptible_initialised interruptible_ownResults interruptible_terminalBindings
    (by decide) rfl).mpr ⟨interruptible_registered, fun k => (interruptible_goes_on k).1, 0,
      fun k _ => (interruptible_goes_on k).2⟩

/-- Without an Interrupt action the message looks it up all the same. -/
theorem interrupt_crashes : Initialised (single .wait) ∧ (single .wait).validate = none ∧
    (single .wait).TerminalBindings ∧
    (single .wait).system.Reachable (opened (request .defaultAction 0 0) ()) (.returned waiting) ∧
    waiting.session.status.isEmpty = false ∧
    (single .wait).receive waiting (.request (request .interrupt (-1) 0)) =
      .error (.nullAction Step.interrupt.id) ∧
    ¬(single .wait).EndsSession waiting (request .interrupt (-1) 0) := by
  have hfault : (single .wait).receive waiting (.request (request .interrupt (-1) 0)) =
      .error (.nullAction Step.interrupt.id) := rfl
  refine ⟨single_initialised .wait, by decide, single_terminalBindings,
    session_reachable _ [.request (request .defaultAction 0 0)], by decide, hfault, ?_⟩
  rintro ⟨w', ⟨n, hreturned⟩, -⟩
  rw [hfault, Reactive.System.advance_of_settled rfl] at hreturned
  cases hreturned

end Sample

end LibWorkflow
