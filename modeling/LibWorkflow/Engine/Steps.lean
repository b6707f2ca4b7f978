import LibWorkflow.Engine.Promotion

/-!
# What one call does

The calls a session makes and the messages it takes, inverted once: `Executed` says all that
`executeAction` can do, `Consumed` all that `actionExecuted` can, `Received` all that a message can. The
invariants of runs are proved by cases on these.
-/

namespace LibWorkflow

open Ordered Fallible

/-! ### Performing an action -/

namespace Event

def performedId? : Event → Option ℤ
  | .performed id _ => some id
  | _ => none

def isReply : Event → Bool
  | .finishReply _ | .errorReply _ => true
  | _ => false

end Event

/-- From `s` to `s'` only what the code of an action can write changes, and the level. -/
def Session.SameFlow (s s' : Session) : Prop :=
  s' = { s with
    bypass := s'.bypass, actionBypasses := s'.actionBypasses, subqueries := s'.subqueries
    outputs := s'.outputs, currentExecutionLevel := s'.currentExecutionLevel }

namespace Session.SameFlow

variable {s s' : Session}

theorem nexts (h : s.SameFlow s') : s'.nexts = s.nexts := by rw [h]

theorem pendings (h : s.SameFlow s') : s'.pendings = s.pendings := by rw [h]

theorem status (h : s.SameFlow s') : s'.status = s.status := by rw [h]

theorem inputs (h : s.SameFlow s') : s'.inputs = s.inputs := by rw [h]

theorem finished (h : s.SameFlow s') : s'.finished = s.finished := by rw [h]

end Session.SameFlow

theorem World.exists_setOutputs (id : ℤ) (declared : OrdMap String PutDefinition) (s : Session)
    (l : List (String × Option Context)) :
    ∃ outputs, setOutputs id declared s l = { s with outputs := outputs } := by
  induction l generalizing s with
  | nil => exact ⟨s.outputs, rfl⟩
  | cons entry l ih =>
    obtain ⟨name, ctx⟩ := entry
    rw [setOutputs]
    split_ifs
    · exact ih (s.setOutput id name ctx)
    · exact ih s

namespace ActionPtr

variable {ω : Type} (ptr : ActionPtr ω)

/-- The replies `wrapPerform` sends. -/
def wrapReplies (expectedOutput : List String) (s : Session) : List Event :=
  match ptr.wrapper with
  | some .finish => [.finishReply (ptr.finishReply expectedOutput s)]
  | some .error => [.errorReply (errorReply s)]
  | _ => []

theorem wrapPerform_eq (expectedOutput : List String) (w : World ω) :
    ptr.wrapPerform expectedOutput w =
      { session := if ptr.wrapper = none then w.session else w.session.upCurrentExecutionLevel
        env := w.env
        trace := w.trace ++ ptr.wrapReplies expectedOutput w.session } := by
  unfold wrapPerform wrapReplies
  rcases ptr.wrapper with _ | _ | _ | _ | _
  · simp
  · simp
  · rfl
  · rfl
  · simp

theorem applyOutcome_session (w : World ω) (action : Action ω) (outcome : Outcome ω) :
    w.session.SameFlow (w.applyOutcome action outcome).session := by
  obtain ⟨outputs, heq⟩ := World.exists_setOutputs action.actionId action.outputs w.session outcome.outputs
  unfold World.applyOutcome Session.SameFlow
  rw [heq]

theorem sameFlow_of_perform {expectedOutput : List String} {w w' : World ω} {result : Result}
    (h : ptr.perform expectedOutput w = (w', result)) : w.session.SameFlow w'.session := by
  have hw' : w' = (ptr.perform expectedOutput w).1 := (congrArg Prod.fst h).symm
  subst hw'
  unfold perform
  dsimp only
  apply (applyOutcome_session ..).trans
  rw [wrapPerform_eq]
  dsimp only [World.emit]
  split_ifs <;> rfl

theorem trace_of_perform {expectedOutput : List String} {w w' : World ω} {result : Result}
    (h : ptr.perform expectedOutput w = (w', result)) :
    ∃ sent : List Request, w'.trace = w.trace ++ .performed ptr.getActionId w.session ::
      (ptr.wrapReplies expectedOutput w.session ++ sent.map Event.sent) := by
  have hw' : w' = (ptr.perform expectedOutput w).1 := (congrArg Prod.fst h).symm
  subst hw'
  unfold perform World.applyOutcome
  rw [wrapPerform_eq]
  exact ⟨_, by simp [World.emit]; rfl⟩

theorem sameFlow_of_replyReceived {w w' : World ω} {request : Request} {result : Result}
    (h : ptr.replyReceived w request = (w', result)) : w.session.SameFlow w'.session := by
  have hw' : w' = (ptr.replyReceived w request).1 := (congrArg Prod.fst h).symm
  subst hw'
  exact applyOutcome_session ..

theorem trace_of_replyReceived {w w' : World ω} {request : Request} {result : Result}
    (h : ptr.replyReceived w request = (w', result)) :
    ∃ sent : List Request, w'.trace =
      w.trace ++ .replyReceived ptr.getActionId request :: sent.map Event.sent := by
  have hw' : w' = (ptr.replyReceived w request).1 := (congrArg Prod.fst h).symm
  subst hw'
  unfold replyReceived World.applyOutcome
  exact ⟨_, by simp [World.emit]; rfl⟩

end ActionPtr

namespace StateMachine

variable {ω : Type} {m : StateMachine ω}

/-! ### The call after a choice -/

theorem executeNext_eq_ok {w : World ω} {out : Onward ω} :
    m.executeNext w = .ok out ↔ ∃ next s, m.getNext w.session = .ok (next, s) ∧
      out = ({ w with session := s }, some (.executeAction next)) := by
  unfold executeNext
  rw [bind_eq_ok]
  constructor
  · rintro ⟨⟨next, s⟩, hnext, h⟩
    cases h
    exact ⟨next, s, hnext, rfl⟩
  · rintro ⟨next, s, hnext, rfl⟩
    exact ⟨(next, s), hnext, rfl⟩

theorem getNext_of_single {s : Session} {id : ℤ} (hnexts : s.nexts.elems = [id]) (hpend : s.pendings = ∅) :
    m.getNext s = .ok (id, s) := by
  have hnone : getNextPending s = -1 := by rw [getNextPending, hpend]; rfl
  rw [getNext_eq, hnexts]
  dsimp only
  rw [tryPromotePending_eq_none.mpr hnone]
  split_ifs <;> rfl

theorem executeNext_of_plan {w : World ω} {s : Session} (hs : s.Idle) (id : ℤ) :
    m.executeNext { w with session := s.plan id } =
      .ok ({ w with session := s.plan id }, some (.executeAction id)) := by
  refine executeNext_eq_ok.mpr ⟨id, s.plan id, getNext_of_single ?_ hs.2, rfl⟩
  show (s.nexts.insert id).elems = [id]
  rw [hs.1]
  rfl

/-! ### Nothing to execute -/

theorem anyDone_eq_true {s : Session} {l : List ℤ} (h : anyDone s l = .ok true) :
    ∃ a ∈ l, s.status.find? a = some .done := by
  induction l with
  | nil => cases h
  | cons a l ih =>
    rw [anyDone] at h
    obtain ⟨status, hst, h⟩ := bind_eq_ok.mp h
    split_ifs at h with hdone
    · exact ⟨a, .head l, hdone ▸ Session.getStatus_eq_ok.mp hst⟩
    · obtain ⟨b, hb, hst⟩ := ih h
      exact ⟨b, .tail _ hb, hst⟩

theorem anyDone_succeeds {s : Session} (hs : m.Statused s) {l : List ℤ}
    (hl : ∀ a ∈ l, m.Registered a) : ∃ b, anyDone s l = .ok b := by
  induction l with
  | nil => exact ⟨false, rfl⟩
  | cons a l ih =>
    obtain ⟨status, hst⟩ := hs a (hl a (.head l))
    rw [anyDone, Session.getStatus_eq_ok.mpr hst]
    by_cases hdone : status = .done
    · exact ⟨true, if_pos hdone⟩
    · obtain ⟨b, hb⟩ := ih fun a ha => hl a (.tail _ ha)
      exact ⟨b, (if_neg hdone).trans hb⟩

theorem canExecuteFinish_eq_true (hm : m.Laid) {s : Session} (h : m.canExecuteFinish s = .ok true) :
    ∃ a, m.Leads a Step.finish.id ∧ s.status.find? a = some .done := by
  unfold canExecuteFinish at h
  split_ifs at h
  swap
  · cases h
  cases hin : m.inputsMap.find? Step.finish.id with
  | none => rw [hin] at h; cases h
  | some inputs =>
    rw [hin] at h
    obtain ⟨a, ha, hdone⟩ := anyDone_eq_true h
    refine ⟨a, hm.inputs.mp ?_, hdone⟩
    rw [hin]
    exact ha

theorem canExecuteFinish_succeeds (hm : m.Laid) {s : Session} (hs : m.Statused s) :
    ∃ b, m.canExecuteFinish s = .ok b := by
  unfold canExecuteFinish
  split_ifs
  · cases hin : m.inputsMap.find? Step.finish.id with
    | none => exact ⟨false, rfl⟩
    | some inputs =>
      refine anyDone_succeeds hs fun a ha => hm.source (b := Step.finish.id) (hm.inputs.mp ?_)
      rw [hin]
      exact ha
  · exact ⟨false, rfl⟩

/-- The report of a session with nothing left to execute. -/
def noend (s : Session) : ErrorReport :=
  .ofError s.request.target "statemachine.unexpected.noend" "No end of workflow available ... aborting"

/-- What the branch for -1 leaves of any session: it goes on with what `getNext` chose, or plans Finish or
Error and chooses again. -/
inductive ExecutedNone (m : StateMachine ω) (w : World ω) : Onward ω → Prop
  | next {next : ℤ} {s : Session} (hnext : m.getNext w.session = .ok (next, s)) :
      ExecutedNone m w ({ w with session := s }, some (.executeAction next))
  | finish {first next : ℤ} {s s' s'' : Session} (hfirst : m.getNext w.session = .ok (first, s))
      (hno : m.canExecuteNext w.env s first = .ok false) (hfinish : m.canExecuteFinish s = .ok true)
      (hadd : m.addToNext s Step.finish.id = .ok s') (hnext : m.getNext s' = .ok (next, s'')) :
      ExecutedNone m w ({ w with session := s'' }, some (.executeAction next))
  | error {first next : ℤ} {s s' s'' : Session} (hfirst : m.getNext w.session = .ok (first, s))
      (hno : m.canExecuteNext w.env s first = .ok false) (hfinish : m.canExecuteFinish s = .ok false)
      (hadd : m.addToNext s Step.error.id = .ok s')
      (hnext : m.getNext (s'.setLastErrorReport (some (noend s'))) = .ok (next, s'')) :
      ExecutedNone m w ({ w with session := s'' }, some (.executeAction next))

theorem executedNone_of_eq_ok {w : World ω} {out : Onward ω} (h : m.executeNone w = .ok out) :
    m.ExecutedNone w out := by
  obtain ⟨⟨first, s⟩, hfirst, h⟩ := bind_eq_ok.mp h
  obtain ⟨executable, hexec, h⟩ := bind_eq_ok.mp h
  cases executable with
  | true =>
    cases h
    exact .next hfirst
  | false =>
    obtain ⟨finishes, hfinish, h⟩ := bind_eq_ok.mp h
    cases finishes with
    | true =>
      obtain ⟨s', hadd, h⟩ := bind_eq_ok.mp h
      obtain ⟨_, _, hnext, rfl⟩ := executeNext_eq_ok.mp h
      exact .finish hfirst hexec hfinish hadd hnext
    | false =>
      obtain ⟨s', hadd, h⟩ := bind_eq_ok.mp h
      obtain ⟨_, _, hnext, rfl⟩ := executeNext_eq_ok.mp h
      exact .error hfirst hexec hfinish hadd hnext

/-- What the branch for -1 leaves of an idle session. -/
inductive Ran (m : StateMachine ω) (w : World ω) : Onward ω → Prop
  | finish (hexec : m.canExecuteFinish w.session = .ok true) (hreg : m.Registered Step.finish.id) :
      Ran m w ({ w with session := w.session.plan Step.finish.id }, some (.executeAction Step.finish.id))
  | error (hexec : m.canExecuteFinish w.session = .ok false) (hreg : m.Registered Step.error.id) :
      Ran m w ({ w with session :=
        (w.session.plan Step.error.id).setLastErrorReport (some (noend w.session)) },
        some (.executeAction Step.error.id))

theorem executeNone_of_idle {w : World ω} (hidle : w.session.Idle) :
    m.executeNone w = m.canExecuteFinish w.session >>= fun executable =>
      if executable then
        m.addToNext w.session Step.finish.id >>= fun s => m.executeNext { w with session := s }
      else
        m.addToNext w.session Step.error.id >>= fun s =>
          m.executeNext { w with session := s.setLastErrorReport (some (noend s)) } := by
  unfold executeNone
  rw [getNext_of_idle hidle]
  rfl

theorem executeNone_cases {w : World ω} (hidle : w.session.Idle) {out : Onward ω}
    (h : m.executeNone w = .ok out) : m.Ran w out := by
  rw [executeNone_of_idle hidle] at h
  obtain ⟨executable, hexec, h⟩ := bind_eq_ok.mp h
  cases executable with
  | true =>
    obtain ⟨s, hs, h⟩ := bind_eq_ok.mp h
    obtain ⟨hreg, rfl⟩ := addToNext_eq_ok.mp hs
    rw [executeNext_of_plan hidle] at h
    cases h
    exact .finish hexec (hreg.resolve_left (by decide))
  | false =>
    obtain ⟨s, hs, h⟩ := bind_eq_ok.mp h
    obtain ⟨hreg, rfl⟩ := addToNext_eq_ok.mp hs
    have hnext := executeNext_of_plan (m := m) (w := w)
      (s := w.session.setLastErrorReport (some (noend w.session))) hidle Step.error.id
    cases hnext.symm.trans h
    exact .error hexec (hreg.resolve_left (by decide))

theorem executeNone_of_ran {w : World ω} (hidle : w.session.Idle) {out : Onward ω} (h : m.Ran w out) :
    m.executeNone w = .ok out := by
  rw [executeNone_of_idle hidle]
  cases h with
  | finish hexec hreg =>
    have hplan := addToNext_of_registered w.session hreg
    exact bind_eq_ok.mpr ⟨true, hexec, bind_eq_ok.mpr ⟨_, hplan, executeNext_of_plan hidle _⟩⟩
  | error hexec hreg =>
    have hplan := addToNext_of_registered w.session hreg
    have hnext := executeNext_of_plan (m := m) (w := w)
      (s := w.session.setLastErrorReport (some (noend w.session))) hidle Step.error.id
    exact bind_eq_ok.mpr ⟨false, hexec, bind_eq_ok.mpr ⟨_, hplan, hnext⟩⟩

theorem executeNone_succeeds (hm : m.Laid) {w : World ω} (hidle : w.session.Idle)
    (hs : m.Statused w.session) (hfinish : m.Registered Step.finish.id)
    (herror : m.Registered Step.error.id) : ∃ out, m.executeNone w = .ok out := by
  obtain ⟨executable, hexec⟩ := canExecuteFinish_succeeds hm hs
  cases executable with
  | true => exact ⟨_, executeNone_of_ran hidle (.finish hexec hfinish)⟩
  | false => exact ⟨_, executeNone_of_ran hidle (.error hexec herror)⟩

/-! ### `executeAction` -/

/-- What `executeAction` does, by id. -/
inductive Executed (m : StateMachine ω) (w : World ω) : ℤ → Onward ω → Prop
  | die : Executed m w Step.die.id (w.emit (.requestFinished w.session.request), none)
  | nothing {out : Onward ω} (h : m.executeNone w = .ok out) : Executed m w (-1) out
  | action {id : ℤ} {ptr : ActionPtr ω} (hdie : id ≠ Step.die.id) (hneg : id ≠ -1)
      (hptr : m.actions.find? id = some ptr) {w' : World ω} {result : Result}
      (hperform : ptr.perform m.getExpectedOutput { w with session := m.beginAction w.session id } =
        (w', result)) :
      Executed m w id (w', some (.actionExecuted result))
  | absent {id : ℤ} (hdie : id ≠ Step.die.id) (hneg : id ≠ -1) (hreg : ¬m.Registered id) :
      Executed m w id ({ w with session := m.beginAction w.session id }, none)

theorem executeAction_cases {w : World ω} {id : ℤ} {out : Onward ω}
    (h : m.executeAction w id = .ok out) : m.Executed w id out := by
  unfold executeAction at h
  by_cases hdie : id = Step.die.id
  · rw [if_pos hdie] at h
    cases h
    rw [hdie]
    exact .die
  rw [if_neg hdie] at h
  by_cases hneg : id = -1
  · rw [if_pos hneg] at h
    rw [hneg]
    exact .nothing h
  rw [if_neg hneg] at h
  cases hptr : m.actions.find? id with
  | some ptr =>
    simp only [hptr] at h
    cases h
    exact .action hdie hneg hptr rfl
  | none =>
    simp only [hptr] at h
    cases h
    exact .absent hdie hneg fun ⟨ptr, hptr'⟩ => by rw [hptr] at hptr'; cases hptr'

theorem executeAction_of_find? {id : ℤ} (hdie : id ≠ Step.die.id) (hneg : id ≠ -1) {ptr : ActionPtr ω}
    (hptr : m.actions.find? id = some ptr) (w : World ω) : ∃ w' result,
      m.executeAction w id = .ok (w', some (.actionExecuted result)) ∧
        ptr.perform m.getExpectedOutput { w with session := m.beginAction w.session id } = (w', result) := by
  obtain ⟨⟨w', result⟩, hperform⟩ : ∃ out, ptr.perform m.getExpectedOutput
      { w with session := m.beginAction w.session id } = out := ⟨_, rfl⟩
  refine ⟨w', result, ?_, hperform⟩
  unfold executeAction
  rw [if_neg hdie, if_neg hneg]
  simp only [hptr, hperform]

/-! ### `actionExecuted` -/

/-- The report of an action that broke its output contract. -/
def brokenContract (s : Session) : ErrorReport :=
  .ofError s.request.target "action.contract.output" "Action failed it's outputs contract. Aborting"

/-- What `actionExecuted` does, by type. -/
inductive Consumed (m : StateMachine ω) (w : World ω) (result : Result) (ptr : ActionPtr ω) :
    Onward ω → Prop
  | broken (htype : result.type = .done) (hcheck : ptr.checkOutputs w.env w.session = false) :
      Consumed m w result ptr
        ({ w with session := w.session.setLastErrorReport (some (brokenContract w.session)) },
          some (.executeAction Step.error.id))
  | done (htype : result.type = .done) (hcheck : ptr.checkOutputs w.env w.session = true) {s s' : Session}
      {next : ℤ} (hbind : m.bindResults w.env (w.session.setStatus result.actionId .done) result.actionId =
        .ok s) (hnext : m.getNext s = .ok (next, s')) :
      Consumed m w result ptr ({ w with session := s' }, some (.executeAction next))
  | async (htype : result.type = .async) :
      Consumed m w result ptr ({ w with session := w.session.setStatus result.actionId .async }, none)
  | finish (htype : result.type = .finish) {s : Session}
      (hbind : m.bindResults w.env (w.session.setStatus result.actionId .done) result.actionId = .ok s) :
      Consumed m w result ptr ({ w with session := s }, some (.executeAction Step.finish.id))
  | wait (htype : result.type = .wait) :
      Consumed m w result ptr ({ w with session := w.session.setStatus result.actionId .waiting }, none)
  | error (htype : result.type = .error) :
      Consumed m w result ptr
        ({ w with session := (w.session.setLastErrorReport result.error).setStatus result.actionId .done },
          some (.executeAction Step.error.id))

theorem actionExecuted_cases {w : World ω} {result : Result} {out : Onward ω}
    (h : m.actionExecuted w result = .ok out) :
    ∃ ptr, m.actions.find? result.actionId = some ptr ∧ m.Consumed w result ptr out := by
  unfold actionExecuted at h
  obtain ⟨ptr, hptr, h⟩ := bind_eq_ok.mp h
  refine ⟨ptr, actionAt_eq_ok.mp hptr, ?_⟩
  cases htype : result.type with
  | done =>
    rw [htype] at h
    cases hcheck : ptr.checkOutputs w.env w.session with
    | false =>
      rw [hcheck] at h
      cases h
      exact .broken htype hcheck
    | true =>
      rw [hcheck] at h
      obtain ⟨s, hbind, h⟩ := bind_eq_ok.mp h
      obtain ⟨next, s', hnext, rfl⟩ := executeNext_eq_ok.mp h
      exact .done htype hcheck hbind hnext
  | wait =>
    rw [htype] at h
    cases h
    exact .wait htype
  | error =>
    rw [htype] at h
    cases h
    exact .error htype
  | finish =>
    rw [htype] at h
    obtain ⟨s, hbind, h⟩ := bind_eq_ok.mp h
    cases h
    exact .finish htype hbind
  | async =>
    rw [htype] at h
    cases h
    exact .async htype

theorem actionExecuted_of_consumed {w : World ω} {result : Result} {ptr : ActionPtr ω}
    (hptr : m.actions.find? result.actionId = some ptr) {out : Onward ω} (h : m.Consumed w result ptr out) :
    m.actionExecuted w result = .ok out := by
  unfold actionExecuted
  rw [actionAt_eq_ok.mpr hptr]
  cases h with
  | broken htype hcheck =>
    rw [htype, ok_bind, hcheck]
    rfl
  | done htype hcheck hbind hnext =>
    rw [htype, ok_bind, hcheck]
    exact bind_eq_ok.mpr ⟨_, hbind, executeNext_eq_ok.mpr ⟨_, _, hnext, rfl⟩⟩
  | finish htype hbind =>
    rw [htype, ok_bind]
    exact bind_eq_ok.mpr ⟨_, hbind, rfl⟩
  | async htype | wait htype | error htype =>
    rw [htype]
    rfl

/-! ### Messages -/

theorem resetSchedule_idle (s : Session) : (m.resetSchedule s).Idle := ⟨rfl, rfl⟩

theorem resetSchedule_status (s : Session) (id : ℤ) {status : ExecutionStatus} :
    (m.resetSchedule s).status.find? id = some status ↔ m.Registered id ∧ status = .unplanned := by
  have hkeys : id ∈ m.actions.keys ↔ m.Registered id := OrdMap.mem_keys
  show ((∅ : OrdMap ℤ ExecutionStatus).insertAll m.actions.keys .unplanned).find? id = some status ↔ _
  rw [OrdMap.find?_insertAll, ← hkeys]
  split_ifs with h
  · simp only [Option.some.injEq, h, true_and, eq_comm]
  · exact iff_of_false (nomatch ·) fun ⟨hmem, _⟩ => h hmem

theorem resetSchedule_statused (s : Session) : m.Statused (m.resetSchedule s) :=
  fun id hid => ⟨.unplanned, (resetSchedule_status s id).mpr ⟨hid, rfl⟩⟩

theorem receiveStep_eq_ok {w : World ω} {step : Step} (hstep : step ≠ .die) {out : Onward ω} :
    m.receiveStep w step = .ok out ↔ m.Registered step.id ∧
      out = ({ w with session := (m.resetSchedule w.session).plan step.id },
        some (.executeAction step.id)) := by
  have hdie : step.id ≠ Step.die.id := fun h => hstep (Step.id_inj.mp h)
  have hnext := executeNext_of_plan (m := m) (w := w) (s := m.resetSchedule w.session)
    (resetSchedule_idle w.session) step.id
  unfold receiveStep
  rw [bind_eq_ok]
  constructor
  · rintro ⟨s, hs, h⟩
    obtain ⟨hreg, rfl⟩ := addToNext_eq_ok.mp hs
    cases hnext.symm.trans h
    exact ⟨hreg.resolve_left hdie, rfl⟩
  · rintro ⟨hreg, rfl⟩
    exact ⟨_, addToNext_eq_ok.mpr ⟨.inr hreg, rfl⟩, hnext⟩

theorem setStarterInputs_reschedules (starters : List InputBinding) (s : Session) :
    m.Reschedules (fun _ => False) s (setStarterInputs s starters) := by
  induction starters generalizing s with
  | nil => exact .refl s
  | cons input starters ih =>
    unfold setStarterInputs
    rw [List.foldl_cons]
    split_ifs
    · exact ih s
    · exact (Reschedules.setInput ..).trans (ih _)

theorem getInput_setStarterInputs {starters : List InputBinding} {s : Session} {id : ℤ} {name : String}
    (h : ∀ input ∈ starters, input.actionId = id → input.actionInput = name → input.workflowInput = "") :
    (setStarterInputs s starters).getInput id name = s.getInput id name := by
  unfold setStarterInputs
  induction starters generalizing s with
  | nil => rfl
  | cons input rest ih =>
    rw [List.foldl_cons, ih fun input hmem => h input (.tail _ hmem)]
    split_ifs with hempty
    · rfl
    rw [Session.getInput_setInput, if_neg]
    rintro ⟨rfl, rfl⟩
    rw [h input (.head _) rfl rfl] at hempty
    exact hempty rfl

/-- What each starter that is planned or made pending keeps, the loop over the starters keeps. -/
theorem scheduleStarters_invariant {env : ω} {P : Session → Prop} {starters : List InputBinding}
    {s s' : Session} {complete : Bool} (h : m.scheduleStarters env s starters = .ok (complete, s')) (hs : P s)
    (hplan : ∀ input ∈ starters, ∀ ptr c, m.actions.find? input.actionId = some ptr → P c →
      m.canExecuteAction env c ptr = .ok true → P (c.plan input.actionId))
    (hpend : ∀ input ∈ starters, ∀ ptr c, m.actions.find? input.actionId = some ptr → P c →
      m.canExecuteAction env c ptr = .ok false → canPendAction env c ptr = true →
        P (c.pend input.actionId)) : P s' := by
  induction starters generalizing s with
  | nil => cases h; exact hs
  | cons input starters ih =>
    have hrest : ∀ {c}, P c → m.scheduleStarters env c starters = .ok (complete, s') → P s' := fun hc h =>
      ih h hc (fun i hi => hplan i (.tail _ hi)) fun i hi => hpend i (.tail _ hi)
    rw [scheduleStarters] at h
    cases hptr : m.actions.find? input.actionId with
    | none => rw [hptr] at h; cases h; exact hs
    | some ptr =>
      rw [hptr] at h
      obtain ⟨executable, hexec, h⟩ := bind_eq_ok.mp h
      cases executable with
      | true =>
        obtain ⟨c, hc, h⟩ := bind_eq_ok.mp h
        obtain ⟨-, rfl⟩ := addToNext_eq_ok.mp hc
        exact hrest (hplan input (.head _) ptr s hptr hs hexec) h
      | false =>
        rw [if_neg Bool.false_ne_true] at h
        split_ifs at h with hcan
        · obtain ⟨c, hc, h⟩ := bind_eq_ok.mp h
          obtain ⟨-, rfl⟩ := addToPending_eq_ok.mp hc
          exact hrest (hpend input (.head _) ptr s hptr hs hexec hcan) h
        · exact hrest hs h

theorem scheduleStarters_reschedules {env : ω} {starters : List InputBinding} {s s' : Session}
    {complete : Bool} (h : m.scheduleStarters env s starters = .ok (complete, s')) :
    m.Reschedules (fun id => ∃ input ∈ starters, input.actionId = id) s s' := by
  refine scheduleStarters_invariant h (.refl s) ?_ ?_
  · intro input hmem ptr c hptr hc _
    exact hc.trans (.plan ⟨input, hmem, rfl⟩ (.inr ⟨ptr, hptr⟩))
  · intro input hmem ptr c hptr hc _ _
    exact hc.trans (.pend ⟨input, hmem, rfl⟩ ⟨ptr, hptr⟩)

theorem scheduleStarters_inputs {env : ω} {starters : List InputBinding} {s s' : Session} {complete : Bool}
    (h : m.scheduleStarters env s starters = .ok (complete, s')) : s'.inputs = s.inputs :=
  scheduleStarters_invariant (P := fun c => c.inputs = s.inputs) h rfl (fun _ _ _ _ _ hc _ => hc)
    fun _ _ _ _ _ hc _ _ => hc

/-- The session of a first call, before its starters are scheduled. -/
def prepared (m : StateMachine ω) (s : Session) : Session :=
  setStarterInputs (s.setStatuses m.actions.keys .unplanned) m.starters

theorem firstCall_cases {w : World ω} {out : Onward ω} (h : m.firstCall w = .ok out) :
    ∃ complete s, m.scheduleStarters w.env (m.prepared w.session) m.starters = .ok (complete, s) ∧
      ((complete = true ∧ ∃ next s', m.getNext s = .ok (next, s') ∧
          out = ({ w with session := s' }, some (.executeAction next))) ∨
        (complete = false ∧ out = ({ w with session := s }, none))) := by
  obtain ⟨⟨complete, s⟩, hs, h⟩ := bind_eq_ok.mp h
  refine ⟨complete, s, hs, ?_⟩
  cases complete with
  | true =>
    obtain ⟨next, s', hnext, rfl⟩ := executeNext_eq_ok.mp h
    exact .inl ⟨rfl, next, s', hnext, rfl⟩
  | false => cases h; exact .inr ⟨rfl, rfl⟩

theorem started_pushRequest {s : Session} (h : s.status.isEmpty = false) (request : Request) :
    ¬(s.pushRequest request).status.isEmpty = true := fun hfresh => Bool.false_ne_true (h.symm.trans hfresh)

/-- The action an Error message names waits for an answer and takes errors. -/
def Caught (m : StateMachine ω) (w : World ω) (request : Request) : Prop :=
  ∃ ptr, m.actions.find? request.target.action = some ptr ∧
    w.session.status.find? request.target.action = some .waiting ∧
    ptr.canHandleError w.env w.session = true

/-- What a message does. A request is recorded first. -/
inductive Received (m : StateMachine ω) (w : World ω) : Message → Onward ω → Prop
  | firstCall {request : Request} {out : Onward ω} (hfresh : w.session.status.isEmpty = true)
      (h : m.firstCall { w with session := w.session.pushRequest request } = .ok out) :
      Received m w (.request request) out
  | answered {request : Request} {ptr : ActionPtr ω} {w' : World ω} {result : Result}
      (hstarted : w.session.status.isEmpty = false)
      (hkind : request.target.target = .error ∨ request.target.target = .reply)
      (hptr : m.actions.find? request.target.action = some ptr)
      (hwait : w.session.status.find? request.target.action = some .waiting)
      (hreply : ptr.replyReceived { w with session := w.session.pushRequest request } request =
        (w', result)) :
      Received m w (.request request) (w', some (.actionExecuted result))
  | reset {request : Request} {step : Step} (hstarted : w.session.status.isEmpty = false)
      (hkind : request.target.target = .error ∧ step = .error ∧
          ¬m.Caught { w with session := w.session.pushRequest request } request ∨
        request.target.target = .interrupt ∧ step = .interrupt)
      (hreg : m.Registered step.id) :
      Received m w (.request request)
        ({ w with session := (m.resetSchedule (w.session.pushRequest request)).plan step.id },
          some (.executeAction step.id))
  | ignored {request : Request} (hstarted : w.session.status.isEmpty = false)
      (herror : request.target.target ≠ .error) (hinterrupt : request.target.target ≠ .interrupt) :
      Received m w (.request request) ({ w with session := w.session.pushRequest request }, none)
  | finished {result : Result} {out : Onward ω} (h : m.actionExecuted w result = .ok out) :
      Received m w (.asyncFinished result) out

theorem errorReceived_cases {w : World ω} {request : Request} {out : Onward ω}
    (h : m.errorReceived w request = .ok out) :
    (∃ ptr, m.actions.find? request.target.action = some ptr ∧
      w.session.status.find? request.target.action = some .waiting ∧
      out = ((ptr.replyReceived w request).1, some (.actionExecuted (ptr.replyReceived w request).2))) ∨
    ¬m.Caught w request ∧ m.receiveStep w .error = .ok out := by
  unfold errorReceived at h
  cases hptr : m.actions.find? request.target.action with
  | none =>
    rw [hptr] at h
    refine .inr ⟨?_, h⟩
    rintro ⟨ptr, hptr', -⟩
    rw [hptr] at hptr'
    cases hptr'
  | some ptr =>
    rw [hptr] at h
    obtain ⟨status, hst, h⟩ := bind_eq_ok.mp h
    by_cases hcaught : (decide (status = .waiting) && ptr.canHandleError w.env w.session) = true
    · rw [if_pos hcaught] at h
      cases h
      rw [Bool.and_eq_true, decide_eq_true_eq] at hcaught
      exact .inl ⟨ptr, rfl, hcaught.1 ▸ Session.getStatus_eq_ok.mp hst, rfl⟩
    · rw [if_neg hcaught] at h
      refine .inr ⟨?_, h⟩
      rintro ⟨ptr', hptr', hwait, hcan⟩
      rw [Session.getStatus_eq_ok.mp hst] at hwait
      cases hptr.symm.trans hptr'
      cases hwait
      exact hcaught (by rw [hcan]; rfl)

theorem replyReceived_cases {w : World ω} {request : Request} {out : Onward ω}
    (h : m.replyReceived w request = .ok out) :
    (∃ ptr, m.actions.find? request.target.action = some ptr ∧
      w.session.status.find? request.target.action = some .waiting ∧
      out = ((ptr.replyReceived w request).1, some (.actionExecuted (ptr.replyReceived w request).2))) ∨
    out = (w, none) := by
  unfold replyReceived at h
  cases hptr : m.actions.find? request.target.action with
  | none => rw [hptr] at h; cases h; exact .inr rfl
  | some ptr =>
    rw [hptr] at h
    obtain ⟨status, hst, h⟩ := bind_eq_ok.mp h
    split_ifs at h with hwait
    · cases h
      exact .inl ⟨ptr, rfl, hwait ▸ Session.getStatus_eq_ok.mp hst, rfl⟩
    · cases h
      exact .inr rfl

theorem receive_cases (hm : m.Laid) {w : World ω} {message : Message} {out : Onward ω}
    (h : m.receive w message = .ok out) : m.Received w message out := by
  cases message with
  | asyncFinished result => exact .finished h
  | request request =>
    change m.execute w request = .ok out at h
    unfold execute at h
    dsimp only at h
    cases hfresh : w.session.status.isEmpty with
    | true =>
      have hfresh' : (w.session.pushRequest request).status.isEmpty = true := hfresh
      rw [if_pos hfresh'] at h
      exact .firstCall hfresh h
    | false =>
      rw [if_neg (started_pushRequest hfresh request)] at h
      cases hkind : request.target.target with
      | error =>
        rw [hkind, if_pos rfl] at h
        rcases errorReceived_cases h with ⟨ptr, hptr, hwait, rfl⟩ | ⟨hcaught, h⟩
        · exact .answered hfresh (.inl hkind) hptr hwait rfl
        · obtain ⟨hreg, rfl⟩ := (receiveStep_eq_ok (by decide)).mp h
          exact .reset hfresh (.inl ⟨hkind, rfl, hcaught⟩) hreg
      | interrupt =>
        rw [hkind] at h
        obtain ⟨hreg, rfl⟩ := (receiveStep_eq_ok (by decide)).mp h
        exact .reset hfresh (.inr ⟨hkind, rfl⟩) hreg
      | status =>
        rw [hkind] at h
        have hnone : m.actions.find? Step.status.id = none :=
          Option.eq_none_iff_forall_ne_some.mpr fun ptr hptr =>
            hm.not_registered (.inr (.inr rfl)) ⟨ptr, hptr⟩
        simp only [statusReceived, hnone] at h
        cases h
        exact .ignored hfresh (by rw [hkind]; decide) (by rw [hkind]; decide)
      | reply =>
        have hignored := Received.ignored (m := m) (w := w) hfresh
          (by rw [hkind]; decide) (by rw [hkind]; decide)
        simp only [hkind, reduceCtorEq, if_false, if_true] at h
        split_ifs at h
        · cases h
          exact hignored
        · rcases replyReceived_cases h with ⟨ptr, hptr, hwait, rfl⟩ | rfl
          · exact .answered hfresh (.inr hkind) hptr hwait rfl
          · exact hignored
      | defaultAction | noReply =>
        simp only [hkind, reduceCtorEq, if_false] at h
        split_ifs at h <;> cases h <;>
          exact .ignored hfresh (by rw [hkind]; decide) (by rw [hkind]; decide)

theorem execute_succeeds {w : World ω} (hs : m.Statused w.session)
    (hstarted : w.session.status.isEmpty = false) {request : Request}
    (herror : request.target.target ≠ .error) (hinterrupt : request.target.target ≠ .interrupt) :
    ∃ out, m.execute w request = .ok out := by
  unfold execute
  dsimp only
  rw [if_neg (started_pushRequest hstarted request), if_neg herror, if_neg hinterrupt]
  split_ifs
  · unfold statusReceived
    cases m.actions.find? Step.status.id with
    | none => exact ⟨_, rfl⟩
    | some ptr => exact ⟨_, rfl⟩
  · exact ⟨_, rfl⟩
  · unfold replyReceived
    cases hptr : m.actions.find? request.target.action with
    | none => exact ⟨_, rfl⟩
    | some ptr =>
      obtain ⟨status, hst⟩ := hs _ ⟨ptr, hptr⟩
      have hget : (w.session.pushRequest request).getStatus request.target.action = .ok status :=
        Session.getStatus_eq_ok.mpr hst
      dsimp only
      rw [hget]
      by_cases hwait : status = .waiting
      · exact ⟨_, if_pos hwait⟩
      · exact ⟨_, if_neg hwait⟩
  · exact ⟨_, rfl⟩

end StateMachine

/-! ### In flight -/

namespace Session

def InFlight (s : Session) (id : ℤ) : Prop :=
  s.status.find? id = some .waiting ∨ s.status.find? id = some .async

def Quiet (s : Session) : Prop := ∀ id, ¬s.InFlight id

/-- Nothing but `x` is in flight. -/
def AwaitsOnly (s : Session) (x : ℤ) : Prop := ∀ id, s.InFlight id → id = x

def AtMostOneInFlight (s : Session) : Prop := ∀ a b, s.InFlight a → s.InFlight b → a = b

variable {s s' : Session}

theorem InFlight.congr {id : ℤ} (h : s.InFlight id) (hstatus : s'.status = s.status) : s'.InFlight id := by
  unfold InFlight
  rw [hstatus]
  exact h

theorem InFlight.of_setStatus {a id : ℤ} {status : ExecutionStatus}
    (h : (s.setStatus id status).InFlight a) (hne : a ≠ id) : s.InFlight a := by
  unfold InFlight Session.setStatus at h
  rwa [OrdMap.find?_insert_of_ne _ _ hne] at h

theorem InFlight.status_of_setStatus {id : ℤ} {status : ExecutionStatus}
    (h : (s.setStatus id status).InFlight id) : status = .waiting ∨ status = .async := by
  unfold InFlight Session.setStatus at h
  simpa [OrdMap.find?_insert_self] using h

theorem InFlight.started {id : ℤ} (h : s.InFlight id) : s.status.isEmpty = false := by
  rw [← Bool.not_eq_true, OrdMap.isEmpty_iff]
  intro hnone
  rcases h with h | h <;> rw [hnone id] at h <;> cases h

theorem AwaitsOnly.atMostOne {x : ℤ} (h : s.AwaitsOnly x) : s.AtMostOneInFlight :=
  fun a b ha hb => (h a ha).trans (h b hb).symm

theorem Quiet.awaitsOnly (h : s.Quiet) (x : ℤ) : s.AwaitsOnly x := fun a ha => absurd ha (h a)

theorem Quiet.atMostOne (h : s.Quiet) : s.AtMostOneInFlight := (h.awaitsOnly 0).atMostOne

theorem AtMostOneInFlight.awaitsOnly (h : s.AtMostOneInFlight) {x : ℤ} (hx : s.InFlight x) :
    s.AwaitsOnly x := fun a ha => h a x ha hx

theorem Quiet.congr (h : s.Quiet) (hstatus : s'.status = s.status) : s'.Quiet :=
  fun a ha => h a (ha.congr hstatus.symm)

theorem AwaitsOnly.congr {x : ℤ} (h : s.AwaitsOnly x) (hstatus : s'.status = s.status) :
    s'.AwaitsOnly x := fun a ha => h a (ha.congr hstatus.symm)

theorem AwaitsOnly.setStatus {x : ℤ} (h : s.AwaitsOnly x) (status : ExecutionStatus) :
    (s.setStatus x status).AwaitsOnly x := by
  intro a ha
  by_contra hne
  exact hne (h a (ha.of_setStatus hne))

theorem AwaitsOnly.settle {x : ℤ} (h : s.AwaitsOnly x) {status : ExecutionStatus}
    (hwaiting : status ≠ .waiting) (hasync : status ≠ .async) : (s.setStatus x status).Quiet := by
  intro a ha
  have hax := h.setStatus status a ha
  subst hax
  exact ha.status_of_setStatus.elim hwaiting hasync

theorem quiet_ofRequest (request : Request) : (Session.ofRequest request).Quiet := by
  intro a ha
  rcases ha with ha | ha <;> cases ha

end Session

namespace StateMachine

variable {ω : Type} {m : StateMachine ω} {s s' : Session}

theorem Reschedules.inFlight {ids : ℤ → Prop} (h : m.Reschedules ids s s') {a : ℤ} (ha : s'.InFlight a) :
    s.InFlight a := by
  rcases ha with ha | ha
  · exact .inl (h.status_of_started ha (by simp [ExecutionStatus.NotStarted]))
  · exact .inr (h.status_of_started ha (by simp [ExecutionStatus.NotStarted]))

theorem Reschedules.quiet {ids : ℤ → Prop} (h : m.Reschedules ids s s') (hs : s.Quiet) : s'.Quiet :=
  fun a ha => hs a (h.inFlight ha)

theorem quiet_plan (hs : s.Quiet) {id : ℤ} (hid : id = Step.die.id ∨ m.Registered id) :
    (s.plan id).Quiet :=
  Reschedules.quiet (Reschedules.plan rfl hid : m.Reschedules (· = id) s (s.plan id)) hs

theorem quiet_resetSchedule (s : Session) : (m.resetSchedule s).Quiet := by
  intro a ha
  rcases ha with ha | ha
  · exact nomatch ((resetSchedule_status s a).mp ha).2
  · exact nomatch ((resetSchedule_status s a).mp ha).2

/-- When an action is performed nothing is in flight: nothing was, or the schedule was reset. -/
theorem quiet_beginAction {id : ℤ} (h : s.Quiet ∨ leavesFlow id = true) : (m.beginAction s id).Quiet := by
  unfold beginAction
  dsimp only
  split_ifs with hleaves
  · exact ((quiet_resetSchedule _).awaitsOnly id).settle (by decide) (by decide)
  · exact (h.resolve_right hleaves).congr rfl

/-! ### Started sessions -/

theorem started_iff {s : Session} :
    s.status.isEmpty = false ↔ ∃ id status, s.status.find? id = some status := by
  rw [← Bool.not_eq_true, OrdMap.isEmpty_iff]
  simp only [not_forall, ← ne_eq, Option.ne_none_iff_exists']

theorem started_setStatus (s : Session) (id : ℤ) (status : ExecutionStatus) :
    (s.setStatus id status).status.isEmpty = false :=
  started_iff.mpr ⟨id, status, OrdMap.find?_insert_self ..⟩

theorem started_plan (s : Session) (id : ℤ) : (s.plan id).status.isEmpty = false :=
  started_iff.mpr ⟨id, .planned, OrdMap.find?_insert_self ..⟩

theorem Reschedules.started {ids : ℤ → Prop} (h : m.Reschedules ids s s')
    (hs : s.status.isEmpty = false) : s'.status.isEmpty = false := by
  obtain ⟨id, status, hst⟩ := started_iff.mp hs
  rcases h.status id with heq | ⟨-, status', hst', -⟩
  · exact started_iff.mpr ⟨id, status, heq.trans hst⟩
  · exact started_iff.mpr ⟨id, status', hst'⟩

theorem started_of_statused (h : m.Statused s) {id : ℤ} (hid : m.Registered id) :
    s.status.isEmpty = false := by
  obtain ⟨status, hst⟩ := h id hid
  exact started_iff.mpr ⟨id, status, hst⟩

/-! ### What performing an action leaves of the schedule -/

theorem exists_beginAction_eq (m : StateMachine ω) (s : Session) (id : ℤ) : ∃ status nexts pendings,
    m.beginAction s id = { s with status := status, nexts := nexts, pendings := pendings } := by
  unfold beginAction
  dsimp only
  split_ifs
  · exact ⟨_, _, _, rfl⟩
  · exact ⟨s.status, _, _, rfl⟩

theorem active_beginAction {s : Session} {id a : ℤ} (h : (m.beginAction s id).Active a) :
    s.Active a ∧ a ≠ id ∧ leavesFlow id = false := by
  unfold beginAction at h
  dsimp only at h
  split_ifs at h with hleaves
  · exact absurd h (Session.not_active_of_idle ⟨rfl, rfl⟩ a)
  · rcases h with h | h
    · obtain ⟨hne, hmem⟩ := OrdSet.mem_erase.mp h
      exact ⟨.inl hmem, hne, Bool.not_eq_true _ ▸ hleaves⟩
    · obtain ⟨hne, hmem⟩ := OrdSet.mem_erase.mp h
      exact ⟨.inr hmem, hne, Bool.not_eq_true _ ▸ hleaves⟩

theorem started_beginAction {s : Session} {id : ℤ} (h : leavesFlow id = true ∨ s.status.isEmpty = false) :
    (m.beginAction s id).status.isEmpty = false := by
  unfold beginAction
  dsimp only
  split_ifs with hleaves
  · exact started_setStatus _ _ _
  · exact h.resolve_left hleaves

/-- What is done while an action is performed was done before. -/
theorem done_of_beginAction {s : Session} {id a : ℤ}
    (h : (m.beginAction s id).status.find? a = some .done) : s.status.find? a = some .done := by
  unfold beginAction at h
  dsimp only at h
  split_ifs at h with hleaves
  · unfold Session.setStatus at h
    rw [OrdMap.find?_insert] at h
    split_ifs at h
    · cases h
    · exact nomatch ((resetSchedule_status _ _).mp h).2
  · exact h

end StateMachine

end LibWorkflow
