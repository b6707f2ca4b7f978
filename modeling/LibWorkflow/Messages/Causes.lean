import LibWorkflow.Flow.Deliveries

/-!
# The cause of an error

`ErrorWrapper::wrapPerform` rethrows the report it finds on the last request of the session. Five things
bring a session to Error, and four of them put a report there first; a binding or a starter that plans the
step as an ordinary action does not (`causes_carried_iff`).
-/

namespace LibWorkflow

open Ordered Fallible Reactive

namespace ErrorReportOf

variable {ρ : Type}

theorem getErrorKey_rethrow (target : Target) (er : ErrorReportOf ρ) :
    (rethrow target (some er)).getErrorKey = er.root.errorKey := by
  unfold getErrorKey rethrow
  rw [root]

theorem getErrorMessage_rethrow (target : Target) (er : ErrorReportOf ρ) :
    (rethrow target (some er)).getErrorMessage = er.root.errorMessage := by
  unfold getErrorMessage rethrow
  rw [root]

end ErrorReportOf

def Event.errorReply? : Event → Option Request
  | .errorReply reply => some reply
  | _ => none

def errorReplies (trace : List Event) : List Request := trace.filterMap Event.errorReply?

/-- The reply carries the cause: its report is set, and has the key, which is not empty, and the message of
the report at the root of the cause. -/
def Carries (cause : Option ErrorReport) (reply : Request) : Prop :=
  ∃ er report, cause = some er ∧ reply.report = some report ∧ report.isSet = true ∧
    report.getErrorKey ≠ "" ∧ report.getErrorKey = er.root.errorKey ∧
    report.getErrorMessage = er.root.errorMessage

namespace StateMachine

variable {ω : Type} {m : StateMachine ω} {request : Request} {env : ω}

/-! ### Causes -/

/-- The report a result brings the session to Error with. -/
def resultCause (m : StateMachine ω) (w : World ω) (result : Result) : Option ErrorReport :=
  match result.type with
  | .error => result.error
  | .done =>
    if (m.actions.find? result.actionId).any fun ptr => !ptr.checkOutputs w.env w.session then
      some (brokenContract w.session)
    else none
  | _ => none

/-- The report the next step brings the session to Error with, if it does: that of an action's error, of a broken
contract, of a missing end, or of a message. A binding or a starter brings none. -/
def cause (m : StateMachine ω) : Config ω → Option Message → Option ErrorReport
  | .running (.actionExecuted result) w, _ => m.resultCause w result
  | .running (.executeAction id) w, _ =>
    if id = -1 then
      match m.canExecuteFinish w.session with
      | .ok false => some (noend w.session)
      | _ => none
    else none
  | .returned w, some (.request request) =>
    if request.target.target = .error && !w.session.status.isEmpty then request.report else none
  | .returned w, some (.asyncFinished result) => m.resultCause w result
  | _, _ => none

def PerformsError : Config ω → Prop
  | .running (.executeAction id) _ => id = Step.error.id
  | _ => False

instance : (c : Config ω) → Decidable (PerformsError c)
  | .running (.executeAction id) _ => inferInstanceAs (Decidable (id = Step.error.id))
  | .running (.actionExecuted _) _ | .returned _ | .crashed _ _ => inferInstanceAs (Decidable False)

/-- The history of a run: the cause the last step left, and the causes for which Error was performed. -/
def recordCause (m : StateMachine ω) (c : Config ω) (label : Option Message)
    (h : Option ErrorReport × List (Option ErrorReport)) : Option ErrorReport × List (Option ErrorReport) :=
  (m.cause c label, if PerformsError c then h.2 ++ [h.1] else h.2)

/-! ### What a step sends -/

theorem errorReplies_append (trace events : List Event) :
    errorReplies (trace ++ events) = errorReplies trace ++ errorReplies events := List.filterMap_append

theorem errorReplies_perform (hm : m.Laid) {id : ℤ} {ptr : ActionPtr ω} (hptr : m.actions.find? id = some ptr)
    {expected : List String} {w w' : World ω} {result : Result}
    (hperform : ptr.perform expected w = (w', result)) :
    errorReplies w'.trace = errorReplies w.trace ++
      if id = Step.error.id then [ActionPtr.errorReply w.session] else [] := by
  obtain ⟨sent, htrace⟩ := ptr.trace_of_perform hperform
  have hsent : errorReplies (sent.map Event.sent) = [] := by
    unfold errorReplies
    rw [List.filterMap_map]
    exact List.filterMap_eq_nil_iff.mpr fun _ _ => rfl
  have hcons : ∀ events, errorReplies (.performed ptr.getActionId w.session :: events) = errorReplies events :=
    fun _ => rfl
  rw [htrace, errorReplies_append, hcons, errorReplies_append, hsent, List.append_nil]
  have hwrapper := hm.wrapper hptr
  by_cases hid : id = Step.error.id
  · subst hid
    have herror : ptr.wrapper = some .error := hwrapper
    unfold ActionPtr.wrapReplies
    rw [herror, if_pos rfl]
    rfl
  · unfold wrapperOf at hwrapper
    unfold ActionPtr.wrapReplies
    rw [if_neg hid] at hwrapper ⊢
    split_ifs at hwrapper <;> rw [hwrapper] <;> rfl

theorem errorReplies_of_receive (hm : m.Laid) {w : World ω} {message : Message} {out : Onward ω}
    (h : m.receive w message = .ok out) : errorReplies out.1.trace = errorReplies w.trace := by
  obtain ⟨events, htrace, hunheard⟩ := receive_heard hm h
  have hnone : errorReplies events = [] := List.filterMap_eq_nil_iff.mpr fun event hmem => by
    have hreply := (hunheard event hmem).2
    cases event <;> first | rfl | cases hreply
  rw [htrace, errorReplies_append, hnone, List.append_nil]

/-! ### The report on the last request -/

/-- Where Error is executed next for a cause, the cause is the report of the last request. -/
def Reported (cause : Option ErrorReport) (out : Onward ω) : Prop :=
  out.2 = some (.executeAction Step.error.id) → ∀ er, cause = some er → out.1.session.lastRequest.report = some er

theorem actionExecuted_reported {w : World ω} {result : Result} {out : Onward ω}
    (h : m.actionExecuted w result = .ok out) : Reported (m.resultCause w result) out := by
  obtain ⟨ptr, hptr, hconsumed⟩ := actionExecuted_cases h
  intro hnext er hcause
  unfold resultCause at hcause
  cases hconsumed with
  | broken htype hcheck =>
    rw [htype, hptr] at hcause
    simp only [Option.any_some, hcheck, Bool.not_false, if_true] at hcause
    exact hcause
  | done htype hcheck =>
    rw [htype, hptr] at hcause
    simp only [Option.any_some, hcheck, Bool.not_true, Bool.false_eq_true, if_false] at hcause
    cases hcause
  | error htype =>
    rw [htype] at hcause
    exact hcause
  | async | wait => cases hnext
  | finish htype =>
    rw [htype] at hcause
    cases hcause

theorem executeAction_reported {w : World ω} {id : ℤ} (hcalled : m.Called w.session id)
    {out : Onward ω} (h : m.executeAction w id = .ok out) :
    Reported (m.cause (.running (.executeAction id) w) none) out := by
  intro hnext er hcause
  cases executeAction_cases h with
  | die | action | absent => cases hnext
  | nothing h =>
    cases executeNone_cases (hcalled.nothing rfl) h with
    | finish => cases hnext
    | error hexec =>
      dsimp only [cause] at hcause
      rw [if_pos rfl, hexec] at hcause
      exact hcause

theorem receive_reported (hm : m.Laid) {w : World ω} {message : Message} {out : Onward ω}
    (h : m.receive w message = .ok out) : Reported (m.cause (.returned w) (some message)) out := by
  intro hnext er hcause
  cases receive_cases hm h with
  | finished h => exact actionExecuted_reported h hnext er hcause
  | answered | ignored => cases hnext
  | @firstCall request _ hfresh h =>
    dsimp only [cause] at hcause
    rw [hfresh, Bool.not_true, Bool.and_false] at hcause
    cases hcause
  | @reset request step hstarted hkind =>
    dsimp only [cause] at hcause
    split_ifs at hcause
    exact hcause

/-! ### Runs -/

/-- The replies rethrow the causes where there are any, and so will the next. -/
structure Rethrown (c : Config ω) (h : Option ErrorReport × List (Option ErrorReport)) : Prop where
  replies : List.Forall₂ (fun cause reply => ∀ er, cause = some er →
    ∃ target, reply.report = some (.rethrow target (some er))) h.2 (errorReplies c.world.trace)
  next : PerformsError c → ∀ er, h.1 = some er → c.world.session.lastRequest.report = some er

theorem lastRequest_beginAction (s : Session) (id : ℤ) : (m.beginAction s id).lastRequest = s.lastRequest := by
  obtain ⟨_, _, _, heq⟩ := m.exists_beginAction_eq s id
  rw [heq]

theorem Rethrown.after {c : Config ω} {h : Option ErrorReport × List (Option ErrorReport)} (hc : Rethrown c h)
    (hnot : ¬PerformsError c) {label : Option Message} {out : Onward ω}
    (hreplies : errorReplies out.1.trace = errorReplies c.world.trace)
    (hreported : Reported (m.cause c label) out) : Rethrown (Config.after out) (m.recordCause c label h) := by
  refine ⟨?_, ?_⟩
  · rw [Config.world_after, hreplies, recordCause, if_neg hnot]
    exact hc.replies
  · rw [Config.world_after]
    intro hperforms er hcause
    refine hreported ?_ er hcause
    obtain ⟨w, _ | id | result⟩ := out
    · cases hperforms
    · exact congrArg (fun id => some (Call.executeAction id)) hperforms
    · cases hperforms

theorem run_rethrown (hm : Initialised m) {x : Config ω × Option ErrorReport × List (Option ErrorReport)}
    (hrun : (m.system.observed m.recordCause).Reachable (opened request env, none, []) x) : Rethrown x.1 x.2 := by
  have herror : m.Registered Step.error.id := hm.registered (.inr (.inl rfl))
  refine history_induction hm.laid (I := fun c h => Rethrown c h) hrun ⟨.nil, fun h => h.elim⟩ ?_ ?_ ?_ ?_ ?_
  · intro id w out h hcalled hw _ hout
    by_cases hid : id = Step.error.id
    · subst hid
      obtain ⟨ptr, hptr⟩ := herror
      obtain ⟨hdie, hneg⟩ := hm.laid.not_special ⟨ptr, hptr⟩
      obtain ⟨w', result, hexec, hperform⟩ := executeAction_of_find? hdie hneg hptr w
      cases hout.symm.trans hexec
      have hperforms : PerformsError (Config.running (.executeAction Step.error.id) w) := rfl
      refine ⟨?_, fun h => h.elim⟩
      show List.Forall₂ _ (m.recordCause _ none h).2 (errorReplies w'.trace)
      rw [errorReplies_perform hm.laid hptr hperform, if_pos rfl, recordCause, if_pos hperforms]
      -- the report on the last request is the cause that was recorded when Error was scheduled
      refine List.rel_append hw.replies (.cons (fun er her => ?_) .nil)
      have hreport := hw.next hperforms er her
      refine ⟨(m.beginAction w.session Step.error.id).request.target, ?_⟩
      unfold ActionPtr.errorReply
      rw [lastRequest_beginAction]
      exact congrArg (fun report => some (ErrorReportOf.rethrow _ report)) hreport
    · have hnot : ¬PerformsError (Config.running (.executeAction id) w) := hid
      refine hw.after hnot ?_ (executeAction_reported hcalled hout)
      cases executeAction_cases hout with
      | die => exact (errorReplies_append _ _).trans (List.append_nil _)
      | nothing h => rw [executeNone_trace h]; rfl
      | action _ _ hptr hperform =>
        rw [errorReplies_perform hm.laid hptr hperform, if_neg hid, List.append_nil]
        rfl
      | absent => rfl
  · intro result w out h _ hw _ hout
    refine hw.after id ?_ (actionExecuted_reported hout)
    obtain ⟨ptr, -, hconsumed⟩ := actionExecuted_cases hout
    cases hconsumed <;> rfl
  · intro message w out h _ hw _ hout
    exact hw.after id (errorReplies_of_receive hm.laid hout) (receive_reported hm.laid hout)
  · intro call w fault h hw hout
    have hnot : ¬PerformsError (Config.running call w) := by
      intro hperforms
      cases call with
      | actionExecuted => exact hperforms
      | executeAction id =>
        have hid : id = Step.error.id := hperforms
        obtain ⟨ptr, hptr⟩ := hid ▸ herror
        obtain ⟨hdie, hneg⟩ := hm.laid.not_special ⟨ptr, hptr⟩
        obtain ⟨w', result, hexec, -⟩ := executeAction_of_find? hdie hneg hptr w
        cases hout.symm.trans hexec
    refine ⟨?_, fun h => h.elim⟩
    rw [recordCause, if_neg hnot]
    exact hw.replies
  · exact fun message w fault h hw _ => ⟨hw.replies, fun h => h.elim⟩

/-- A reply that rethrows its cause carries it where the cause has a key. -/
theorem carries_iff {cause : Option ErrorReport} {reply : Request}
    (h : ∀ er, cause = some er → ∃ target, reply.report = some (.rethrow target (some er))) :
    Carries cause reply ↔ ∃ er, cause = some er ∧ er.root.errorKey ≠ "" := by
  constructor
  · rintro ⟨er, report, hcause, -, -, hkey, heq, -⟩
    exact ⟨er, hcause, heq ▸ hkey⟩
  · rintro ⟨er, hcause, hkey⟩
    obtain ⟨target, hreport⟩ := h er hcause
    have hroot := ErrorReportOf.getErrorKey_rethrow target er
    exact ⟨er, _, hcause, hreport, rfl, hroot.symm ▸ hkey, hroot, ErrorReportOf.getErrorMessage_rethrow target er⟩

/-- **Causes.** In every run the replies of Error carry their causes if and only if Error was never performed
but for a report whose root has a key. -/
theorem causes_carried_iff (hm : Initialised m)
    {x : Config ω × Option ErrorReport × List (Option ErrorReport)}
    (hrun : (m.system.observed m.recordCause).Reachable (opened request env, none, []) x) :
    List.Forall₂ Carries x.2.2 (errorReplies x.1.world.trace) ↔
      ∀ cause ∈ x.2.2, ∃ er, cause = some er ∧ er.root.errorKey ≠ "" := by
  have hrethrown := (run_rethrown hm hrun).replies
  generalize errorReplies x.1.world.trace = replies at hrethrown ⊢
  generalize x.2.2 = causes at hrethrown ⊢
  induction hrethrown with
  | nil => exact iff_of_true .nil fun _ h => nomatch h
  | cons hreply _ ih =>
    rw [List.forall₂_cons, List.forall_mem_cons]
    exact and_congr (carries_iff hreply) ih

end StateMachine

namespace Sample

open StateMachine

/-- The default layout with an action that leads to Error as to any other. -/
def resigning : StateMachine Unit :=
  (StateMachine.new.init.addAction 0 (returning .done) [leadTo Step.error.id]).addInput ⟨"", 0, ""⟩

def resigned : Config Unit × Option ErrorReport × List (Option ErrorReport) :=
  (resigning.system.observed resigning.recordCause).play 30 [.request (request .defaultAction 0 0)]
    (opened (request .defaultAction 0 0) (), none, [])

theorem resigned_reachable : (resigning.system.observed resigning.recordCause).Reachable
    (opened (request .defaultAction 0 0) (), none, []) resigned :=
  .play (fun _ => trivial) (fun _ _ _ => trivial) .start

theorem resigned_causes : resigned.2.2 = [none] := rfl

def lacking : StateMachine Unit :=
  (StateMachine.new.init.addAction 0 (.unimplemented Unit) [leadTo Step.finish.id]).addInput ⟨"", 0, ""⟩

def lacked : Config Unit × Option ErrorReport × List (Option ErrorReport) :=
  (lacking.system.observed lacking.recordCause).play 30 [.request (request .defaultAction 0 0)]
    (opened (request .defaultAction 0 0) (), none, [])

theorem lacked_reachable : (lacking.system.observed lacking.recordCause).Reachable
    (opened (request .defaultAction 0 0) (), none, []) lacked :=
  .play (fun _ => trivial) (fun _ _ _ => trivial) .start

theorem lacked_causes : lacked.2.2.map (fun cause => cause.map fun er => er.root.errorKey) =
    [some "action.perform.unimplemented"] := by decide

/-- An error of an action is carried, a binding to Error carries nothing. -/
theorem lacked_carries : List.Forall₂ Carries lacked.2.2 (errorReplies lacked.1.world.trace) ∧
    ¬List.Forall₂ Carries resigned.2.2 (errorReplies resigned.1.world.trace) := by
  constructor
  · refine (causes_carried_iff (.addInput (.addAction .refl _ _ _) _) lacked_reachable).mpr fun cause hcause => ?_
    have hmem := List.mem_map_of_mem (f := fun cause => cause.map fun er => er.root.errorKey) hcause
    rw [lacked_causes, List.mem_singleton] at hmem
    obtain ⟨er, rfl, hkey⟩ := Option.map_eq_some_iff.mp hmem
    exact ⟨er, rfl, by rw [hkey]; decide⟩
  · intro hcarries
    have hcauses := (causes_carried_iff (.addInput (.addAction .refl _ _ _) _) resigned_reachable).mp hcarries
    obtain ⟨er, hsome, -⟩ := hcauses none (by rw [resigned_causes]; exact List.mem_singleton_self _)
    cases hsome

/-- The reply of the session has a report that is not set. -/
theorem resigned_without_cause : resigning.validate = none ∧
    (resigning.system.observed resigning.recordCause).Reachable
      (opened (request .defaultAction 0 0) (), none, []) resigned ∧
    (errorReplies resigned.1.world.trace).map (fun reply => reply.report.map ErrorReportOf.isSet) = [some false] ∧
    ¬List.Forall₂ Carries resigned.2.2 (errorReplies resigned.1.world.trace) := by
  have hunset : (errorReplies resigned.1.world.trace).map (fun reply => reply.report.map ErrorReportOf.isSet) =
      [some false] := by decide
  refine ⟨by decide, resigned_reachable, hunset, fun hcarries => ?_⟩
  generalize errorReplies resigned.1.world.trace = replies at hunset hcarries
  cases hcarries with
  | cons hcarries =>
    obtain ⟨er, report, -, hreport, hset, -⟩ := hcarries
    rw [List.map_cons, hreport, Option.map_some, hset] at hunset
    cases hunset

end Sample

end LibWorkflow
