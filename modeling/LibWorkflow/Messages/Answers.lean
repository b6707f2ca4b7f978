import LibWorkflow.Sessions.Projection
import LibWorkflow.Sessions.Queue

/-!
# Answers

`prepareSyncRequest` writes into a request where its answer is to go, and `createReply` makes the answer
from it. The answer comes back to the session and the action it was asked by (`reply_answers`), at
the execution level it was asked at; the workflow takes it while the action waits, the session is not
being executed and the level was not raised, whatever the other sessions do.
-/

namespace LibWorkflow

open Ordered Fallible

namespace Event

def answer? : Event → Option (ℤ × Request)
  | .replyReceived id request => some (id, request)
  | _ => none

end Event

/-- The answers given to the actions of the session `x`, in order. -/
def Working.answers {ω : Type} (c : Working ω) (x : UUID) : List (ℤ × Request) :=
  (c.events x).filterMap Event.answer?

/-! ### Asking and answering -/

/-- A request is prepared from `s`, the session `x`, and `c` is the state of the workflow then: from the
session of the entry, or by the code of an action, from the session it was given in the step that
leads to `c`. -/
inductive Prepares {ω : Type} (start : Working ω) (x : UUID) (s : Session) (c : Working ω) : Prop
  | between {rsession : RunningSession} (hrun : (Workflow.system ω).Reachable start c)
      (hfind : c.workflow.sessions.find? x = some rsession) (hs : s = rsession.session)
  | performing {b : Working ω} {performing : Bool} {rest : List Execution} {id : ℤ} {ptr : ActionPtr ω}
      {rsession : RunningSession} (hrun : (Workflow.system ω).Reachable start b)
      (hcalls : b.calls = ⟨x, performing, some (.executeAction id)⟩ :: rest)
      (hfind : b.workflow.sessions.find? x = some rsession)
      (hptr : b.workflow.stateMachine.actions.find? id = some ptr)
      (hs : s = ptr.wrapped (b.workflow.stateMachine.beginAction rsession.session id))
      (hstep : (Workflow.system ω).next b = some c)
  | answering {b : Working ω} {request : Request} {flag : Bool} {rsession : RunningSession}
      (hrun : (Workflow.system ω).Reachable start b) (hid : request.getId = x)
      (hfind : b.workflow.sessions.find? x = some rsession) (hs : s = rsession.session.pushRequest request)
      (hstep : (Workflow.system ω).accept b (.perform request flag) = some c)

/-- The workflow in `c` takes the message `p` for the action `a` of the session `x`, and comes to `c'`:
until its call of `perform` has returned, whatever comes in between, the actions of the session are given
this answer and no other, and no session is changed but by what arrives for it. -/
structure TakesAnswer {ω : Type} (c : Working ω) (x : UUID) (a : ℤ) (p : Request) (c' : Working ω) : Prop where
  accepted : c.workflow.canExecuteRequest p = true ∧
    ∃ events : List Event, c'.history = c.history ++ [.accepted p, .handed p] ++ events.map (.session x)
  once : ∀ d, (Workflow.system ω).Run (fun b _ => c.calls.length < b.calls.length) c' d →
    d.answers x = c.answers x ++ [(a, p)]
  others : ∀ y ≠ x, ∀ d, (Workflow.system ω).Run (fun b label => c.calls.length < b.calls.length ∧
      ∀ arrival, label = some arrival → arrival.id ≠ y) c' d →
    d.workflow.sessions.find? y = c.workflow.sessions.find? y

/-! ### What the session keeps until the answer -/

namespace Prepares

variable {ω : Type} {m : StateMachine ω} {hm : m.Initialised} {env : ω} {start c : Working ω} {x : UUID}
  {s : Session}

theorem reachable (h : Prepares start x s c) : (Workflow.system ω).Reachable start c := by
  cases h with
  | between hrun => exact hrun
  | performing hrun _ _ _ _ hstep => exact hrun.internal trivial hstep
  | answering hrun _ _ _ hstep => exact hrun.input trivial hstep

theorem exists_entry (h : Prepares (Workflow.opened m hm env) x s c) :
    ∃ rsession, c.workflow.sessions.find? x = some rsession ∧ rsession.session.request = s.request ∧
      rsession.session.currentExecutionLevel = s.currentExecutionLevel := by
  cases h with
  | between _ hfind hs =>
    rw [hs]
    exact ⟨_, hfind, rfl, rfl⟩
  | @performing b performing rest id ptr rsession hrun hcalls hfind hptr hs hstep =>
    simp only [Workflow.system] at hstep
    split at hstep
    swap
    · cases hstep
    rename_i execution rest' _ hcalls'
    cases hcalls.symm.trans hcalls'
    obtain ⟨rsession', hfind', rfl⟩ := Option.map_eq_some_iff.mp hstep
    cases hfind.symm.trans hfind'
    obtain ⟨hdie, hneg⟩ := b.workflow.initialised.laid.not_special ⟨ptr, hptr⟩
    obtain ⟨w', result, hexec, hperform⟩ := StateMachine.executeAction_of_find? hdie hneg hptr
      ⟨rsession.session, b.env, []⟩
    have hheader := ptr.sameHeader_of_perform hperform
    have hcall : b.workflow.stateMachine.makeCall ⟨rsession.session, b.env, []⟩ (.executeAction id) =
        .ok (w', some (.actionExecuted result)) := hexec
    refine ⟨{ rsession with session := w'.session }, ?_, ?_, ?_⟩
    · unfold Working.proceed Working.engage
      simp only [hcall]
      exact (Workflow.find?_store ..).trans (if_pos rfl)
    · rw [hs]
      exact hheader.request
    · rw [hs]
      exact hheader.currentExecutionLevel
  | @answering b request flag rsession hrun hid hfind hs hstep =>
    have hlive := (Workflow.reachable_retained hrun).live x rsession hfind
    obtain ⟨rsession', _, hfind', -, hworks⟩ := Workflow.exists_works (.input hstep) hfind hlive
    have hheader := hworks.sameHeader b.workflow.initialised.laid
    rw [hs]
    exact ⟨rsession', hfind', hheader.request, hheader.currentExecutionLevel⟩

end Prepares

/-! ### Handing over the answer -/

namespace StateMachine

variable {ω : Type} {m : StateMachine ω} {env : ω} {s s' : Session} {events : List Event}

/-- Only a request of the session brings its actions an answer. -/
theorem Works.answers {received : Option Message} (h : m.Works env s received s' events)
    (hreceived : ∀ request, received ≠ some (.request request)) : events.filterMap Event.answer? = [] := by
  have hconsumed : ∀ {w : World ω} {result out}, m.actionExecuted w result = .ok out → out.1.trace = w.trace := by
    intro w result out h
    obtain ⟨ptr, -, hconsumed⟩ := actionExecuted_cases h
    cases hconsumed <;> rfl
  cases h with
  | nothing => rfl
  | @call call out h =>
    cases call with
    | actionExecuted result => rw [hconsumed h]; rfl
    | executeAction id =>
      cases executeAction_cases h with
      | die => rfl
      | nothing h => rw [executeNone_trace h]; rfl
      | @action _ ptr _ _ _ _ _ hperform =>
        obtain ⟨sent, htrace⟩ := ptr.trace_of_perform hperform
        rw [htrace]
        refine List.filterMap_eq_nil_iff.mpr fun event hmem => ?_
        rcases List.mem_cons.mp hmem with rfl | hmem
        · rfl
        rcases List.mem_append.mp hmem with hmem | hmem
        · have hreply := isReply_of_mem_wrapReplies hmem
          cases event <;> first | rfl | cases hreply
        · obtain ⟨request, -, rfl⟩ := List.mem_map.mp hmem
          rfl
      | absent => rfl
  | @message message out h =>
    cases message with
    | request request => exact absurd rfl (hreceived request)
    | asyncFinished result => rw [hconsumed h]; rfl

theorem execute_reply {w : World ω} {p : Request} {ptr : ActionPtr ω} (hkind : p.target.target = .reply)
    (hptr : m.actions.find? p.target.action = some ptr)
    (hwait : w.session.status.find? p.target.action = some .waiting)
    (hlevel : p.target.executionLevel = w.session.currentExecutionLevel) :
    ∃ w' result, m.execute w p = .ok (w', some (.actionExecuted result)) ∧
      ptr.replyReceived { w with session := w.session.pushRequest p } p = (w', result) := by
  obtain ⟨⟨w', result⟩, hreply⟩ : ∃ out,
      ptr.replyReceived { w with session := w.session.pushRequest p } p = out := ⟨_, rfl⟩
  refine ⟨w', result, ?_, hreply⟩
  have hstarted : ¬(w.session.pushRequest p).status.isEmpty = true := by
    rw [Bool.not_eq_true]
    exact started_iff.mpr ⟨_, _, hwait⟩
  have hfresh : ¬(p.target.executionLevel ≠ 0 ∧
      p.target.executionLevel ≠ (w.session.pushRequest p).currentExecutionLevel) := fun h => h.2 hlevel
  have hstatus : (w.session.pushRequest p).getStatus p.target.action = .ok .waiting :=
    Session.getStatus_eq_ok.mpr hwait
  unfold execute
  dsimp only
  rw [if_neg hstarted, if_neg hfresh, hkind]
  simp only [reduceCtorEq, if_false, if_true]
  unfold replyReceived
  simp only [hptr]
  rw [hstatus, hreply]
  rfl

end StateMachine

/-! ### While the answer is performed -/

/-- The call an arrival begins. -/
inductive Begins {ω : Type} (c : Working ω) : Option Arrival → Execution → Prop
  | perform {request : Request} {flag : Bool} {next : Option Call}
      (hactive : (c.workflow.rsession request flag).active = false) :
      Begins c (some (.perform request flag)) ⟨request.getId, true, next⟩
  | asyncFinished {id : UUID} {result : Result} {next : Option Call} :
      Begins c (some (.asyncFinished id result)) ⟨id, false, next⟩

/-- A call of `perform` for `x` made on top of the calls `base` has returned, or it is in progress with
calls above it that `Q` allows. -/
def Working.InProgress {ω : Type} (c : Working ω) (x : UUID) (base : List Execution)
    (Q : UUID → Bool → Prop) : Prop :=
  base.length < c.calls.length →
    ∃ above next, c.calls = above ++ ⟨x, true, next⟩ :: base ∧ ∀ e ∈ above, Q e.id e.performing

namespace Working.InProgress

variable {ω : Type} {c c' : Working ω} {label : Option Arrival} {x : UUID} {base : List Execution}
  {Q : UUID → Bool → Prop}

theorem moved (hc : c.InProgress x base Q) (hlen : base.length < c.calls.length) (h : Moved c label c')
    (hbegins : ∀ e, Begins c label e → Q e.id e.performing) : c'.InProgress x base Q := by
  obtain ⟨above, next, hcalls, habove⟩ := hc hlen
  intro hlen'
  have hpushed : ∀ e, c'.calls = e :: c.calls → Q e.id e.performing →
      ∃ above next, c'.calls = above ++ ⟨x, true, next⟩ :: base ∧ ∀ e ∈ above, Q e.id e.performing := by
    intro e hpush he
    refine ⟨e :: above, next, by rw [hpush, hcalls]; rfl, fun e' hmem => ?_⟩
    rcases List.mem_cons.mp hmem with rfl | hmem
    · exact he
    · exact habove e' hmem
  cases h with
  | @called execution _ rest _ hexecution _ _ h =>
    obtain ⟨next', hnext'⟩ := h.calls
    rw [hcalls] at hexecution
    -- the call for `x` goes on itself, or one above it does
    cases above with
    | nil =>
      cases hexecution
      exact ⟨[], next', hnext', fun _ h => nomatch h⟩
    | cons e above =>
      cases hexecution
      refine ⟨⟨execution.id, execution.performing, next'⟩ :: above, next, hnext', fun e' hmem => ?_⟩
      rcases List.mem_cons.mp hmem with rfl | hmem
      · exact habove execution (.head _)
      · exact habove e' (.tail _ hmem)
  | @returned execution rsession rest hexecution =>
    have hleft : (c.leave execution rsession rest).calls = rest := by
      unfold Working.leave
      split_ifs <;> rfl
    rw [hleft] at hlen' ⊢
    rw [hcalls] at hexecution
    cases above with
    | nil =>
      cases hexecution
      exact absurd hlen' (lt_irrefl _)
    | cons e above =>
      cases hexecution
      exact ⟨above, next, rfl, fun e' hmem => habove e' (.tail _ hmem)⟩
  | refused | parked => exact ⟨above, next, hcalls, habove⟩
  | handed _ hactive h =>
    obtain ⟨next', hnext'⟩ := h.calls
    exact hpushed _ hnext' (hbegins _ (.perform hactive))
  | finishing _ h =>
    obtain ⟨next', hnext'⟩ := h.calls
    exact hpushed _ hnext' (hbegins _ .asyncFinished)

end Working.InProgress

namespace Workflow

variable {ω : Type} {c c' d : Working ω} {label : Option Arrival} {x y : UUID} {base : List Execution}

/-- While the call for `x` is in progress the entry reads active, so no other request of the session is
handed to the state machine, and its actions are given no answer. -/
theorem answers_of_moved (htrans : (system ω).Trans c label c') (hlive : Retained c)
    (hactive : c.workflow.ReadsActive x) : c'.answers x = c.answers x := by
  obtain ⟨rsession, hfind, hreads⟩ := hactive
  have hsame : c'.events x = c.events x → c'.answers x = c.answers x := congrArg (List.filterMap Event.answer?)
  by_cases hrequest : ∃ request, label.map Arrival.message = some (.request request)
  · have hmoved := moved_of_trans htrans
    obtain ⟨request, hrequest⟩ := hrequest
    cases hmoved with
    | called | returned | finishing => cases hrequest
    | refused => exact hsame ((Working.events_append (l := [.refused _]) rfl x).trans (List.append_nil _))
    | @parked request' =>
      exact hsame ((Working.events_append (l := [.accepted request']) rfl x).trans (List.append_nil _))
    | @handed request' flag _ hcan hidle h =>
      by_cases hid : request'.getId = x
      · cases hid
        rw [rsession_of_find? hfind, hreads] at hidle
        cases hidle
      · exact hsame (find?_of_moved (moved_of_trans htrans) (fun _ _ h => nomatch h)
          fun _ h => by cases h; exact hid).2
  · obtain ⟨rsession', events, -, hevents, hworks⟩ := exists_works htrans hfind (hlive.live x rsession hfind)
    unfold Working.answers
    rw [hevents, List.filterMap_append, hworks.answers fun request h => hrequest ⟨request, h⟩, List.append_nil]

/-- No call of `perform` for the session `x` is made above the one in progress. -/
abbrev Alone (x : UUID) (id : UUID) (performing : Bool) : Prop := id = x → performing = false

/-- The entry reads active until the call for `x` returns. -/
theorem readsActive_of_moved (h : Moved c label c') (hlive : Retained c)
    (hprogress : c.InProgress x base (Alone x)) (hlen : base.length < c.calls.length)
    (hlen' : base.length < c'.calls.length) (hactive : c.workflow.ReadsActive x) : c'.workflow.ReadsActive x := by
  obtain ⟨rsession, hfind, hreads⟩ := hactive
  have hfound : ∀ {y rs}, c.workflow.sessions.find? y = some rs → x = y → rs.active = true := by
    rintro y rs hy rfl
    cases hfind.symm.trans hy
    exact hreads
  have hkept : ∀ {b : Working ω} {id performing rest} {rs : RunningSession},
      Engages b id performing rs rest c' → b.workflow = c.workflow → (x = id → rs.active = true) →
      c'.workflow.ReadsActive x := by
    intro b id performing rest rs h hb hrs
    rw [h.reads x, hb]
    split_ifs with hid
    · exact hrs hid
    · exact ⟨rsession, hfind, hreads⟩
  cases h with
  | called _ hfind' _ h => exact hkept h rfl (hfound hfind')
  | @returned execution rs rest hcalls hfind' hnext =>
    obtain ⟨above, next, hstack, habove⟩ := hprogress hlen
    rw [leave_eq (hlive.live _ _ hfind')] at hlen' ⊢
    split_ifs at hlen' ⊢ with hperforming
    -- what returns is above the call for `x`, and such a call for the same id is a completion
    · have hne : x ≠ execution.id := by
        intro hid
        rw [hcalls] at hstack
        cases above with
        | nil =>
          cases hstack
          exact absurd hlen' (lt_irrefl _)
        | cons e above =>
          cases hstack
          rw [habove execution (.head _) hid.symm] at hperforming
          cases hperforming
      rw [readsActive_store, if_neg hne]
      exact ⟨rsession, hfind, hreads⟩
    · exact ⟨rsession, hfind, hreads⟩
  | refused => exact ⟨rsession, hfind, hreads⟩
  | @parked request flag _ _ hreads' hworkflow =>
    dsimp only [Working.record]
    rw [hworkflow, readsActive_store]
    split_ifs
    · exact hreads'
    · exact ⟨rsession, hfind, hreads⟩
  | handed _ _ h => exact hkept h rfl fun _ => rfl
  | finishing hfind' h => exact hkept h rfl (hfound hfind')

/-- The actions of the session are given no further answer until the call returns. -/
theorem run_answers (hlive : Retained c) (hprogress : c.InProgress x base (Alone x))
    (hactive : c.workflow.ReadsActive x)
    (hrun : (system ω).Run (fun b _ => base.length < b.calls.length) c d) : d.answers x = c.answers x := by
  have hinv : Retained d ∧ d.answers x = c.answers x ∧ d.InProgress x base (Alone x) ∧
      (base.length < d.calls.length → d.workflow.ReadsActive x) := by
    refine hrun.invariant (I := fun b => Retained b ∧ b.answers x = c.answers x ∧
      b.InProgress x base (Alone x) ∧ (base.length < b.calls.length → b.workflow.ReadsActive x)) ?_ ?_
    · exact ⟨hlive, rfl, hprogress, fun _ => hactive⟩
    · rintro b label b' ⟨hb, hanswers, hinprogress, hreads⟩ hlen htrans
      have hmoved := moved_of_trans htrans
      refine ⟨retained_of_moved hb hmoved, (answers_of_moved htrans hb (hreads hlen)).trans hanswers, ?_, ?_⟩
      · refine hinprogress.moved hlen hmoved fun e hbegins => ?_
        cases hbegins with
        | @perform request flag _ hidle =>
          rintro rfl
          obtain ⟨rsession, hfind, hactive'⟩ := hreads hlen
          rw [rsession_of_find? hfind, hactive'] at hidle
          cases hidle
        | asyncFinished => exact fun _ => rfl
      · exact fun hlen' => readsActive_of_moved hmoved hb hinprogress hlen hlen' (hreads hlen)
  exact hinv.2.1

theorem run_others (hne : y ≠ x) (hprogress : c.InProgress x base fun id _ => id ≠ y)
    (hrun : (system ω).Run (fun b label => base.length < b.calls.length ∧
      ∀ arrival, label = some arrival → arrival.id ≠ y) c d) :
    d.workflow.sessions.find? y = c.workflow.sessions.find? y := by
  have hinv : d.workflow.sessions.find? y = c.workflow.sessions.find? y ∧
      d.InProgress x base fun id _ => id ≠ y := by
    refine hrun.invariant (I := fun b => b.workflow.sessions.find? y = c.workflow.sessions.find? y ∧
      b.InProgress x base fun id _ => id ≠ y) ⟨rfl, hprogress⟩ ?_
    rintro b label b' ⟨hsame, hinprogress⟩ ⟨hlen, harrival⟩ htrans
    have hmoved := moved_of_trans htrans
    refine ⟨(find?_of_moved hmoved (fun execution rest _ hcalls => ?_) harrival).1.trans hsame, ?_⟩
    · obtain ⟨above, next, hstack, habove⟩ := hinprogress hlen
      rw [hcalls] at hstack
      cases above with
      | nil =>
        cases hstack
        exact hne.symm
      | cons e above =>
        cases hstack
        exact habove execution (.head _)
    · refine hinprogress.moved hlen hmoved fun e hbegins => ?_
      cases hbegins with
      | perform => exact harrival _ rfl
      | asyncFinished => exact harrival _ rfl
  exact hinv.1

/-! ### The answer of a sub-request -/

theorem perform_of_execute {request : Request} {rsession : RunningSession} {w' : World ω} {next : Option Call}
    (hcan : c.workflow.canExecuteRequest request = true)
    (hfind : c.workflow.sessions.find? request.getId = some rsession) (hidle : rsession.active = false)
    (hexecute : c.workflow.stateMachine.execute ⟨rsession.session, c.env, []⟩ request = .ok (w', next))
    (flag : Bool) : c.perform request flag = { c.record [.accepted request, .handed request] with
      workflow := c.workflow.store request.getId { rsession with session := w'.session, active := true }
      env := w'.env
      calls := ⟨request.getId, true, next⟩ :: c.calls
      history := c.history ++ [.accepted request, .handed request] ++ w'.trace.map (.session request.getId) } := by
  unfold Working.perform
  rw [if_pos hcan]
  dsimp only
  rw [rsession_of_find? hfind, RunningSession.shouldMakePending, if_neg (by simp [hidle])]
  unfold Working.engage
  simp only [Working.record, hexecute]

/-- A reply for which the engine calls `replyReceived` of an action is the answer to that action. -/
theorem takesAnswer_of_execute {p : Request} {rsession : RunningSession} {w' : World ω} {result : Result} {a : ℤ}
    {sent : List Request} (hid : p.getId = x) (hkind : p.target.target = .reply)
    (hfind : c.workflow.sessions.find? x = some rsession) (hidle : rsession.active = false)
    (hexecute : c.workflow.stateMachine.execute ⟨rsession.session, c.env, []⟩ p =
      .ok (w', some (.actionExecuted result)))
    (htrace : w'.trace = .replyReceived a p :: sent.map Event.sent) {flag : Bool}
    (haccept : (system ω).accept c (.perform p flag) = some c') (hlive : Retained c') : TakesAnswer c x a p c' := by
  subst hid
  have hcan : c.workflow.canExecuteRequest p = true := by
    unfold canExecuteRequest
    rw [contains_of_find? hfind, hkind]
    rfl
  have hperform := (eq_perform_of_accept haccept).trans (perform_of_execute hcan hfind hidle hexecute flag)
  have hprogress : ∀ Q, c'.InProgress p.getId c.calls Q := fun Q _ =>
    ⟨[], some (.actionExecuted result), by rw [hperform]; rfl, fun e h => absurd h List.not_mem_nil⟩
  have hevents : c'.events p.getId = c.events p.getId ++ w'.trace := by
    rw [Working.events_append (c := c.record [.accepted p, .handed p]) (by rw [hperform]; rfl),
      Working.filterMap_event?_self]
    exact congrArg (· ++ w'.trace) ((Working.events_append (c := c) rfl p.getId).trans (List.append_nil _))
  have hsent : (sent.map Event.sent).filterMap Event.answer? = [] := by
    rw [List.filterMap_map]
    exact List.filterMap_eq_nil_iff.mpr fun _ _ => rfl
  refine ⟨⟨hcan, w'.trace, by rw [hperform]⟩, fun d hd => ?_, fun y hne d hd => ?_⟩
  · rw [run_answers hlive (hprogress _) ?_ hd]
    · unfold Working.answers
      rw [hevents, htrace, List.filterMap_append, List.filterMap_cons, hsent]
      rfl
    · rw [hperform]
      exact ⟨_, (find?_store ..).trans (if_pos rfl), rfl⟩
  · rw [run_others hne (hprogress _) hd, hperform]
    exact (find?_store ..).trans (if_neg hne)

end Workflow

namespace Sample

open Workflow

def suspended : Working Unit := working inquiry inquiry_initialised [.perform (request .defaultAction 0 0) false]

def asker : RunningSession := suspended.workflow.rsession (request .defaultAction 0 0) false

def answer : Request := (Action.prepareSyncRequest 0 asker.session (some query) query).createReply

end Sample

end LibWorkflow
