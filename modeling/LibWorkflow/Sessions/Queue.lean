import LibWorkflow.Sessions.Lifecycle

/-!
# The queue of a session

A request that finds its session active is queued in `pendingRequests`, and nothing takes it out again;
whether it finds the session active is read from a flag that a new entry leaves uninitialised. So every
accepted request reaches the state machine as long as no session is disturbed while it is executed and
the flag of new entries reads false, and no longer (`no_request_lost`).
-/

namespace LibWorkflow

open Ordered

namespace Working

variable {ω : Type} (c : Working ω)

/-- The accepted requests of the session `x` were handed to the state machine, once and in order; the
last of them may be queued while the session is executed, or lost with a session that has executed
Die. -/
def Delivered (x : UUID) : Prop :=
  (c.handed x).Sublist (c.accepted x) ∧
    (¬c.Died x → c.handed x ++ c.pending x = c.accepted x ∧ (x ∉ c.executing → c.pending x = []))

variable {c} {c' : Working ω}

theorem Delivered.congr {x : UUID} (h : c.Delivered x) (hhanded : c'.handed x = c.handed x)
    (haccepted : c'.accepted x = c.accepted x) (hpending : c'.pending x = c.pending x)
    (hdied : c.Died x → c'.Died x) (hexecuting : x ∈ c.executing → x ∈ c'.executing) :
    c'.Delivered x := by
  unfold Delivered
  rw [hhanded, haccepted, hpending]
  refine ⟨h.1, fun hlives => ?_⟩
  obtain ⟨hall, hidle⟩ := h.2 fun hd => hlives (hdied hd)
  exact ⟨hall, fun hnot => hidle fun hmem => hnot (hexecuting hmem)⟩

end Working

/-- The entry of the session `x` reads active. -/
def Workflow.ReadsActive {ω : Type} (w : Workflow ω) (x : UUID) : Prop :=
  ∃ rsession, w.sessions.find? x = some rsession ∧ rsession.active = true

theorem Workflow.readsActive_store {ω : Type} (w : Workflow ω) (id x : UUID) (rsession : RunningSession) :
    (w.store id rsession).ReadsActive x ↔
      if x = id then rsession.active = true else w.ReadsActive x := by
  unfold ReadsActive
  rw [find?_store]
  split_ifs
  · simp
  · rfl

/-! ### What transitions do to the observations -/

namespace Working

variable {ω : Type} {c c' : Working ω}

theorem requests_append {l : List Occurrence} (h : c'.history = c.history ++ l)
    (f : Occurrence → Option Request) (x : UUID) :
    c'.requests f x = c.requests f x ++ (l.filterMap f).filter (·.getId = x) := by
  unfold requests
  rw [h, List.filterMap_append, List.filter_append]

theorem pending_store {id : UUID} {rsession : RunningSession}
    (h : c'.workflow = c.workflow.store id rsession) (x : UUID) :
    c'.pending x = if x = id then rsession.pendingRequests else c.pending x := by
  unfold pending
  rw [h, Workflow.find?_store]
  split_ifs <;> rfl

theorem pending_of_find? {x : UUID} {rsession : RunningSession}
    (h : c.workflow.sessions.find? x = some rsession) : c.pending x = rsession.pendingRequests := by
  unfold pending
  rw [h]
  rfl

theorem pending_rsession (request : Request) (flag : Bool) :
    (c.workflow.rsession request flag).pendingRequests = c.pending request.getId := by
  cases hfind : c.workflow.sessions.find? request.getId with
  | some rsession => rw [Workflow.rsession_of_find? hfind, pending_of_find? hfind]
  | none =>
    rw [Workflow.rsession_of_absent hfind, pending, hfind]
    rfl

theorem executing_cons {execution : Execution} {rest : List Execution}
    (h : c.calls = execution :: rest) :
    c.executing = if execution.performing then
      execution.id :: (rest.filter Execution.performing).map Execution.id
      else (rest.filter Execution.performing).map Execution.id := by
  unfold executing
  rw [h, List.filter_cons]
  split_ifs <;> rfl

end Working

namespace Engages

variable {ω : Type} {c c' : Working ω} {id : UUID} {performing : Bool} {rsession : RunningSession}
  {rest : List Execution}

theorem requests (h : Engages c id performing rsession rest c') {f : Occurrence → Option Request}
    (hf : ∀ event, f (.session id event) = none) (x : UUID) : c'.requests f x = c.requests f x := by
  obtain ⟨events, hhistory⟩ := h.history
  have hnone : (events.map (Occurrence.session id)).filterMap f = [] := by
    rw [List.filterMap_map]
    exact List.filterMap_eq_nil_iff.mpr fun event _ => hf event
  rw [Working.requests_append hhistory, hnone, List.filter_nil, List.append_nil]

theorem accepted (h : Engages c id performing rsession rest c') (x : UUID) :
    c'.accepted x = c.accepted x := h.requests (fun _ => rfl) x

theorem handed (h : Engages c id performing rsession rest c') (x : UUID) : c'.handed x = c.handed x :=
  h.requests (fun _ => rfl) x

theorem pending (h : Engages c id performing rsession rest c') (x : UUID) :
    c'.pending x = if x = id then rsession.pendingRequests else c.pending x := by
  obtain ⟨s, -, hworkflow⟩ := h.workflow
  rw [Working.pending_store hworkflow]

theorem died (h : Engages c id performing rsession rest c') {x : UUID} (hdied : c.Died x) : c'.Died x := by
  obtain ⟨events, hhistory⟩ := h.history
  exact hdied.append hhistory

theorem executing (h : Engages c id performing rsession rest c') :
    c'.executing = if performing then id :: (rest.filter Execution.performing).map Execution.id
      else (rest.filter Execution.performing).map Execution.id := by
  obtain ⟨next, hcalls⟩ := h.calls
  rw [Working.executing_cons hcalls]

theorem reads (h : Engages c id performing rsession rest c') (x : UUID) :
    c'.workflow.ReadsActive x ↔ if x = id then rsession.active = true else c.workflow.ReadsActive x := by
  obtain ⟨s, -, hworkflow⟩ := h.workflow
  rw [hworkflow, Workflow.readsActive_store]

end Engages

/-! ### The condition and the invariant -/

/-- The condition on a transition: an entry made for a request reads inactive, and when a call of
`perform` comes to its end, no request is queued for its session, or the session has executed Die. -/
structure Drained {ω : Type} (c : Working ω) (label : Option Arrival) : Prop where
  fresh : ∀ request flag, label = some (.perform request flag) →
    c.workflow.canExecuteRequest request = true → c.workflow.sessions.contains request.getId = false →
    flag = false
  quiet : ∀ execution rest, label = none → c.calls = execution :: rest → execution.performing = true →
    execution.next = none → c.pending execution.id = [] ∨ c.Died execution.id

/-- The flags tell which sessions are executed, each by one call, and what was accepted is delivered. -/
structure Served {ω : Type} (c : Working ω) : Prop where
  retained : Retained c
  nodup : c.executing.Nodup
  reads : ∀ x, c.workflow.ReadsActive x ↔ x ∈ c.executing
  delivered : ∀ x, c.Delivered x

namespace Served

variable {ω : Type} {c c' : Working ω}

theorem rsession_active (hc : Served c) {request : Request} {flag : Bool}
    (hfresh : c.workflow.sessions.contains request.getId = false → flag = false) :
    (c.workflow.rsession request flag).active = true ↔ request.getId ∈ c.executing := by
  rw [← hc.reads]
  unfold Workflow.ReadsActive
  cases hfind : c.workflow.sessions.find? request.getId with
  | some rsession =>
    rw [Workflow.rsession_of_find? hfind]
    simp
  | none =>
    rw [Workflow.rsession_of_absent hfind, hfresh (OrdMap.contains_eq_false_iff.mpr hfind)]
    simp [RunningSession.ofRequest]

theorem engages (hc : Served c) (hretained : Retained c') {id : UUID} {performing : Bool} {rsession : RunningSession}
    {rest : List Execution} (hfind : c.workflow.sessions.find? id = some rsession)
    (hexecuting : c'.executing = c.executing) (h : Engages c id performing rsession rest c') :
    Served c' := by
  have hpending : ∀ x, c'.pending x = c.pending x := by
    intro x
    rw [h.pending]
    split_ifs with hx
    · rw [hx, Working.pending_of_find? hfind]
    · rfl
  refine ⟨hretained, hexecuting ▸ hc.nodup, ?_, ?_⟩
  · intro x
    rw [hexecuting, ← hc.reads x, h.reads]
    split_ifs with hx
    · subst hx
      unfold Workflow.ReadsActive
      simp [hfind]
    · rfl
  · intro x
    exact (hc.delivered x).congr (h.handed x) (h.accepted x) (hpending x) h.died fun hmem =>
      hexecuting ▸ hmem

theorem unchanged (hc : Served c) (hretained : Retained c') (hworkflow : c'.workflow = c.workflow)
    (hexecuting : c'.executing = c.executing) {l : List Occurrence} (hhistory : c'.history = c.history ++ l)
    (haccepted : l.filterMap Occurrence.accepted? = []) (hhanded : l.filterMap Occurrence.handed? = []) :
    Served c' where
  retained := hretained
  nodup := hexecuting ▸ hc.nodup
  reads x := by
    rw [hworkflow, hexecuting]
    exact hc.reads x
  delivered x := by
    have hseen : ∀ f, l.filterMap f = [] → c'.requests f x = c.requests f x := by
      intro f hf
      rw [Working.requests_append hhistory, hf, List.filter_nil, List.append_nil]
    have hpending : c'.pending x = c.pending x := by
      unfold Working.pending
      rw [hworkflow]
    exact (hc.delivered x).congr (hseen _ hhanded) (hseen _ haccepted) hpending
      (fun hdied => hdied.append hhistory) fun hmem => hexecuting ▸ hmem

theorem returned (hc : Served c) (hretained : Retained c') {id : UUID} {rsession : RunningSession}
    (hfind : c.workflow.sessions.find? id = some rsession)
    (hquiet : c.pending id = [] ∨ c.Died id)
    (hworkflow : c'.workflow = c.workflow.store id { rsession with active := false })
    (hexecuting : c.executing = id :: c'.executing) (hhistory : c'.history = c.history) : Served c' := by
  obtain ⟨hnotin, hnodup⟩ := List.nodup_cons.mp (hexecuting ▸ hc.nodup)
  have hseen : ∀ f x, c'.requests f x = c.requests f x := by
    intro f x
    unfold Working.requests
    rw [hhistory]
  have hdied : ∀ x, c.Died x → c'.Died x := fun x hdied =>
    hdied.append (hhistory.trans (List.append_nil _).symm)
  refine ⟨hretained, hnodup, ?_, ?_⟩
  · intro x
    rw [hworkflow, Workflow.readsActive_store, hc.reads x, hexecuting]
    split_ifs with hx
    · rw [hx]
      simpa using hnotin
    · rw [List.mem_cons, or_iff_right hx]
  · intro x
    have hpending : c'.pending x = c.pending x := by
      rw [Working.pending_store hworkflow]
      split_ifs with hx
      · rw [hx, Working.pending_of_find? hfind]
      · rfl
    by_cases hx : x = id
    · subst hx
      obtain ⟨hsublist, hall⟩ := hc.delivered x
      unfold Working.Delivered Working.handed Working.accepted
      rw [hseen, hseen, hpending]
      refine ⟨hsublist, fun hlives => ?_⟩
      have hlives' : ¬c.Died x := fun hd => hlives (hdied x hd)
      exact ⟨(hall hlives').1, fun _ => hquiet.resolve_right hlives'⟩
    · refine (hc.delivered x).congr (hseen _ x) (hseen _ x) hpending (hdied x) fun hmem => ?_
      rw [hexecuting, List.mem_cons, or_iff_right hx] at hmem
      exact hmem

theorem parked (hc : Served c) (hretained : Retained c') {request : Request} {flag : Bool}
    (hmem : request.getId ∈ c.executing) (hactive : (c.workflow.rsession request flag).active = true)
    (hworkflow : c'.workflow = c.workflow.store request.getId
      ((c.workflow.rsession request flag).addToPending request))
    (hexecuting : c'.executing = c.executing) (hhistory : c'.history = c.history ++ [.accepted request]) :
    Served c' where
  retained := hretained
  nodup := hexecuting ▸ hc.nodup
  reads x := by
    rw [hworkflow, Workflow.readsActive_store, hc.reads, hexecuting]
    split_ifs with hx
    · rw [hx]
      exact iff_of_true hactive hmem
    · rfl
  delivered x := by
    have hhanded : c'.handed x = c.handed x :=
      (Working.requests_append hhistory _ x).trans (List.append_nil _)
    have haccepted : c'.accepted x = c.accepted x ++ [request].filter (·.getId = x) :=
      Working.requests_append hhistory _ x
    have hpending := Working.pending_store hworkflow x
    by_cases hx : x = request.getId
    · subst hx
      obtain ⟨hsublist, hall⟩ := hc.delivered request.getId
      rw [List.filter_singleton, decide_eq_true rfl] at haccepted
      rw [if_pos rfl] at hpending
      unfold Working.Delivered
      rw [hhanded, haccepted, hpending]
      refine ⟨hsublist.trans (List.sublist_append_left _ _), fun hlives => ?_⟩
      have hlives' : ¬c.Died request.getId := fun hdied => hlives (hdied.append hhistory)
      refine ⟨?_, fun hnot => absurd (hexecuting ▸ hmem) hnot⟩
      rw [RunningSession.addToPending, Working.pending_rsession, ← List.append_assoc, (hall hlives').1]
      rfl
    · rw [if_neg hx] at hpending
      rw [List.filter_singleton, decide_eq_false (Ne.symm hx)] at haccepted
      exact (hc.delivered x).congr hhanded (haccepted.trans (List.append_nil _)) hpending
        (fun hdied => hdied.append hhistory) fun hmem => hexecuting ▸ hmem

theorem handed (hc : Served c) {request : Request} {flag : Bool}
    (hretained : Retained c') (hidle : request.getId ∉ c.executing)
    (h : Engages (c.record [.accepted request, .handed request]) request.getId true
      { c.workflow.rsession request flag with active := true } c.calls c') :
    Served c' := by
  have hexecuting : c'.executing = request.getId :: c.executing := h.executing
  refine ⟨hretained, ?_, ?_, ?_⟩
  · rw [hexecuting]
    exact List.nodup_cons.mpr ⟨hidle, hc.nodup⟩
  · intro x
    rw [h.reads, hexecuting, List.mem_cons]
    split_ifs with hx
    · exact iff_of_true rfl (.inl hx)
    · rw [or_iff_right hx]
      exact hc.reads x
  · intro x
    have hrecord : (c.record [.accepted request, .handed request]).history =
        c.history ++ [.accepted request, .handed request] := rfl
    have haccepted : c'.accepted x = c.accepted x ++ [request].filter (·.getId = x) :=
      (h.accepted x).trans (Working.requests_append hrecord _ x)
    have hhanded : c'.handed x = c.handed x ++ [request].filter (·.getId = x) :=
      (h.handed x).trans (Working.requests_append hrecord _ x)
    have hpending : c'.pending x = c.pending x := by
      rw [h.pending]
      split_ifs with hx
      · rw [hx]
        exact Working.pending_rsession request flag
      · rfl
    have hdied : c.Died x → c'.Died x := fun hdied => h.died (hdied.append hrecord)
    -- the queue of an id that is not executed is empty, so what is handed is the next accepted
    by_cases hx : x = request.getId
    · subst hx
      obtain ⟨hsublist, hall⟩ := hc.delivered request.getId
      unfold Working.Delivered
      rw [haccepted, hhanded, hpending]
      refine ⟨hsublist.append (List.Sublist.refl _), fun hlives => ?_⟩
      obtain ⟨hsame, hempty⟩ := hall fun hd => hlives (hdied hd)
      rw [hempty hidle, List.append_nil] at hsame ⊢
      exact ⟨by rw [hsame], fun _ => rfl⟩
    · rw [List.filter_singleton, decide_eq_false (Ne.symm hx)] at haccepted hhanded
      refine (hc.delivered x).congr (hhanded.trans (List.append_nil _))
        (haccepted.trans (List.append_nil _)) hpending hdied fun hmem => ?_
      rw [hexecuting]
      exact .tail _ hmem

/-- A transition that meets the condition. -/
theorem moved (hc : Served c) {label : Option Arrival} (hguard : Drained c label)
    (h : Moved c label c') : Served c' := by
  have hretained : Retained c' := Workflow.retained_of_moved hc.retained h
  cases h with
  | called hcalls hfind _ h =>
    exact hc.engages hretained hfind (h.executing.trans (Working.executing_cons hcalls).symm) h
  | @returned execution rsession rest hcalls hfind hnext =>
    have hlive : rsession.session.finished = false := hc.retained.live _ _ hfind
    have hleave : c.leave execution rsession rest = _ := Workflow.leave_eq hlive
    have hexecuting := Working.executing_cons hcalls
    cases hperforming : execution.performing with
    | false =>
      rw [hperforming, if_neg Bool.false_ne_true] at hleave hexecuting
      rw [hleave] at hretained ⊢
      exact hc.unchanged hretained rfl hexecuting.symm (List.append_nil _).symm rfl rfl
    | true =>
      rw [hperforming, if_pos rfl] at hleave hexecuting
      rw [hleave] at hretained ⊢
      exact hc.returned hretained hfind (hguard.quiet _ _ rfl hcalls hperforming hnext) rfl hexecuting rfl
  | refused => exact hc.unchanged hretained rfl rfl rfl rfl rfl
  | @parked request flag _ hcan hactive hworkflow =>
    have hmem := (hc.rsession_active (hguard.fresh request flag rfl hcan)).mp hactive
    exact hc.parked hretained hmem hactive hworkflow rfl rfl
  | @handed request flag _ hcan hactive h =>
    have hidle : request.getId ∉ c.executing := by
      rw [← hc.rsession_active (hguard.fresh request flag rfl hcan), hactive]
      exact Bool.false_ne_true
    exact hc.handed hretained hidle h
  | finishing hfind h => exact hc.engages hretained hfind h.executing h

end Served

namespace Workflow

variable {ω : Type} {m : StateMachine ω} {hm : m.Initialised} {env : ω} {c c' : Working ω}

theorem run_served (hrun : (system ω).Run Drained (opened m hm env) c) : Served c := by
  refine hrun.invariant ⟨reachable_retained .start, List.nodup_nil, ?_, ?_⟩ ?_
  · intro x
    constructor
    · rintro ⟨_, h, -⟩
      cases h
    · intro h
      cases h
  · intro x
    exact ⟨List.Sublist.refl _, fun _ => ⟨rfl, fun _ => rfl⟩⟩
  · intro c label c' hc hguard htrans
    exact hc.moved hguard (moved_of_trans htrans)

/-- An entry that reads active although it was just made keeps its request for itself. -/
theorem fresh_of_delivered (hc : Served c) {request : Request} {flag : Bool}
    (h : Moved c (some (.perform request flag)) c') (hcan : c.workflow.canExecuteRequest request = true)
    (habsent : c.workflow.sessions.contains request.getId = false)
    (hdelivered : c'.Delivered request.getId) : flag = false := by
  have hfind := OrdMap.contains_eq_false_iff.mp habsent
  have hmade : c.workflow.rsession request flag = .ofRequest request flag := rsession_of_absent hfind flag
  cases h with
  | refused hrefused => exact absurd (hrefused.symm.trans hcan) Bool.false_ne_true
  | handed _ hactive _ =>
    rw [hmade] at hactive
    exact hactive
  | @parked _ _ workflow _ _ hworkflow =>
    have hidle : request.getId ∉ c.executing := by
      rw [← hc.reads]
      rintro ⟨rsession, hsome, -⟩
      rw [hfind] at hsome
      cases hsome
    have hlives : ¬({ c with workflow := workflow }.record [.accepted request]).Died request.getId := by
      intro hdied
      have hdied' : c.Died request.getId := by
        have hnot : [Occurrence.accepted request].any (Occurrence.isDie request.getId) = false := rfl
        unfold Working.Died Working.record at hdied
        rwa [List.any_append, hnot, Bool.or_false] at hdied
      obtain ⟨event, hevent⟩ := Working.exists_of_died hdied'
      exact absurd (habsent.symm.trans (hc.retained.witnessed _ _ hevent)) Bool.false_ne_true
    have hempty := (hdelivered.2 hlives).2 hidle
    rw [Working.pending_store (c := c) hworkflow, if_pos rfl, hmade] at hempty
    cases hempty

theorem quiet_of_delivered (hc : Served c) (h : Moved c none c') {execution : Execution}
    {rest : List Execution} (hcalls : c.calls = execution :: rest) (hperforming : execution.performing = true)
    (hnext : execution.next = none) (hdelivered : c'.Delivered execution.id) :
    c.pending execution.id = [] ∨ c.Died execution.id := by
  cases h with
  | called hcalls' _ hsome _ =>
    cases hcalls.symm.trans hcalls'
    exact absurd hnext hsome
  | @returned _ rsession _ hcalls' hfind _ =>
    cases hcalls.symm.trans hcalls'
    rw [leave_eq (hc.retained.live _ _ hfind), if_pos hperforming] at hdelivered
    have hexecuting := Working.executing_cons hcalls
    rw [if_pos hperforming] at hexecuting
    have hidle := (List.nodup_cons.mp (hexecuting ▸ hc.nodup)).1
    refine or_iff_not_imp_right.mpr fun hlives => ?_
    have hempty := (hdelivered.2 hlives).2 hidle
    rw [Working.pending_store (c := c) rfl, if_pos rfl] at hempty
    rw [Working.pending_of_find? hfind]
    exact hempty

/-- **No request is lost, as long as the queues are not used.** In a run whose transitions all meet the
condition what was accepted is delivered, in every state; and a further transition keeps that so if and
only if it meets the condition. -/
theorem no_request_lost (hrun : (system ω).Run Drained (opened m hm env) c) :
    (∀ x, c.Delivered x) ∧
      ∀ label c', (system ω).Trans c label c' → (Drained c label ↔ ∀ x, c'.Delivered x) := by
  have hc : Served c := run_served hrun
  refine ⟨hc.delivered, fun label c' htrans => ?_⟩
  have hmoved : Moved c label c' := moved_of_trans htrans
  constructor
  · intro hguard
    exact (hc.moved hguard hmoved).delivered
  · intro hdelivered
    constructor
    · rintro request flag rfl hcan habsent
      exact fresh_of_delivered hc hmoved hcan habsent (hdelivered _)
    · rintro execution rest rfl hcalls hperforming hnext
      exact quiet_of_delivered hc hmoved hcalls hperforming hnext (hdelivered _)

end Workflow

namespace Sample

open Workflow

/-- A workflow whose action waits, in the first call of `perform`. -/
def begun : Working Unit :=
  (opened (single .wait) (single_initialised .wait) ()).perform (request .defaultAction 0 0) false

theorem begun_accepted : (system Unit).accept (opened (single .wait) (single_initialised .wait) ())
    (.perform (request .defaultAction 0 0) false) = some begun := rfl

theorem drained_of_queues {c : Working Unit}
    (h : (c.calls.all fun execution => (c.pending execution.id).isEmpty) = true) : Drained c none where
  fresh _ _ heq := nomatch heq
  quiet execution rest _ hcalls _ _ := by
    rw [hcalls, List.all_cons, Bool.and_eq_true] at h
    exact .inl (List.isEmpty_iff.mp h.1)

theorem begun_drained :
    (system Unit).Run Drained (opened (single .wait) (single_initialised .wait) ())
      ((system Unit).advance 5 begun) := by
  have hfirst : (system Unit).Run Drained (opened (single .wait) (single_initialised .wait) ()) begun := by
    refine Reactive.System.Run.start.input ⟨?_, ?_⟩ begun_accepted
    · rintro _ _ heq - -
      cases heq
      rfl
    · rintro _ _ heq
      cases heq
  refine hfirst.advance_of fun k hk => drained_of_queues ?_
  have hqueues : ∀ k < 5, (((system Unit).advance k begun).calls.all fun execution =>
    (((system Unit).advance k begun).pending execution.id).isEmpty) = true := by decide
  exact hqueues k hk

/-- The first request of a session has been delivered when its call has returned. -/
theorem begun_delivered : ((system Unit).advance 5 begun).calls.length = 0 ∧
    ((system Unit).advance 5 begun).Delivered 1 :=
  ⟨by decide, (no_request_lost begun_drained).1 1⟩

/-- An Interrupt comes from within the action of the session. -/
def disturbed : Working Unit :=
  (system Unit).play 30 [.perform (request .interrupt 0 0) false] begun

/-- The first request of a session finds its new entry reading active. -/
def misread : Working Unit :=
  working (single .wait) (single_initialised .wait) [.perform (request .defaultAction 0 0) true]

theorem disturbed_reachable :
    (system Unit).Reachable (opened (single .wait) (single_initialised .wait) ()) disturbed :=
  .play (fun _ => trivial) (fun _ _ _ => trivial) (Reactive.System.Run.start.input trivial begun_accepted)

/-- Every call has returned and the session has not executed Die, but an accepted request is still in the
queue: an Interrupt that came during the call, or the very first request. -/
theorem requests_lost :
    ((system Unit).Reachable (opened (single .wait) (single_initialised .wait) ()) disturbed ∧
      disturbed.calls.length = 0 ∧ ¬disturbed.Died 1 ∧ ¬disturbed.Delivered 1) ∧
    ((system Unit).Reachable (opened (single .wait) (single_initialised .wait) ()) misread ∧
      misread.calls.length = 0 ∧ ¬misread.Died 1 ∧ ¬misread.Delivered 1) := by
  have hqueued : ∀ {c : Working Unit}, ¬c.Died 1 → 1 ∉ c.executing → (c.pending 1).length = 1 →
      ¬c.Delivered 1 := by
    intro c hlives hidle hlength hdelivered
    rw [(hdelivered.2 hlives).2 hidle] at hlength
    cases hlength
  exact ⟨⟨disturbed_reachable, by decide, by decide, hqueued (by decide) (by decide) (by decide)⟩,
    ⟨working_reachable .., by decide, by decide, hqueued (by decide) (by decide) (by decide)⟩⟩

end Sample

end LibWorkflow
