import LibWorkflow.Sessions.Entries
import LibWorkflow.Engine.Samples

/-!
# The life of a session

A workflow is to erase a session when it is finished, and `perform` does ask `StateMachine::finished`
for that; but the Die step, which declares the end of the session, does not call `Session::setFinished`,
and nothing else does. So a session stays in the map once it was opened (`lifecycle_iff`), and takes
requests after its end.
-/

namespace LibWorkflow

open Ordered

/-- The entry of the session `x` is there from the request that opens it to the Die step, and a session
that has executed Die takes nothing more. -/
def Working.Lifecycle {ω : Type} (c : Working ω) (x : UUID) : Prop :=
  (c.workflow.sessions.contains x = true ↔ c.Opened x ∧ ¬c.Died x) ∧
    (c.Died x → ∀ request : Request, request.getId = x →
      (request.target.target = .reply ∨ request.target.target = .error ∨
        request.target.target = .interrupt) → c.workflow.canExecuteRequest request = false)

namespace Workflow

variable {ω : Type}

/-- **The life of a session.** In every state a workflow reaches, the entry of a session is what the life
of the session says if and only if the session has not executed Die. -/
theorem lifecycle_iff {m : StateMachine ω} {hm : m.Initialised} {env : ω} {c : Working ω}
    (hrun : (system ω).Reachable (opened m hm env) c) (x : UUID) : c.Lifecycle x ↔ ¬c.Died x := by
  have hretained : Retained c := reachable_retained hrun
  have hopened : c.workflow.sessions.contains x = true ↔ c.Opened x := hretained.opened x
  constructor
  · rintro ⟨hentry, -⟩ hdied
    obtain ⟨event, hevent⟩ := Working.exists_of_died hdied
    have hcontains := hretained.witnessed x event hevent
    exact (hentry.mp hcontains).2 hdied
  · intro hlives
    refine ⟨?_, fun hdied => absurd hdied hlives⟩
    rw [hopened]
    exact (and_iff_left hlives).symm

end Workflow

namespace Sample

open Workflow

def working (m : StateMachine Unit) (hm : m.Initialised) (arrivals : List Arrival) : Working Unit :=
  (system Unit).play 30 arrivals (opened m hm ())

theorem working_reachable (m : StateMachine Unit) (hm : m.Initialised) (arrivals : List Arrival) :
    (system Unit).Reachable (opened m hm ()) (working m hm arrivals) :=
  .play (fun _ => trivial) (fun _ _ _ => trivial) .start

def ended : Working Unit :=
  working (single .done) (single_initialised .done) [.perform (request .defaultAction 0 0) false]

/-- The session of a waiting action is there, as it should be. -/
theorem waiting_lifecycle : (working (single .wait) (single_initialised .wait)
    [.perform (request .defaultAction 0 0) false]).Lifecycle 1 :=
  (lifecycle_iff (working_reachable ..) 1).mpr (by decide)

/-- The session has executed Die and `perform` has returned: the session is still there, and takes an
Error. -/
theorem ended_not_closed :
    (system Unit).Reachable (opened (single .done) (single_initialised .done) ()) ended ∧
      ended.calls = [] ∧ ended.Died 1 ∧ ended.workflow.sessions.contains 1 = true ∧
      ended.workflow.canExecuteRequest (request .error 0 0) = true ∧ ¬ended.Lifecycle 1 :=
  ⟨working_reachable .., List.isEmpty_iff.mp (by decide), by decide, by decide, by decide,
    fun h => (h.1.mp (by decide)).2 (by decide)⟩

end Sample

end LibWorkflow
