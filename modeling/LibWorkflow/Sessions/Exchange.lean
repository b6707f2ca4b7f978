import LibWorkflow.Engine.Alike
import LibWorkflow.Sessions.Projection

/-!
# A workflow with another machine

`core/workflow.cpp` asks its machine for the functions of the engine only. So a workflow whose machine is
exchanged for one that is alike goes on as it would have: whatever it is given, whatever its sessions call of
one another, and whatever becomes of their environment meanwhile (`follow_withMachine`).
-/

namespace LibWorkflow

open Ordered

variable {ω : Type}

def Workflow.withMachine (w : Workflow ω) (m : StateMachine ω) (hm : m.Initialised) : Workflow ω :=
  { w with stateMachine := m, initialised := hm }

namespace Working

def withMachine (c : Working ω) (m : StateMachine ω) (hm : m.Initialised) : Working ω :=
  { c with workflow := c.workflow.withMachine m hm }

/-- A turn of a workflow at work: the environment as the others leave it, and a call given to the workflow,
or none, where it goes on by itself. -/
abbrev Turn (ω : Type) := ω × Option Arrival

def follow (c : Working ω) (turns : List (Turn ω)) : Option (Working ω) :=
  turns.foldlM (fun c turn => (Workflow.system ω).step { c with env := turn.1 } turn.2) c

variable {c : Working ω} {m : StateMachine ω} {hm : m.Initialised}

theorem engage_withMachine (id : UUID) (performing : Bool) (rsession : RunningSession) (rest : List Execution)
    (f : World ω → Except Fault (Onward ω)) :
    (c.withMachine m hm).engage id performing rsession rest f =
      (c.engage id performing rsession rest f).withMachine m hm := by
  have henv : (c.withMachine m hm).env = c.env := rfl
  unfold engage
  rw [henv]
  cases f ⟨rsession.session, c.env, []⟩ <;> rfl

theorem leave_withMachine (execution : Execution) (rsession : RunningSession) (rest : List Execution) :
    (c.withMachine m hm).leave execution rsession rest = (c.leave execution rsession rest).withMachine m hm := by
  unfold leave
  split_ifs <;> rfl

section Alike

variable (h : m.Alike c.workflow.stateMachine)
include h

theorem perform_withMachine (request : Request) (flag : Bool) :
    (c.withMachine m hm).perform request flag = (c.perform request flag).withMachine m hm := by
  have hmachine : (c.withMachine m hm).workflow.stateMachine = m := rfl
  have hcan : (c.withMachine m hm).workflow.canExecuteRequest request = c.workflow.canExecuteRequest request :=
    rfl
  have hentry : (c.withMachine m hm).workflow.rsession request flag = c.workflow.rsession request flag := rfl
  unfold perform
  rw [hmachine, hcan, hentry, h.execute_eq]
  dsimp only
  split_ifs
  · rfl
  · exact engage_withMachine (c := c.record [.accepted request, .handed request]) ..
  · rfl

theorem proceed_withMachine (execution : Execution) (rsession : RunningSession) (rest : List Execution) :
    (c.withMachine m hm).proceed execution rsession rest =
      (c.proceed execution rsession rest).withMachine m hm := by
  have hmachine : (c.withMachine m hm).workflow.stateMachine = m := rfl
  unfold proceed
  rw [hmachine, h.makeCall_eq]
  cases execution.next with
  | some call => exact engage_withMachine ..
  | none => exact leave_withMachine ..

theorem step_withMachine (label : Option Arrival) : (Workflow.system ω).step (c.withMachine m hm) label =
    ((Workflow.system ω).step c label).map (·.withMachine m hm) := by
  have hasync : ∀ id rsession result, (c.withMachine m hm).asyncFinished id rsession result =
      (c.asyncFinished id rsession result).withMachine m hm := by
    intro id rsession result
    have hmachine : (c.withMachine m hm).workflow.stateMachine = m := rfl
    unfold asyncFinished StateMachine.actionAsyncFinished
    rw [hmachine, h.actionExecuted_eq]
    exact engage_withMachine ..
  have hfault : (c.withMachine m hm).fault = c.fault := rfl
  have hcalls : (c.withMachine m hm).calls = c.calls := rfl
  have hsessions : (c.withMachine m hm).workflow.sessions = c.workflow.sessions := rfl
  cases label with
  | none =>
    simp only [Reactive.System.step, Workflow.system, hfault, hcalls, hsessions]
    cases c.fault with
    | some fault => rfl
    | none =>
      cases c.calls with
      | nil => rfl
      | cons execution rest =>
        simp only [Option.map_map]
        exact congrArg (Option.map · _) (funext fun rsession => proceed_withMachine h execution rsession rest)
  | some arrival =>
    simp only [Reactive.System.step, Workflow.system, hfault, hsessions]
    cases c.fault with
    | some fault => rfl
    | none =>
      cases arrival with
      | perform request flag => exact congrArg some (perform_withMachine h request flag)
      | asyncFinished id result =>
        simp only [Option.map_map]
        exact congrArg (Option.map · _) (funext fun rsession => hasync id rsession result)

/-- **A workflow does not notice an exchange of its machine for one that is alike.** -/
theorem follow_withMachine (turns : List (Turn ω)) :
    (c.withMachine m hm).follow turns = (c.follow turns).map (·.withMachine m hm) := by
  induction turns generalizing c with
  | nil => rfl
  | cons turn turns ih =>
    obtain ⟨env, label⟩ := turn
    have hstep : (Workflow.system ω).step ({ c with env := env }.withMachine m hm) label =
        ((Workflow.system ω).step { c with env := env } label).map (·.withMachine m hm) :=
      step_withMachine (c := { c with env := env }) h label
    simp only [follow, List.foldlM_cons]
    rw [show ({ c.withMachine m hm with env := env } : Working ω) =
      ({ c with env := env } : Working ω).withMachine m hm from rfl, hstep]
    cases htaken : (Workflow.system ω).step { c with env := env } label with
    | none => rfl
    | some c' =>
      have htrans := Reactive.System.step_eq_some_iff.mp htaken
      have hsame : c'.workflow.stateMachine = c.workflow.stateMachine :=
        Workflow.stateMachine_of_moved (c := { c with env := env }) (Workflow.moved_of_trans htrans)
      exact ih (hsame ▸ h)

end Alike

end Working

end LibWorkflow
