import LibWorkflow.Actions.Interface
import LibWorkflow.Codec.Requests

/-!
# The call of a target

`perform` makes a request for the target that the session selects. In synchronous mode it sends a new request,
whose contexts nobody sets; in asynchronous mode it drops the one it made. So the call is forwarded as the
target expects it exactly where it is synchronous and has nothing to carry (`forwards_iff`).
-/

namespace LibWorkflow

open Ordered

namespace ExecuteWorkflow

variable {ω : Type}

/-- The session has this context for an input the action declares, which the target takes under this name. -/
def Feeds (controllers : Controllers ω) (a : ExecuteWorkflow) (s : Session) (key : String) (ctx : Context) : Prop :=
  ∃ m, a.target? controllers (some s) = some m ∧ ∃ start ∈ m.starters,
    start.workflowInput = key ∧ start.workflowInput ≠ "" ∧ start.actionInput ≠ "" ∧
      a.inputs.contains start.actionInput = true ∧ s.getInput a.actionId start.actionInput = some ctx

/-- Where the answer to a call belongs: to this action of the session, or nowhere. -/
def RepliesTo (a : ExecuteWorkflow) (s : Session) (reply : Target) : Prop :=
  if a.boolProperty (some s) "sync" then
    reply = { s.request.target with
      executionLevel := s.currentExecutionLevel
      action := a.actionId
      target := .reply }
  else reply.target = .noReply

/-- The request calls the target that the session selects, with the contexts that the session has for it. -/
structure CallsTarget (controllers : Controllers ω) (a : ExecuteWorkflow) (s : Session) (req : Request) : Prop where
  kind : req.target.target = .defaultAction
  controller : req.target.controller = a.stringProperty (some s) "controller"
  workflow : req.target.workflow = a.stringProperty (some s) "workflow"
  contexts : ∀ key ctx, req.getContext key = some ctx ↔ a.Feeds controllers s key ctx
  reply : a.RepliesTo s req.reply

def Forwards (controllers : Controllers ω) (a : ExecuteWorkflow) (s : Session) (calls : List Call) : Prop :=
  ∃ call, calls = [call] ∧ a.CallsTarget controllers s call.request

variable {controllers : Controllers ω} {a : ExecuteWorkflow} {s : Session}

theorem calls_of_async (hasync : a.boolProperty (some s) "sync" = false) (fresh : Request) :
    (a.perform s fresh).2 = [] := by
  unfold perform
  simp [hasync]

theorem calls_of_sync (hsync : a.boolProperty (some s) "sync" = true) (fresh : Request) :
    ∃ call, (a.perform s fresh).2 = [call] ∧ call.request.target.target = .defaultAction ∧
      call.request.target.controller = a.stringProperty (some s) "controller" ∧
      call.request.target.workflow = a.stringProperty (some s) "workflow" ∧
      call.request.context = fresh.context ∧ a.RepliesTo s call.request.reply := by
  unfold perform RepliesTo
  simp only [hsync, if_true]
  exact ⟨_, rfl, rfl, rfl, rfl, rfl, rfl⟩

theorem getContext_of_context_empty {req : Request} (h : req.context = ∅) (key : String) :
    req.getContext key = none := by
  unfold Request.getContext
  rw [h]
  rfl

/-- `perform` sends one request, a call of the target with the contexts that the session has for its declared
inputs, exactly where it is synchronous and the session has none for them. -/
theorem forwards_iff (p : Platform) (identifier replyIdentifier : UUID) (controllers : Controllers ω)
    (a : ExecuteWorkflow) (s : Session) :
    a.Forwards controllers s (a.perform s (Request.new p identifier replyIdentifier)).2 ↔
      a.boolProperty (some s) "sync" = true ∧ ∀ key ctx, ¬a.Feeds controllers s key ctx := by
  cases hsync : a.boolProperty (some s) "sync" with
  | false =>
    rw [calls_of_async hsync]
    refine iff_of_false ?_ (by simp)
    rintro ⟨call, hcall, -⟩
    simp at hcall
  | true =>
    obtain ⟨call, hcall, hkind, hcontroller, hworkflow, hcontext, hreply⟩ :=
      calls_of_sync hsync (Request.new p identifier replyIdentifier)
    have hnone : ∀ key, call.request.getContext key = none := getContext_of_context_empty hcontext
    rw [hcall]
    constructor
    · rintro ⟨found, hfound, hcalls⟩
      obtain rfl := List.singleton_inj.mp hfound
      refine ⟨rfl, fun key ctx hfeeds => ?_⟩
      have hsome := (hcalls.contexts key ctx).mpr hfeeds
      rw [hnone] at hsome
      cases hsome
    · rintro ⟨-, hnothing⟩
      refine ⟨call, rfl, hkind, hcontroller, hworkflow, fun key ctx => ?_, hreply⟩
      rw [hnone]
      exact iff_of_false (by simp) (hnothing key ctx)

def asking : StateMachine Unit :=
  (StateMachine.new.init.addAction 0 (.ofPerform "Asking" ((∅ : OrdMap String PutDefinition).insert "question"
      ⟨"question", "", "Context", fun _ => true, true, false, false⟩) ∅ fun id env s =>
        .ofResult env s ⟨id, .done, none⟩) []).addInput ⟨"question", 0, "question"⟩

def asked : Session :=
  (Session.ofRequest (Sample.request .defaultAction 0 0)).setInput 1 "question" (some (.leaf "Context" ""))

def leaving : Session :=
  { asked with bypass := PropertySet.new.defineBoolProperty "sync" false "" false }

/-- The input contract holds, and the call is sent without the input that the session has for it, or not at
all. -/
theorem call_not_forwarded : asking.validate = none ∧
    (Contract.checkInputs "" (adapted asking).asAction asked Contract.blank).1 = true ∧
    (∃ call, ((adapted asking).perform asked (Request.new Sample.platform 1 2)).2 = [call] ∧
      call.request.getContext "question" = none ∧
      (adapted asking).Feeds (serving asking) asked "question" (.leaf "Context" "")) ∧
    (Contract.checkInputs "" (adapted asking).asAction leaving Contract.blank).1 = true ∧
    ((adapted asking).perform leaving (Request.new Sample.platform 1 2)).2 = [] := by
  refine ⟨by decide +kernel, by decide +kernel, ⟨_, rfl, rfl, asking, rfl, ⟨"question", 0, "question"⟩, ?_, rfl,
    by decide, by decide, by decide +kernel, rfl⟩, by decide +kernel, ?_⟩
  · exact List.mem_singleton.mpr rfl
  · exact calls_of_async (by decide +kernel) _

end ExecuteWorkflow

end LibWorkflow
