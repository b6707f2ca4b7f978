import LibWorkflow.Flow.Deliveries

/-!
# The flow of data

An input that one binding only feeds holds what the output of the binding had when its action was last
completed, whatever the session did in between; and the Finish reply carries it (`data_flow`).
-/

namespace LibWorkflow

open Ordered Fallible Reactive

namespace StateMachine

variable {ω : Type} {m : StateMachine ω}

/-- No other output is bound to the input of `binding`, and no starter stores a context in it. -/
structure SoleBinding (m : StateMachine ω) (id : ℤ) (binding : OutputBinding) : Prop where
  mem : binding ∈ m.bindings id
  bindings : ∀ a, ∀ output ∈ m.bindings a, output.toActionId = binding.toActionId →
    output.toActionInput = binding.toActionInput →
      a = id ∧ output.fromActionOutput = binding.fromActionOutput
  starters : ∀ input ∈ m.starters, input.actionId = binding.toActionId →
    input.actionInput = binding.toActionInput → input.workflowInput = ""

/-- The outputs of each action at its last completion. -/
abbrev Completed := ℤ → String → Option Context

def recordCompletion (m : StateMachine ω) (c : Config ω) (label : Option Message) (last : Completed) :
    Completed :=
  match completion? c label with
  | some (result, w) =>
    if m.Completes w result then Function.update last result.actionId (w.session.getOutput result.actionId)
    else last
  | none => last

/-- The inputs of sole bindings hold the outputs of the last completions. -/
def HoldsLast (m : StateMachine ω) (last : Completed) (s : Session) : Prop :=
  ∀ id binding, m.SoleBinding id binding → m.Registered binding.toActionId →
    s.getInput binding.toActionId binding.toActionInput = last id binding.fromActionOutput

theorem HoldsLast.congr {last : Completed} {s s' : Session} (h : m.HoldsLast last s)
    (hinputs : s'.inputs = s.inputs) : m.HoldsLast last s' := by
  intro id binding hsole hreg
  unfold Session.getInput
  rw [hinputs]
  exact h id binding hsole hreg

/-- A completion of `id` renews the inputs bound to its outputs, and these only. -/
theorem HoldsLast.deliverInputs {last : Completed} {s : Session} (h : m.HoldsLast last s) (id : ℤ) :
    m.HoldsLast (Function.update last id (s.getOutput id)) (m.deliverInputs s id) := by
  intro a binding hsole hreg
  have hsame : ∀ output ∈ m.bindings id, output.toActionId = binding.toActionId →
      output.toActionInput = binding.toActionInput →
        s.getOutput id output.fromActionOutput = s.getOutput id binding.fromActionOutput :=
    fun output hmem hto hinput => by rw [(hsole.bindings id output hmem hto hinput).2]
  rw [getInput_deliverInputs hreg hsame]
  by_cases ha : a = id
  · subst ha
    rw [if_pos ⟨binding, hsole.mem, rfl, rfl⟩, Function.update_self]
  · rw [if_neg, Function.update_of_ne ha]
    · exact h a binding hsole hreg
    · rintro ⟨output, hmem, hto, hinput⟩
      exact ha (hsole.bindings id output hmem hto hinput).1.symm

/-- A first call sets the inputs of its starters only. -/
theorem HoldsLast.prepared {last : Completed} {s : Session} (h : m.HoldsLast last s) :
    m.HoldsLast last (m.prepared s) := by
  intro id binding hsole hreg
  unfold StateMachine.prepared
  rw [getInput_setStarterInputs hsole.starters]
  exact h id binding hsole hreg

theorem HoldsLast.actionExecuted (hm : m.Laid) {last : Completed} {w : World ω} {result : Result}
    (h : m.HoldsLast last w.session) {out : Onward ω} (hout : m.actionExecuted w result = .ok out) :
    m.HoldsLast (if m.Completes w result then
      Function.update last result.actionId (w.session.getOutput result.actionId) else last) out.1.session := by
  have hinputs := actionExecuted_inputs hm hout
  split_ifs at hinputs ⊢
  · exact (h.deliverInputs result.actionId).congr hinputs
  · exact h.congr hinputs

end StateMachine

/-- The invariant of runs: it holds wherever the execution is not lost. -/
def Config.HoldsLast {ω : Type} (m : StateMachine ω) (last : StateMachine.Completed) : Config ω → Prop
  | .running _ w | .returned w => m.HoldsLast last w.session
  | .crashed _ _ => True

namespace StateMachine

variable {ω : Type} {m : StateMachine ω}

theorem HoldsLast.after {last : Completed} {out : Onward ω} (h : m.HoldsLast last out.1.session) :
    (Config.after out).HoldsLast m last := by
  obtain ⟨w, _ | call⟩ := out
  · exact h
  · exact h

theorem run_holdsLast (hm : m.Laid) {request : Request} {env : ω} {x : Config ω × Completed}
    (hrun : (m.system.observed m.recordCompletion).Reachable (opened request env, fun _ _ => none) x) :
    x.1.HoldsLast m x.2 := by
  refine history_induction (I := fun c last => c.HoldsLast m last) hm hrun ?_ ?_ ?_ ?_ ?_ ?_
  · intro id binding _ _
    rfl
  · intro id w out last hcalled hlast _ hout
    have hlast : m.HoldsLast last w.session := hlast
    exact (hlast.congr (executeAction_inputs hcalled hout)).after
  · intro result w out last _ hlast _ hout
    have hlast : m.HoldsLast last w.session := hlast
    exact (hlast.actionExecuted hm hout).after
  · intro message w out last _ hlast _ hout
    have hlast : m.HoldsLast last w.session := hlast
    cases message with
    | asyncFinished result => exact (hlast.actionExecuted hm hout).after
    | request request =>
      have hinputs := receive_inputs hm hout
      have hpush : m.HoldsLast last (w.session.pushRequest request) := hlast.congr rfl
      suffices hout : m.HoldsLast last out.1.session from hout.after
      split_ifs at hinputs
      · exact hpush.prepared.congr hinputs
      · exact hlast.congr hinputs
  · intros
    trivial
  · intros
    trivial

/-! ### The reply of Finish -/

theorem getContext_setContext (reply : Request) (output : String) (ctx : Option Context) (name : String) :
    (reply.setContext output ctx).getContext name =
      if name = output then ctx.or (reply.getContext name) else reply.getContext name := by
  unfold Request.setContext Request.getContext
  cases ctx with
  | none => simp
  | some ctx =>
    rw [Option.some_or]
    exact OrdMap.find?_insert ..

theorem getContext_setContexts (f : String → Option Context) (names : List String) (reply : Request)
    (name : String) :
    (names.foldl (fun reply output => reply.setContext output (f output)) reply).getContext name =
      if name ∈ names then (f name).or (reply.getContext name) else reply.getContext name := by
  induction names generalizing reply with
  | nil => simp
  | cons output names ih =>
    rw [List.foldl_cons, ih, getContext_setContext]
    by_cases hname : name = output
    · subst hname
      cases f name <;> simp
    · simp [hname]

theorem getContext_finishReply {ptr : ActionPtr ω} {expected : List String} {s : Session} {name : String}
    (hname : name ∈ expected) :
    (ptr.finishReply expected s).getContext name = s.getInput ptr.getActionId name := by
  unfold ActionPtr.finishReply
  rw [getContext_setContexts, if_pos hname]
  exact Option.or_none

theorem mem_getExpectedOutput {id : ℤ} {binding : OutputBinding} (h : binding ∈ m.bindings id)
    (hto : binding.toActionId = Step.finish.id) : binding.toActionInput ∈ m.getExpectedOutput := by
  refine List.mem_filterMap.mpr ⟨binding, mem_of_bindings h, ?_⟩
  rw [if_pos hto]

/-- **Data flow.** In every reachable state the input of a sole binding holds the output of the binding at
the last completion of its action, and a Finish reply carries under the name of each sole binding to Finish
what its output had at the last completion, or nothing. -/
theorem data_flow (hm : Constructed m) {request : Request} {env : ω} {x : Config ω × Completed}
    (hrun : (m.system.observed m.recordCompletion).Reachable (opened request env, fun _ _ => none) x) :
    ((∀ fault w, x.1 ≠ .crashed fault w) → ∀ id binding, m.SoleBinding id binding →
      m.Registered binding.toActionId →
        x.1.world.session.getInput binding.toActionId binding.toActionInput =
          x.2 id binding.fromActionOutput) ∧
    ∀ label c' events reply, m.system.Trans x.1 label c' → c'.world.trace = x.1.world.trace ++ events →
      .finishReply reply ∈ events → ∀ id binding, m.SoleBinding id binding →
        binding.toActionId = Step.finish.id →
          reply.getContext binding.toActionInput = x.2 id binding.fromActionOutput := by
  obtain ⟨c, last⟩ := x
  have hlast : c.HoldsLast m last := run_holdsLast hm.laid hrun
  refine ⟨fun hcrash => ?_, ?_⟩
  · rcases c with ⟨call, w⟩ | w | ⟨fault, w⟩
    · exact hlast
    · exact hlast
    · exact absurd rfl (hcrash fault w)
  · intro label c' events reply htrans htrace hreply id binding hsole hto
    obtain ⟨events', htrace', hheard⟩ := trans_heard hm.laid htrans
    cases List.append_cancel_left (htrace.symm.trans htrace')
    obtain ⟨ptr, w, rfl, hptr, rfl⟩ := hheard.of_finishReply hm.laid hreply
    have hlast : m.HoldsLast last (m.beginAction w.session Step.finish.id) :=
      HoldsLast.congr hlast (beginAction_inputs _ _)
    rw [getContext_finishReply (mem_getExpectedOutput hsole.mem hto), hm.laid.own hptr]
    have hinput := hlast id binding hsole (hto ▸ ⟨ptr, hptr⟩)
    rw [hto] at hinput
    exact hinput

theorem soleBinding_of_entries (hm : Constructed m) {id : ℤ} {binding : OutputBinding}
    (hmem : binding ∈ m.bindings id)
    (hbindings : ∀ output ∈ m.outputs.entries.flatMap Prod.snd, output.toActionId = binding.toActionId →
      output.toActionInput = binding.toActionInput →
        output.fromActionId = id ∧ output.fromActionOutput = binding.fromActionOutput)
    (hstarters : ∀ input ∈ m.starters, input.actionId ≠ binding.toActionId) : m.SoleBinding id binding where
  mem := hmem
  bindings a output ha hto hinput := by
    have hown := (Extends.laidOut hm laidOut_new).ownBindings a output ha
    rw [← hown]
    exact hbindings output (mem_of_bindings ha) hto hinput
  starters input hinput hto := absurd hto (hstarters input hinput)

end StateMachine

namespace Sample

open StateMachine

def producing : Action Unit :=
  .ofPerform "Sample" ∅ ((∅ : OrdMap String PutDefinition).insert "out"
    ⟨"out", "", "Sample", fun _ => true, true, false, false⟩) fun id env s =>
      { Outcome.ofResult env s ⟨id, .done, none⟩ with outputs := [("out", some (.leaf "Sample" "data"))] }

def flowing : StateMachine Unit :=
  (StateMachine.new.init.addAction 0 producing [bindingTo 0 "out" Step.finish.id "result"]).addInput ⟨"", 0, ""⟩

def flowed : Config Unit × Completed :=
  (flowing.system.observed flowing.recordCompletion).play 2 [.request (request .defaultAction 0 0)]
    (opened (request .defaultAction 0 0) (), fun _ _ => none)

theorem flowed_reachable : (flowing.system.observed flowing.recordCompletion).Reachable
    (opened (request .defaultAction 0 0) (), fun _ _ => none) flowed :=
  .play (fun _ => trivial) (fun _ _ _ => trivial) .start

theorem flowed_data :
    flowed.2 0 "out" = some (.leaf "Sample" "data") ∧
    flowed.1.world.session.getInput Step.finish.id "result" = flowed.2 0 "out" ∧
    ∀ label c' events reply, flowing.system.Trans flowed.1 label c' →
      c'.world.trace = flowed.1.world.trace ++ events → .finishReply reply ∈ events →
        reply.getContext "result" = flowed.2 0 "out" := by
  have hm : Constructed flowing := Initialised.constructed (.addInput (.addAction .refl _ _ _) _)
  have hsole : flowing.SoleBinding 0 (bindingTo 0 "out" Step.finish.id "result") :=
    soleBinding_of_entries hm (.head _) (by decide) (by decide)
  obtain ⟨hinput, hreply⟩ := data_flow hm flowed_reachable
  refine ⟨rfl, ?_, fun label c' events reply htrans htrace hmem => ?_⟩
  · exact hinput (fun _ _ h => nomatch h) 0 _ hsole ⟨_, rfl⟩
  · exact hreply label c' events reply htrans htrace hmem 0 _ hsole rfl

end Sample

end LibWorkflow
