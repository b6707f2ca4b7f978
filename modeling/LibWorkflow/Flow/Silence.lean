import LibWorkflow.Flow.Data
import LibWorkflow.Lib.Cells

/-!
# Silent sources

Several bindings and starters may feed one input, and not all of them need to have something to give.
`bindResults` and `firstCall` (`core/state_machine.cpp`) call `setInput` with what they find, a null pointer
where an output was not produced or the request has no such context, and the input loses the context it
held; an action that is pending since "it has all required input set" (`core/session.h`) is unplanned
again. `inputs_kept`: the inputs hold the last contexts delivered in every run without a null delivery to
an input that was given a context before.
-/

namespace LibWorkflow

open Ordered Fallible Reactive Cells

abbrev Delivery := (ℤ × String) × Option Context

namespace Session

def cells (s : Session) (p : ℤ × String) : Option Context := s.getInput p.1 p.2

/-- The `setInput` calls of some deliveries. -/
def deliver (s : Session) (deliveries : List Delivery) : Session :=
  deliveries.foldl (fun s d => s.setInput d.1.1 d.1.2 d.2) s

theorem cells_setInput (s : Session) (id : ℤ) (name : String) (ctx : Option Context) :
    (s.setInput id name ctx).cells = overwrite s.cells ((id, name), ctx) := by
  funext p
  rw [cells, getInput_setInput, overwrite, Function.update_apply]
  simp only [Prod.ext_iff]
  rfl

theorem cells_deliver (s : Session) (deliveries : List Delivery) :
    (s.deliver deliveries).cells = deliveries.foldl overwrite s.cells := by
  unfold deliver
  induction deliveries generalizing s with
  | nil => rfl
  | cons d rest ih => rw [List.foldl_cons, List.foldl_cons, ih, cells_setInput]

theorem deliver_inputs_congr {s s' : Session} (h : s.inputs = s'.inputs) (deliveries : List Delivery) :
    (s.deliver deliveries).inputs = (s'.deliver deliveries).inputs := by
  unfold deliver
  induction deliveries generalizing s s' with
  | nil => exact h
  | cons d rest ih =>
    have hset : ∀ inputs, s.inputs = inputs → s.inputs.insert d.1.1 ((puts s.inputs d.1.1).insert d.1.2 d.2) =
        inputs.insert d.1.1 ((puts inputs d.1.1).insert d.1.2 d.2) := fun inputs h => by rw [h]
    exact ih (hset s'.inputs h)

end Session

theorem Action.checkDeclaredInputs_congr {s s' : Session} (h : s.cells = s'.cells)
    (inputs : OrdMap String PutDefinition) (id : ℤ) :
    checkDeclaredInputs inputs id s = checkDeclaredInputs inputs id s' := by
  have hinput : ∀ name, s.getInput id name = s'.getInput id name := fun name => congrFun h (id, name)
  unfold checkDeclaredInputs
  simp only [hinput]

namespace StateMachine

variable {ω : Type} {m : StateMachine ω}

/-! ### The deliveries of a transition -/

/-- What the bindings of `id` deliver to registered actions, a null pointer for an output that is not
there. -/
def bindingDeliveries (m : StateMachine ω) (s : Session) (id : ℤ) : List Delivery :=
  ((m.bindings id).filter fun binding => m.actions.contains binding.toActionId).map fun binding =>
    ((binding.toActionId, binding.toActionInput), s.getOutput id binding.fromActionOutput)

/-- What a first call delivers to the starters that name a context. -/
def starterDeliveries (m : StateMachine ω) (request : Request) : List Delivery :=
  (m.starters.filter fun input => !(input.workflowInput.isEmpty || input.actionInput.isEmpty)).map fun input =>
    ((input.actionId, input.actionInput), request.getContext input.workflowInput)

/-- What a transition delivers, in order: an accepted completion does, and a first call. -/
def deliveries (m : StateMachine ω) (c : Config ω) (label : Option Message) : List Delivery :=
  match completion? c label with
  | some (result, w) => if m.Completes w result then m.bindingDeliveries w.session result.actionId else []
  | none =>
    match c, label with
    | .returned w, some (.request _) =>
      if w.session.status.isEmpty then m.starterDeliveries w.session.request else []
    | _, _ => []

theorem deliverInputs_eq (s : Session) (id : ℤ) :
    m.deliverInputs s id = s.deliver (m.bindingDeliveries s id) := by
  suffices h : ∀ (bindings : List OutputBinding) (d : Session), (∀ name, d.getOutput id name = s.getOutput id name) →
      bindings.foldl (m.deliverInput id) d =
        d.deliver ((bindings.filter fun binding => m.actions.contains binding.toActionId).map fun binding =>
          ((binding.toActionId, binding.toActionInput), s.getOutput id binding.fromActionOutput)) from
    h _ s fun _ => rfl
  intro bindings
  induction bindings with
  | nil => exact fun _ _ => rfl
  | cons binding rest ih =>
    intro d hd
    rw [List.foldl_cons]
    by_cases hreg : m.actions.contains binding.toActionId = true
    · rw [List.filter_cons, if_pos hreg, List.map_cons, Session.deliver, List.foldl_cons, deliverInput,
        if_pos hreg, hd]
      exact ih _ hd
    · rw [List.filter_cons, if_neg hreg, deliverInput, if_neg hreg]
      exact ih d hd

theorem setStarterInputs_eq (s : Session) :
    setStarterInputs s m.starters = s.deliver (m.starterDeliveries s.request) := by
  suffices h : ∀ (starters : List InputBinding) (d : Session), d.request = s.request →
      setStarterInputs d starters =
        d.deliver ((starters.filter fun input =>
          !(input.workflowInput.isEmpty || input.actionInput.isEmpty)).map fun input =>
            ((input.actionId, input.actionInput), s.request.getContext input.workflowInput)) from
    h _ s rfl
  intro starters
  induction starters with
  | nil => exact fun _ _ => rfl
  | cons input rest ih =>
    intro d hd
    rw [setStarterInputs, List.foldl_cons]
    by_cases hempty : (input.workflowInput.isEmpty || input.actionInput.isEmpty) = true
    · rw [if_pos hempty, List.filter_cons, if_neg (by rw [hempty]; decide)]
      exact ih d hd
    · rw [if_neg hempty, List.filter_cons, if_pos (by simpa using hempty), List.map_cons, Session.deliver,
        List.foldl_cons, hd]
      exact ih _ hd

theorem actionExecuted_delivers (hm : m.Laid) {w : World ω} {result : Result} {out : Onward ω}
    (h : m.actionExecuted w result = .ok out) : out.1.session.inputs =
      (w.session.deliver (if m.Completes w result then m.bindingDeliveries w.session result.actionId
        else [])).inputs := by
  rw [actionExecuted_inputs hm h]
  split_ifs
  · rw [deliverInputs_eq]
  · rfl

theorem receive_delivers (hm : m.Laid) {w : World ω} {request : Request} {out : Onward ω}
    (h : m.receive w (.request request) = .ok out) : out.1.session.inputs =
      (w.session.deliver (if w.session.status.isEmpty then m.starterDeliveries w.session.request else [])).inputs := by
  rw [receive_inputs hm h]
  split_ifs
  · have hsame : ((w.session.pushRequest request).setStatuses m.actions.keys .unplanned).inputs =
        w.session.inputs := rfl
    rw [prepared, setStarterInputs_eq]
    exact Session.deliver_inputs_congr hsame _
  · rfl

/-- A transition that does not crash sets the inputs it delivers, and no others. -/
theorem trans_inputs (hm : m.Laid) {c c' : Config ω} (hc : c.Grounded m) {label : Option Message}
    (htrans : m.system.Trans c label c') (hcrash : ∀ fault w, c' ≠ .crashed fault w) :
    c'.world.session.inputs = (c.world.session.deliver (m.deliveries c label)).inputs := by
  cases htrans with
  | internal hnext =>
    rcases c with ⟨id | result, w⟩ | _ | _
    · cases hnext
      obtain ⟨out, hout, hworld⟩ := Config.exists_ok_of_ofStep hcrash
      rw [hworld]
      exact executeAction_inputs hc hout
    · cases hnext
      obtain ⟨out, hout, hworld⟩ := Config.exists_ok_of_ofStep hcrash
      rw [hworld]
      exact actionExecuted_delivers hm hout
    all_goals cases hnext
  | @input _ message haccept =>
    rcases c with _ | w | _
    case returned =>
      cases haccept
      obtain ⟨out, hout, hworld⟩ := Config.exists_ok_of_ofStep hcrash
      rw [hworld]
      cases message with
      | request request => exact receive_delivers hm hout
      | asyncFinished result => exact actionExecuted_delivers hm hout
    all_goals cases haccept

/-! ### Runs -/

def recordDeliveries (m : StateMachine ω) (c : Config ω) (label : Option Message) (past : List Delivery) :
    List Delivery := past ++ m.deliveries c label

/-- The transition delivers no null pointer to an input that was given a context before. -/
def Unsilenced (m : StateMachine ω) (x : Config ω × List Delivery) (label : Option Message) : Prop :=
  ∀ pre input post, m.deliveries x.1 label = pre ++ (input, none) :: post → ∀ ctx, (input, some ctx) ∉ x.2 ++ pre

theorem cells_congr {s s' : Session} (h : s.inputs = s'.inputs) : s.cells = s'.cells := by
  funext p
  unfold Session.cells Session.getInput
  rw [h]

/-- Deliveries to inputs that hold the last contexts keep them so, one after the other, if and only if none
is a null pointer to an input that was given a context before. -/
theorem delivers_latest_iff {s : Session} {past deliveries : List Delivery} (hs : s.cells = latest past) :
    (∀ pre, pre <+: deliveries → ∀ t i, (s.deliver pre).getInput t i = latest (past ++ pre) (t, i)) ↔
      ∀ pre input post, deliveries = pre ++ (input, none) :: post → ∀ ctx, (input, some ctx) ∉ past ++ pre := by
  rw [← overwrites_latest_iff, ← hs]
  refine forall₂_congr fun pre _ => ?_
  rw [← Session.cells_deliver, funext_iff]
  exact ⟨fun h p => h p.1 p.2, fun h t i => h (t, i)⟩

theorem run_latest (hm : m.Laid) {request : Request} {env : ω} {x : Config ω × List Delivery}
    (hrun : (m.system.observed m.recordDeliveries).Run m.Unsilenced (opened request env, []) x)
    (hcrash : ∀ fault w, x.1 ≠ .crashed fault w) : x.1.world.session.cells = latest x.2 := by
  induction hrun with
  | start => rfl
  | @step y z label hy hguard htrans ih =>
    have hground := reachable_grounded hm hy.source
    obtain ⟨htrans, hpast⟩ := System.observed_trans.mp htrans
    have hnocrash : ∀ fault w, y.1 ≠ .crashed fault w := by
      intro fault w heq
      rw [heq] at htrans
      cases htrans with
      | internal h => cases h
      | input h => cases h
    have hkept := (delivers_latest_iff (ih hnocrash)).mpr hguard _ List.prefix_rfl
    rw [hpast, cells_congr (trans_inputs hm hground htrans hcrash)]
    exact funext fun p => hkept p.1 p.2

/-- A null delivery that erases nothing leaves every check of the declared inputs as it was. -/
theorem checkDeclaredInputs_of_silent {s : Session} {past pre : List Delivery} {input : ℤ × String}
    (hs : (s.deliver pre).cells = latest (past ++ pre)) (hsilent : ∀ ctx, (input, some ctx) ∉ past ++ pre)
    (inputs : OrdMap String PutDefinition) (id : ℤ) :
    Action.checkDeclaredInputs inputs id (s.deliver (pre ++ [(input, none)])) =
      Action.checkDeclaredInputs inputs id (s.deliver pre) := by
  refine Action.checkDeclaredInputs_congr ?_ inputs id
  have hnone : (s.deliver pre).cells input = none := by rw [hs, latest_eq_none_iff.mpr hsilent]
  rw [Session.deliver, List.foldl_append]
  refine (Session.cells_setInput _ _ _ _).trans ?_
  exact Function.update_eq_self_iff.mpr hnone.symm

theorem unsilenced_of_isSome {x : Config ω × List Delivery} {label : Option Message}
    (h : ∀ d ∈ m.deliveries x.1 label, d.2.isSome = true) : m.Unsilenced x label := by
  intro pre input post hsplit
  have hsome := h (input, none) (by rw [hsplit]; exact List.mem_append_right pre (.head post))
  cases hsome

/-- **No input is erased** in a run none of whose transitions delivers a null pointer to an input that was
given a context before: every input holds the last context delivered to it. From any state of such a run a
transition keeps it so, delivery by delivery, if and only if it is another one like this; and then a source
that has nothing to give leaves the check of the inputs of its target as it was. -/
theorem inputs_kept (hm : Constructed m) {request : Request} {env : ω} {x : Config ω × List Delivery}
    (hrun : (m.system.observed m.recordDeliveries).Run m.Unsilenced (opened request env, []) x)
    (hcrash : ∀ fault w, x.1 ≠ .crashed fault w) :
    (∀ t i, x.1.world.session.getInput t i = latest x.2 (t, i)) ∧
    ∀ label c', m.system.Trans x.1 label c' → (∀ fault w, c' ≠ .crashed fault w) →
      c'.world.session.inputs = (x.1.world.session.deliver (m.deliveries x.1 label)).inputs ∧
      ((∀ pre, pre <+: m.deliveries x.1 label → ∀ t i,
          (x.1.world.session.deliver pre).getInput t i = latest (x.2 ++ pre) (t, i)) ↔ m.Unsilenced x label) ∧
      (m.Unsilenced x label → ∀ pre t i post, m.deliveries x.1 label = pre ++ ((t, i), none) :: post →
        ∀ inputs, Action.checkDeclaredInputs inputs t (x.1.world.session.deliver (pre ++ [((t, i), none)])) =
          Action.checkDeclaredInputs inputs t (x.1.world.session.deliver pre)) := by
  have hlatest := run_latest hm.laid hrun hcrash
  refine ⟨fun t i => congrFun hlatest (t, i), fun label c' htrans hcrash' => ⟨?_, delivers_latest_iff hlatest, ?_⟩⟩
  · exact trans_inputs hm.laid (reachable_grounded hm.laid hrun.source) htrans hcrash'
  · intro hguard pre t i post hsplit inputs
    have hkept := (delivers_latest_iff hlatest).mpr hguard pre ⟨_, hsplit.symm⟩
    exact checkDeclaredInputs_of_silent (funext fun p => hkept p.1 p.2) (hguard pre (t, i) post hsplit) inputs t

end StateMachine

namespace Sample

open StateMachine

def reticent : Action Unit :=
  .ofPerform "Sample" ∅ ((∅ : OrdMap String PutDefinition).insert "out"
    ⟨"out", "", "Sample", fun _ => true, false, false, false⟩) fun id env s => .ofResult env s ⟨id, .done, none⟩

def consuming : Action Unit :=
  .ofPerform "Sample" ((∅ : OrdMap String PutDefinition).insert "in"
    ⟨"in", "", "Sample", fun _ => true, true, false, false⟩) ∅ fun id env s => .ofResult env s ⟨id, .done, none⟩

/-- Two sources of one input, the second of which has nothing to give. -/
def silenced : StateMachine Unit :=
  (((StateMachine.new.init.addAction 0 producing [bindingTo 0 "out" 2 "in"]).addAction 1 reticent
    [bindingTo 1 "out" 2 "in"]).addAction 2 consuming [leadTo Step.finish.id]).addInput ⟨"", 0, ""⟩
    |>.addInput ⟨"", 1, ""⟩

theorem silenced_constructed : Constructed silenced :=
  Initialised.constructed (.addInput (.addInput (.addAction (.addAction (.addAction .refl _ _ _) _ _ _) _ _ _) _) _)

/-- The session with its history, before the completion of the second. -/
def silencing : Config Unit × List Delivery :=
  (silenced.system.observed silenced.recordDeliveries).play 3 [.request (request .defaultAction 0 0)]
    (opened (request .defaultAction 0 0) (), [])

theorem silencing_run : (silenced.system.observed silenced.recordDeliveries).Run silenced.Unsilenced
    (opened (request .defaultAction 0 0) (), []) silencing := by
  refine .advance_of (.input .start (unsilenced_of_isSome (by decide)) rfl) fun k hk => unsilenced_of_isSome ?_
  have hall : ∀ k < 3, ∀ d ∈ silenced.deliveries ((silenced.system.observed silenced.recordDeliveries).advance k
      ((silenced.system.observed silenced.recordDeliveries).play 0 [.request (request .defaultAction 0 0)]
        (opened (request .defaultAction 0 0) (), []))).1 none, d.2.isSome = true := by decide
  exact hall k hk

/-- The completion of the second source is the one that silences the first. -/
theorem silencing_latest : (∀ t i, silencing.1.world.session.getInput t i = latest silencing.2 (t, i)) ∧
    silencing.2 = [((2, "in"), some (.leaf "Sample" "data"))] ∧ ¬silenced.Unsilenced silencing none := by
  refine ⟨(inputs_kept silenced_constructed silencing_run fun _ _ h => nomatch h).1, rfl, fun h => ?_⟩
  exact h [] (2, "in") [] rfl (.leaf "Sample" "data") (.head _)

/-- Action 2 is pending with its input, and unplanned without it when the second source is done. -/
theorem input_erased : silenced.validate = none ∧
    silenced.system.Reachable (opened (request .defaultAction 0 0) ()) silencing.1 ∧
    silencing.1.world.session.getInput 2 "in" = some (.leaf "Sample" "data") ∧
    2 ∈ silencing.1.world.session.pendings ∧ silenced.deliveries silencing.1 none = [((2, "in"), none)] ∧
    (silenced.system.advance 1 silencing.1).world.session.getInput 2 "in" = none ∧
    (silenced.system.advance 1 silencing.1).world.session.status.find? 2 = some .unplanned :=
  ⟨by decide, silencing_run.source, rfl, by decide, rfl, rfl, rfl⟩

end Sample

end LibWorkflow
