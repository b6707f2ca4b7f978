import LibWorkflow.Flow.Data
import LibWorkflow.Flow.Outcome
import LibWorkflow.Lib.Dataflow

/-!
# What a workflow says

A workflow of actions that are functions of their inputs is a set of dataflow equations (`equations`): the
outputs of an action are its function of what the bindings bring from the outputs of others, and of what the
starters bring from the request. On an acyclic workflow they have one solution (`existsUnique_outputs`), which
speaks of no order, no numbering and no schedule.
-/

namespace LibWorkflow

open Ordered Fallible

/-- The contexts under the names of the inputs, or of the outputs, of an action. -/
abbrev Contexts := String → Option Context

namespace StateMachine

variable {ω : Type} {m : StateMachine ω}

/-! ### The equations -/

/-- The binding into an input: the first of the layout, if there are several. -/
def feeder (m : StateMachine ω) (id : ℤ) (name : String) : Option OutputBinding :=
  (m.outputs.entries.flatMap Prod.snd).find? fun output =>
    decide (output.toActionId = id ∧ output.toActionInput = name)

/-- The inputs of an action, given the outputs of all: what the binding into an input brings, and where there is
none what a starter brings from the request. -/
def inputsOf (m : StateMachine ω) (request : Request) (outputs : ℤ → Contexts) (id : ℤ) : Contexts := fun name =>
  match m.feeder id name with
  | some binding => outputs binding.fromActionId binding.fromActionOutput
  | none => (m.prepared (.ofRequest request)).getInput id name

theorem feeder_eq_some {id : ℤ} {name : String} {binding : OutputBinding} (h : m.feeder id name = some binding) :
    (∃ a, binding ∈ m.bindings a) ∧ binding.toActionId = id ∧ binding.toActionInput = name := by
  have hmem := List.mem_of_find?_eq_some h
  have hto := List.find?_some h
  rw [decide_eq_true_eq] at hto
  obtain ⟨⟨a, outputs⟩, hentry, hbinding⟩ := List.mem_flatMap.mp hmem
  refine ⟨⟨a, ?_⟩, hto⟩
  rw [bindings, OrdMap.find?_eq_some_iff.mpr hentry]
  exact hbinding

theorem feeder_eq_none {id : ℤ} {name : String} (h : m.feeder id name = none) {a : ℤ} {binding : OutputBinding}
    (hmem : binding ∈ m.bindings a) : ¬(binding.toActionId = id ∧ binding.toActionInput = name) := by
  have hnot := List.find?_eq_none.mp h binding (mem_of_bindings hmem)
  rwa [decide_eq_true_eq] at hnot

theorem Straight.fromActionId (hm : m.Straight) {a : ℤ} {binding : OutputBinding} (h : binding ∈ m.bindings a) :
    binding.fromActionId = a :=
  (Extends.laidOut hm.ordinary.initialised.constructed laidOut_new).ownBindings a binding h

theorem Straight.edge_of_leads (hm : m.Straight) {a b : ℤ} (hb : 0 ≤ b) (h : m.Leads a b) : m.Edge a b := by
  rcases hm.ordinary.registered_cases (hm.ordinary.initialised.laid.source h) with hid | ha
  · rw [hm.ordinary.leads_default hid] at h
    have hneg : defaultTarget a < 0 := by
      unfold defaultTarget
      split_ifs <;> decide
    exact absurd hb (not_le.mpr (h ▸ hneg))
  · exact ⟨ha, hb, h⟩

/-- The inputs of an ordinary action are read off the outputs of its predecessors. -/
theorem Straight.inputsOf_congr (hm : m.Straight) {request : Request} {id : ℤ} {x y : ℤ → Contexts}
    (h : ∀ p, m.Leads p id → x p = y p) : m.inputsOf request x id = m.inputsOf request y id := by
  funext name
  unfold inputsOf
  cases hfeeder : m.feeder id name with
  | none => rfl
  | some binding =>
    obtain ⟨⟨a, hmem⟩, hto, -⟩ := feeder_eq_some hfeeder
    exact congrFun (h _ ⟨binding, hm.fromActionId hmem ▸ hmem, hto⟩) _

/-- The equations of a workflow for a request, whose actions are functions of their inputs. -/
def equations (m : StateMachine ω) (hm : m.Straight) (request : Request) (function : ℤ → Contexts → Contexts) :
    Dataflow.Equations ℤ Contexts where
  edge := m.Edge
  eval id outputs := if 0 ≤ id then function id (m.inputsOf request outputs id) else fun _ => none
  reads id x y h := by
    split_ifs with hid
    · rw [hm.inputsOf_congr fun p hp => h p (hm.edge_of_leads hid hp)]
    · rfl

theorem equations_eval {hm : m.Straight} {request : Request} {function : ℤ → Contexts → Contexts} {id : ℤ}
    (hid : 0 ≤ id) (outputs : ℤ → Contexts) :
    (m.equations hm request function).eval id outputs = function id (m.inputsOf request outputs id) := if_pos hid

theorem Acyclic.wellFounded_edge (hacyclic : m.Acyclic) : WellFounded m.Edge := by
  have hswap : Dag.Acyclic (Function.swap m.Edge) := fun a ha => hacyclic a (Relation.transGen_swap.mp ha)
  have hfin : {b | ∃ output ∈ m.outputs.entries.flatMap Prod.snd, output.toActionId = b}.Finite := by
    refine ((m.outputs.entries.flatMap Prod.snd).map OutputBinding.toActionId).toFinset.finite_toSet.subset ?_
    rintro b ⟨output, hmem, rfl⟩
    exact List.mem_toFinset.mpr (List.mem_map_of_mem hmem)
  refine hswap.wellFounded hfin fun b a hab => ?_
  obtain ⟨output, hmem, hto⟩ := hab.2.2
  exact ⟨output, mem_of_bindings hmem, hto⟩

/-- **One meaning.** The equations of an acyclic workflow have one solution and no other. -/
theorem existsUnique_outputs (hm : m.Straight) (hacyclic : m.Acyclic) (request : Request)
    (function : ℤ → Contexts → Contexts) : ∃! outputs, (m.equations hm request function).Solution outputs :=
  Dataflow.Equations.existsUnique_solution hacyclic.wellFounded_edge

/-! ### Actions that are functions -/

/-- A starter names the ordinary action, or a binding leads to it. -/
def Linked (m : StateMachine ω) (id : ℤ) : Prop :=
  0 ≤ id ∧ m.Registered id ∧ ((∃ input ∈ m.starters, input.actionId = id) ∨ ∃ p, m.Leads p id)

/-- The action can be performed where its inputs are accepted, and is then a function of them: it is done, its
outputs, of which none was set before, are those of the function, and they meet its contract. -/
structure IsFunction (ptr : ActionPtr ω) (accepts : Contexts → Prop) (function : Contexts → Contexts) : Prop where
  checkInputs : ∀ env s, ptr.checkInputs env s = true ↔ accepts (s.getInput ptr.getActionId)
  canPerform : ∀ env s, ptr.canPerform env s = true
  done : ∀ env s, accepts (s.getInput ptr.getActionId) →
    (ptr.action.perform ptr.getActionId env s).result.type = .done
  outputs : ∀ env s, accepts (s.getInput ptr.getActionId) → (∀ name, s.getOutput ptr.getActionId name = none) →
    ∀ name, (World.setOutputs ptr.getActionId ptr.action.outputs s
      (ptr.action.perform ptr.getActionId env s).outputs).getOutput ptr.getActionId name =
        function (s.getInput ptr.getActionId) name
  checkOutputs : ∀ env s, accepts (s.getInput ptr.getActionId) →
    (∀ name, s.getOutput ptr.getActionId name = function (s.getInput ptr.getActionId) name) →
      ptr.checkOutputs env s = true

/-- A workflow of functions. What leads to an ordinary action is linked itself; one binding only goes into an
input of it, and it accepts no inputs without what this binding brings. -/
structure Functional (m : StateMachine ω) (accepts : ℤ → Contexts → Prop) (function : ℤ → Contexts → Contexts) :
    Prop where
  linked : ∀ p id, 0 ≤ id → m.Leads p id → m.Linked p
  actions : ∀ id ptr, m.Linked id → m.actions.find? id = some ptr → IsFunction ptr (accepts id) (function id)
  wired : ∀ p, ∀ binding ∈ m.bindings p, 0 ≤ binding.toActionId → m.SoleBinding p binding
  firm : ∀ p, ∀ binding ∈ m.bindings p, 0 ≤ binding.toActionId → ∀ inputs,
    accepts binding.toActionId inputs → inputs binding.toActionInput ≠ none

/-- The outputs give every linked action inputs it accepts, and no action a `SkipCtx`, nor Finish. -/
structure Flowing (m : StateMachine ω) (request : Request) (accepts : ℤ → Contexts → Prop)
    (outputs : ℤ → Contexts) : Prop where
  accepted : ∀ id, m.Linked id → accepts id (m.inputsOf request outputs id)
  unskipped : ∀ id name, m.Linked id → (m.inputsOf request outputs id name).all (fun ctx => !ctx.isSkip) = true
  finish : ∀ id, m.Linked id → ∀ binding ∈ m.bindings id, binding.toActionId = Step.finish.id →
    (outputs id binding.fromActionOutput).all (fun ctx => !ctx.isSkip) = true

end StateMachine

end LibWorkflow
