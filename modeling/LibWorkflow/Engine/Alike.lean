import LibWorkflow.Core.Engine
import LibWorkflow.Engine.Layout

/-!
# What execution reads of a machine

The engine asks an action for its members, its puts and its wrapper, and never for its properties, which the
members read themselves; of a machine it asks for the actions, the two tables of bindings and the starters, and
never for the aliases. Machines that agree in this are `Alike`, and they execute every session alike
(`Alike.system_eq`). The tables follow from the bindings of the actions, so machines that were laid out need
only agree in these (`Constructed.alike`).
-/

namespace LibWorkflow

open Ordered

variable {ω : Type}

def ActionPtr.withProperties (ptr : ActionPtr ω) (properties : PropertySet) : ActionPtr ω :=
  { ptr with action := { ptr.action with properties := properties } }

/-- The same but for the property sets. -/
def ActionPtr.Alike (a b : ActionPtr ω) : Prop := ∃ properties, a = b.withProperties properties

namespace StateMachine

/-- The same layout, of actions that are the same but for their property sets. -/
structure Alike (m n : StateMachine ω) : Prop where
  actions : ∀ id, Option.Rel ActionPtr.Alike (m.actions.find? id) (n.actions.find? id)
  outputs : m.outputs = n.outputs
  inputsMap : m.inputsMap = n.inputsMap
  starters : m.starters = n.starters

namespace Alike

variable {m n : StateMachine ω} (h : m.Alike n)
include h

theorem find?_cases (id : ℤ) : (m.actions.find? id = none ∧ n.actions.find? id = none) ∨
    ∃ ptr properties, m.actions.find? id = some (ptr.withProperties properties) ∧
      n.actions.find? id = some ptr := by
  have hrel := h.actions id
  cases hn : n.actions.find? id with
  | none =>
    rw [hn] at hrel
    cases hm : m.actions.find? id with
    | none => exact .inl ⟨rfl, rfl⟩
    | some a => rw [hm] at hrel; cases hrel
  | some ptr =>
    rw [hn] at hrel
    cases hm : m.actions.find? id with
    | none => rw [hm] at hrel; cases hrel
    | some a =>
      rw [hm] at hrel
      cases hrel with
      | some halike =>
        obtain ⟨properties, rfl⟩ := halike
        exact .inr ⟨ptr, properties, rfl, rfl⟩

theorem keys_eq : m.actions.keys = n.actions.keys := by
  refine OrdMap.keys_eq_of_mem_iff fun id => ?_
  rw [OrdMap.mem_keys, OrdMap.mem_keys]
  rcases h.find?_cases id with ⟨hm, hn⟩ | ⟨ptr, properties, hm, hn⟩
  · rw [hm, hn]
  · simp [hm, hn]

theorem bindings_eq : m.bindings = n.bindings := by
  unfold bindings
  rw [h.outputs]

theorem getExpectedOutput_eq : m.getExpectedOutput = n.getExpectedOutput := by
  unfold getExpectedOutput
  rw [h.outputs]

theorem actionAt_bind {β : Type} (id : ℤ) {f g : ActionPtr ω → Except Fault β}
    (hf : ∀ ptr properties, f (ptr.withProperties properties) = g ptr) :
    m.actionAt id >>= f = n.actionAt id >>= g := by
  unfold actionAt
  rcases h.find?_cases id with ⟨hm, hn⟩ | ⟨ptr, properties, hm, hn⟩
  · rw [hm, hn]
    rfl
  · rw [hm, hn]
    exact hf ptr properties

/-! ### Scheduling -/

theorem allDone_eq : m.allDone = n.allDone := by
  funext s ids
  induction ids with
  | nil => rfl
  | cons id ids ih =>
    unfold allDone
    cases s.getStatus id with
    | error fault => rfl
    | ok status =>
      simp only [bind, Except.bind, ih]
      split_ifs
      · rfl
      · exact h.actionAt_bind id fun _ _ => rfl

theorem canExecuteAction_eq (env : ω) (s : Session) (ptr : ActionPtr ω) (properties : PropertySet) :
    m.canExecuteAction env s (ptr.withProperties properties) = n.canExecuteAction env s ptr := by
  unfold canExecuteAction
  rw [h.inputsMap, h.allDone_eq]
  rfl

theorem addToNext_eq : m.addToNext = n.addToNext := by
  funext s id
  unfold addToNext
  split_ifs
  · exact h.actionAt_bind id fun _ _ => rfl
  · rfl

theorem addToPending_eq : m.addToPending = n.addToPending := by
  funext s id
  exact h.actionAt_bind id fun _ _ => rfl

theorem scheduleTarget_eq (env : ω) (s : Session) (id : ℤ) (ptr : ActionPtr ω) (properties : PropertySet) :
    m.scheduleTarget env s id (ptr.withProperties properties) = n.scheduleTarget env s id ptr := by
  unfold scheduleTarget
  rw [h.canExecuteAction_eq, h.addToNext_eq, h.addToPending_eq]
  rfl

theorem bindResult_eq : m.bindResult = n.bindResult := by
  funext env id s binding
  unfold bindResult
  rw [h.addToNext_eq]
  rcases h.find?_cases binding.toActionId with ⟨hm, hn⟩ | ⟨ptr, properties, hm, hn⟩
  · rw [hm, hn]
  · rw [hm, hn]
    refine h.actionAt_bind id fun _ _ => ?_
    exact h.scheduleTarget_eq env _ binding.toActionId ptr properties

theorem bindResults_eq : m.bindResults = n.bindResults := by
  funext env s id
  unfold bindResults
  rw [h.bindings_eq, h.bindResult_eq]

theorem tryPromotePending_eq : m.tryPromotePending = n.tryPromotePending := by
  funext s
  unfold tryPromotePending
  rw [h.addToNext_eq]
  dsimp only
  split_ifs
  · exact h.actionAt_bind _ fun _ _ => rfl
  · rfl

theorem getNext_eq : m.getNext = n.getNext := by
  have hwithin : ∀ bound s, m.getNextWithin bound s = n.getNextWithin bound s := by
    intro bound
    induction bound with
    | zero => exact fun s => rfl
    | succ bound ih =>
      intro s
      unfold getNextWithin
      rw [h.tryPromotePending_eq, funext ih]
  exact funext fun s => hwithin _ s

theorem canExecuteFinish_eq : m.canExecuteFinish = n.canExecuteFinish := by
  funext s
  unfold canExecuteFinish
  rw [h.inputsMap]

theorem resetSchedule_eq : m.resetSchedule = n.resetSchedule := by
  funext s
  unfold resetSchedule
  rw [h.keys_eq]

/-! ### Calls and messages -/

theorem executeNext_eq : m.executeNext = n.executeNext := by
  funext w
  unfold executeNext
  rw [h.getNext_eq]

theorem canExecuteNext_eq : m.canExecuteNext = n.canExecuteNext := by
  funext env s next
  unfold canExecuteNext
  split_ifs
  · exact h.actionAt_bind next fun ptr properties => h.canExecuteAction_eq env s ptr properties
  · rfl

theorem executeAction_eq : m.executeAction = n.executeAction := by
  funext w id
  have hnone : m.executeNone w = n.executeNone w := by
    unfold executeNone
    rw [h.getNext_eq, h.canExecuteNext_eq, h.canExecuteFinish_eq, h.addToNext_eq, h.executeNext_eq]
  have hbegin : m.beginAction = n.beginAction := by
    funext s id
    unfold beginAction
    rw [h.resetSchedule_eq]
  unfold executeAction
  rw [hnone, hbegin, h.getExpectedOutput_eq]
  rcases h.find?_cases id with ⟨hm, hn⟩ | ⟨ptr, properties, hm, hn⟩
  · rw [hm, hn]
  · rw [hm, hn]
    rfl

theorem actionExecuted_eq : m.actionExecuted = n.actionExecuted := by
  funext w result
  unfold actionExecuted
  refine h.actionAt_bind result.actionId fun ptr properties => ?_
  rw [h.bindResults_eq, h.executeNext_eq]
  rfl

theorem scheduleStarters_eq : m.scheduleStarters = n.scheduleStarters := by
  funext env s starters
  induction starters generalizing s with
  | nil => rfl
  | cons input starters ih =>
    unfold scheduleStarters
    simp only [h.addToNext_eq, h.addToPending_eq, ih]
    rcases h.find?_cases input.actionId with ⟨hm, hn⟩ | ⟨ptr, properties, hm, hn⟩
    · rw [hm, hn]
    · rw [hm, hn]
      dsimp only
      rw [h.canExecuteAction_eq]
      rfl

theorem receiveStep_eq : m.receiveStep = n.receiveStep := by
  funext w step
  unfold receiveStep
  rw [h.resetSchedule_eq, h.addToNext_eq, h.executeNext_eq]

theorem answered_eq (w : World ω) (request : Request) :
    m.errorReceived w request = n.errorReceived w request ∧
      m.replyReceived w request = n.replyReceived w request := by
  unfold errorReceived replyReceived
  rw [h.receiveStep_eq]
  rcases h.find?_cases request.target.action with ⟨hm, hn⟩ | ⟨ptr, properties, hm, hn⟩
  · rw [hm, hn]
    exact ⟨rfl, rfl⟩
  · rw [hm, hn]
    exact ⟨rfl, rfl⟩

theorem execute_eq : m.execute = n.execute := by
  funext w request
  have hfirst : m.firstCall = n.firstCall := by
    funext w
    unfold firstCall
    rw [h.keys_eq, h.starters, h.scheduleStarters_eq, h.executeNext_eq]
  have hstatus : m.statusReceived = n.statusReceived := by
    funext w
    unfold statusReceived
    rw [h.getExpectedOutput_eq]
    rcases h.find?_cases Step.status.id with ⟨hm, hn⟩ | ⟨ptr, properties, hm, hn⟩
    · rw [hm, hn]
    · rw [hm, hn]
      rfl
  unfold execute interruptReceived
  rw [hfirst, hstatus, h.receiveStep_eq]
  simp only [(h.answered_eq _ _).1, (h.answered_eq _ _).2]

theorem makeCall_eq : m.makeCall = n.makeCall := by
  funext w call
  cases call with
  | executeAction id => exact congrFun₂ h.executeAction_eq w id
  | actionExecuted result => exact congrFun₂ h.actionExecuted_eq w result

/-- **Alike machines execute alike.** -/
theorem system_eq : m.system = n.system := by
  have hreceive : m.receive = n.receive := by
    funext w message
    cases message with
    | request request => exact congrFun₂ h.execute_eq w request
    | asyncFinished result => exact congrFun₂ h.actionExecuted_eq w result
  unfold system
  rw [h.makeCall_eq, hreceive]

end Alike

/-! ### `validate` -/

def expectations (m : StateMachine ω) (id : ℤ) : Option ((String → Option String) × (String → Option String)) :=
  (m.actions.find? id).map fun ptr => (ptr.expectInput, ptr.expectOutput)

theorem validate_congr {m n : StateMachine ω} (hexpectations : ∀ id, m.expectations id = n.expectations id)
    (houtputs : m.outputs = n.outputs) (hstarters : m.starters = n.starters) : m.validate = n.validate := by
  have hcases : ∀ id, (m.actions.find? id = none ∧ n.actions.find? id = none) ∨
      ∃ a b, m.actions.find? id = some a ∧ n.actions.find? id = some b ∧ a.expectInput = b.expectInput ∧
        a.expectOutput = b.expectOutput := by
    intro id
    have hid := hexpectations id
    unfold expectations at hid
    cases hm : m.actions.find? id <;> cases hn : n.actions.find? id <;> simp_all
  have hcontains : ∀ id, m.actions.contains id = n.actions.contains id := by
    intro id
    unfold OrdMap.contains
    rcases hcases id with ⟨hm, hn⟩ | ⟨a, b, hm, hn, -⟩ <;> rw [hm, hn]
    rfl
  have hstarter : m.validateStarter = n.validateStarter := by
    funext input
    unfold validateStarter
    rw [hcontains]
  have houtput : m.validateOutput = n.validateOutput := by
    funext output
    unfold validateOutput
    rw [hcontains]
    rcases hcases output.fromActionId with ⟨hm, hn⟩ | ⟨a, b, hm, hn, -, hout⟩
    · rw [hm, hn]
    · rw [hm, hn]
      dsimp only
      rw [hout]
      rcases hcases output.toActionId with ⟨hm, hn⟩ | ⟨a, b, hm, hn, hin, -⟩
      · rw [hm, hn]
      · rw [hm, hn]
        dsimp only
        rw [hin]
  unfold validate validateText
  rw [hstarter, houtput, houtputs, hstarters]

theorem Alike.validate_eq {m n : StateMachine ω} (h : m.Alike n) : m.validate = n.validate := by
  refine validate_congr (fun id => ?_) h.outputs h.starters
  unfold expectations
  rcases h.find?_cases id with ⟨hm, hn⟩ | ⟨ptr, properties, hm, hn⟩
  · rw [hm, hn]
  · rw [hm, hn]
    rfl

/-! ### Machines with the same bindings -/

/-- The tables follow from the bindings of the actions. -/
structure Tabled (m : StateMachine ω) : Prop where
  keys : ∀ id, id ∈ m.outputs.keys ↔ id ∈ m.actions.keys
  inputsMap : m.inputsMap = buildInputsMap m.outputs

theorem Extends.tabled {m n : StateMachine ω} (h : Extends m n) (hm : m.Tabled) : n.Tabled := by
  induction h with
  | refl => exact hm
  | @addAction n h id action bs ih =>
    by_cases hid : Accepts id
    · obtain ⟨exposed, heq⟩ := addAction_of_accepts hid n action bs
      rw [heq]
      refine ⟨fun a => ?_, rfl⟩
      rw [OrdMap.mem_keys_insert, OrdMap.mem_keys_insert, ih.keys]
    · rw [addAction_of_not_accepts hid]
      exact ih
  | addInput _ input ih => exact ⟨ih.keys, ih.inputsMap⟩
  | expose _ id key aliasName ih => exact ⟨ih.keys, ih.inputsMap⟩
  | unexpose _ id ih => exact ⟨ih.keys, ih.inputsMap⟩
  | unexposeAlias _ id aliasName ih => exact ⟨ih.keys, ih.inputsMap⟩

theorem Constructed.tabled {m : StateMachine ω} (h : Constructed m) : m.Tabled :=
  Extends.tabled h ⟨fun _ => Iff.rfl, rfl⟩

/-- Machines that were laid out are alike if their actions, bindings and starters are. -/
theorem Constructed.alike {m n : StateMachine ω} (hm : Constructed m) (hn : Constructed n)
    (hactions : ∀ id, Option.Rel ActionPtr.Alike (m.actions.find? id) (n.actions.find? id))
    (hbindings : ∀ id, m.bindings id = n.bindings id) (hstarters : m.starters = n.starters) : m.Alike n := by
  have hkeys : ∀ id, m.outputs.find? id = none ↔ n.outputs.find? id = none := by
    intro id
    have hmem : id ∈ m.outputs.keys ↔ id ∈ n.outputs.keys := by
      rw [hm.tabled.keys, hn.tabled.keys, OrdMap.mem_keys, OrdMap.mem_keys]
      have hrel := hactions id
      cases hptr : m.actions.find? id with
      | none =>
        rw [hptr] at hrel
        rw [eq_none_of_rel hrel]
      | some ptr =>
        rw [hptr] at hrel
        obtain ⟨ptr', hptr', -⟩ := exists_of_rel_some hrel
        exact iff_of_true ⟨ptr, rfl⟩ ⟨ptr', hptr'⟩
    simp only [OrdMap.mem_keys, ← Option.ne_none_iff_exists'] at hmem
    exact not_iff_not.mp hmem
  have houtputs : m.outputs = n.outputs := by
    refine OrdMap.ext_find? fun id => ?_
    have hsame := hbindings id
    unfold bindings at hsame
    cases hfind : m.outputs.find? id with
    | none => exact ((hkeys id).mp hfind).symm
    | some outputs =>
      obtain ⟨outputs', hfind'⟩ : ∃ outputs', n.outputs.find? id = some outputs' := by
        rw [← Option.ne_none_iff_exists', ne_eq, ← hkeys, hfind]
        simp
      rw [hfind, hfind'] at hsame
      rw [hfind', show outputs = outputs' from hsame]
  refine ⟨hactions, houtputs, ?_, hstarters⟩
  rw [hm.tabled.inputsMap, hn.tabled.inputsMap, houtputs]

end StateMachine

end LibWorkflow
