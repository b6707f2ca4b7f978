import LibWorkflow.Actions.ExecuteWorkflow
import LibWorkflow.Engine.Samples
import LibWorkflow.Lib.Fallible

/-!
# Adapting to a target

`prepare` looks up the inputs that the starters of its target name, and the outputs that are bound to Finish.
`validate` asks less of a workflow: it does not look at the inputs of starters, and takes the empty name for
any output. So there are workflows a controller accepts on which `prepare` throws; those on which it does not
are the ones that declare what is looked up (`prepare_adapts_iff`). The default layout is not among them: its
action 0 is bound to Finish by the empty name. What is looked up depends on the names declared so far: a new
input gets the name of its definition, which need not be the one it was found under, one that is merged the
inner name of its starter (`Named`).
-/

namespace LibWorkflow

open Ordered Fallible

namespace StateMachine

variable {ω : Type} {m : StateMachine ω}

/-- Laid out by `addAction` and `addInput`: the exposed properties are as `addAction` leaves them. -/
inductive Built : StateMachine ω → Prop
  | new : Built new
  | addAction {m : StateMachine ω} (h : Built m) (id : ℤ) (action : Action ω) (bindings : List OutputBinding) :
      Built (m.addAction id action bindings)
  | addInput {m : StateMachine ω} (h : Built m) (input : InputBinding) : Built (m.addInput input)

theorem Built.init : Built (StateMachine.new.init : StateMachine ω) :=
  .addAction (.addAction (.addAction (.addAction .new _ _ _) _ _ _) _ _ _) _ _ _

theorem Built.constructed (h : Built m) : Constructed m := by
  induction h with
  | new => exact .refl
  | addAction _ id action bindings ih => exact .addAction ih id action bindings
  | addInput _ input ih => exact .addInput ih input

theorem exposed_of_foldl_expose {id a : ℤ} {keys : List String} {aliases : OrdMap String String}
    (h : (keys.foldl (fun m key => m.expose id key key) m).exposedProperties.find? a = some aliases) :
    a = id ∨ m.exposedProperties.find? a = some aliases := by
  induction keys generalizing m with
  | nil => exact Or.inr h
  | cons key keys ih =>
    rcases ih h with heq | hexposed
    · exact Or.inl heq
    · unfold expose at hexposed
      rw [OrdMap.find?_insert] at hexposed
      split_ifs at hexposed with heq
      · exact Or.inl heq
      · exact Or.inr hexposed

theorem exposed_addAction {id a : ℤ} {action : Action ω} {bs : List OutputBinding} {aliases : OrdMap String String}
    (hid : Accepts id) (h : (m.addAction id action bs).exposedProperties.find? a = some aliases) :
    a = id ∨ m.exposedProperties.find? a = some aliases := by
  have hnot : ¬(wrapperOf id = none ∧ id < 0) := by
    rintro ⟨hwrapper, hneg⟩
    rcases hid with hwrapped | hpos
    · exact hwrapped hwrapper
    · omega
  unfold addAction at h
  rw [if_neg hnot] at h
  simp only at h
  exact (exposed_of_foldl_expose h).imp_right fun hold => hold

theorem Built.registered_of_exposed (h : Built m) {a : ℤ} {aliases : OrdMap String String}
    (hexposed : m.exposedProperties.find? a = some aliases) : m.Registered a := by
  induction h with
  | new => cases hexposed
  | @addAction m _ id action bs ih =>
    by_cases hid : Accepts id
    · rcases exposed_addAction hid hexposed with rfl | hold
      · exact ⟨_, (find?_addAction hid action bs a).trans (if_pos rfl)⟩
      · exact registered_addAction action bs (ih hold)
    · rw [addAction_of_not_accepts hid] at hexposed ⊢
      exact ih hexposed
  | addInput _ input ih => exact ih hexposed

def innerInput (m : StateMachine ω) (start : InputBinding) : Option PutDefinition :=
  (m.actions.find? start.actionId).bind (·.getInputs.find? start.actionInput)

def innerOutput (m : StateMachine ω) (ender : OutputBinding) : Option PutDefinition :=
  (m.actions.find? ender.fromActionId).bind (·.getOutputs.find? ender.fromActionOutput)

/-- The names declared after one more starter: that of the definition it leads to, if its outer name is not
one yet, else its own inner name. -/
def nameInput (m : StateMachine ω) (names : List String) (start : InputBinding) : List String :=
  match m.innerInput start with
  | some put =>
    if start.workflowInput ∈ names then start.actionInput :: names
    else if start.actionInput = "" then names
    else put.putName :: names
  | none => names

def Named (m : StateMachine ω) (pre : List InputBinding) (key : String) : Prop := key ∈ pre.foldl m.nameInput []

theorem not_named_nil {key : String} : ¬m.Named [] key := List.not_mem_nil

theorem named_append_singleton {pre : List InputBinding} {start : InputBinding} {key : String} :
    m.Named (pre ++ [start]) key ↔ key ∈ m.nameInput (pre.foldl m.nameInput []) start := by
  rw [Named, List.foldl_append]
  rfl

theorem named_append_of_none {pre : List InputBinding} {start : InputBinding} {key : String}
    (hnone : m.innerInput start = none) : m.Named (pre ++ [start]) key ↔ m.Named pre key := by
  rw [named_append_singleton, nameInput, hnone]
  rfl

theorem named_append_of_some {pre : List InputBinding} {start : InputBinding} {key : String} {put : PutDefinition}
    (hput : m.innerInput start = some put) : m.Named (pre ++ [start]) key ↔
      (m.Named pre start.workflowInput ∧ key = start.actionInput) ∨
        (¬m.Named pre start.workflowInput ∧ start.actionInput ≠ "" ∧ key = put.putName) ∨ m.Named pre key := by
  rw [named_append_singleton, nameInput, hput]
  unfold Named
  by_cases hout : start.workflowInput ∈ pre.foldl m.nameInput []
  · simp [hout]
  · by_cases hempty : start.actionInput = ""
    · simp [hout, hempty]
    · simp [hout, hempty]

end StateMachine

namespace ExecuteWorkflow

variable {ω : Type} {m : StateMachine ω}

open StateMachine

theorem addStarter_cases {start : InputBinding} (hreg : m.Registered start.actionId)
    (inputs : OrdMap String PutDefinition) :
    (inputs.contains start.workflowInput = false ∧ start.actionInput = "" ∧
        addStarter m inputs start = .ok inputs) ∨
      (¬(inputs.contains start.workflowInput = false ∧ start.actionInput = "") ∧ m.innerInput start = none ∧
        ∃ e, addStarter m inputs start = .error e) ∨
      ∃ put, m.innerInput start = some put ∧
        ((inputs.contains start.workflowInput = false ∧ start.actionInput ≠ "" ∧
            addStarter m inputs start = .ok (inputs.insert put.putName put)) ∨
          (inputs.contains start.workflowInput = true ∧
            addStarter m inputs start = .ok (inputs.insert start.actionInput
              (((inputs.find? start.actionInput).getD PutDefinition.empty).strictest put)))) := by
  obtain ⟨act, hact⟩ := hreg
  unfold addStarter innerInput
  simp only [hact, Option.bind_some]
  cases hcontains : inputs.contains start.workflowInput with
  | false =>
    by_cases hempty : start.actionInput = ""
    · simp [hempty]
    · have hisEmpty : start.actionInput.isEmpty = false := by
        rw [← Bool.not_eq_true, String.isEmpty_iff]
        exact hempty
      cases hfind : act.getInputs.find? start.actionInput with
      | none => simp [hempty, hisEmpty]
      | some put => simp [hempty, hisEmpty]
  | true =>
    cases hfind : act.getInputs.find? start.actionInput with
    | none => simp
    | some put => simp

theorem addEnder_cases {ender : OutputBinding} (hreg : m.Registered ender.fromActionId)
    (outputs : OrdMap String PutDefinition) :
    (m.innerOutput ender = none ∧ ∃ e, addEnder m outputs ender = .error e) ∨
      ∃ put, m.innerOutput ender = some put ∧
        ((outputs.contains ender.fromActionOutput = false ∧
            addEnder m outputs ender = .ok (outputs.insert put.putName put)) ∨
          (outputs.contains ender.fromActionOutput = true ∧
            addEnder m outputs ender = .ok (outputs.insert ender.fromActionOutput
              (((outputs.find? ender.fromActionOutput).getD PutDefinition.empty).strictest put)))) := by
  obtain ⟨act, hact⟩ := hreg
  unfold addEnder innerOutput
  simp only [hact, Option.bind_some]
  cases hfind : act.getOutputs.find? ender.fromActionOutput with
  | none => simp
  | some put =>
    cases hcontains : outputs.contains ender.fromActionOutput with
    | false => simp
    | true => simp

/-- The inputs are declared under the names of the starters so far. -/
def NamesDeclared (m : StateMachine ω) (pre : List InputBinding) (inputs : OrdMap String PutDefinition) : Prop :=
  ∀ key, inputs.contains key = true ↔ m.Named pre key

theorem namesDeclared_empty : NamesDeclared m [] ∅ := fun _ => iff_of_false (fun h => by cases h) not_named_nil

theorem contains_insert {α : Type} (inputs : OrdMap String α) (name key : String) (a : α) :
    (inputs.insert name a).contains key = true ↔ key = name ∨ inputs.contains key = true := by
  simp only [OrdMap.contains_iff, OrdMap.find?_insert]
  split_ifs with h
  · simp [h]
  · simp [h]

/-- The condition of a turn: the starter is passed over, or its input is declared. -/
def TurnSucceeds (m : StateMachine ω) (pre : List InputBinding) (start : InputBinding) : Prop :=
  (start.actionInput ≠ "" ∨ m.Named pre start.workflowInput) → ∃ put, m.innerInput start = some put

theorem addStarter_names {start : InputBinding} {pre : List InputBinding} {inputs : OrdMap String PutDefinition}
    (hreg : m.Registered start.actionId) (hinputs : NamesDeclared m pre inputs) (hcond : TurnSucceeds m pre start) :
    ∃ inputs', addStarter m inputs start = .ok inputs' ∧ NamesDeclared m (pre ++ [start]) inputs' := by
  have hout : inputs.contains start.workflowInput = false ↔ ¬m.Named pre start.workflowInput := by
    rw [← hinputs, Bool.not_eq_true]
  rcases addStarter_cases hreg inputs with ⟨hnew, hempty, hok⟩ | ⟨hadded, hnone, -⟩ | ⟨put, hput, hcases⟩
  · refine ⟨inputs, hok, fun key => (hinputs key).trans ?_⟩
    cases hput : m.innerInput start with
    | none => exact (named_append_of_none hput).symm
    | some put => simp [named_append_of_some hput, hout.mp hnew, hempty]
  · rw [hout, not_and_or, not_not, or_comm] at hadded
    obtain ⟨put, hput⟩ := hcond hadded
    rw [hnone] at hput
    cases hput
  · rcases hcases with ⟨hnew, hne, hok⟩ | ⟨hold, hok⟩
    · refine ⟨_, hok, fun key => ?_⟩
      rw [contains_insert, named_append_of_some hput, hinputs]
      simp [hout.mp hnew, hne]
    · refine ⟨_, hok, fun key => ?_⟩
      rw [contains_insert, named_append_of_some hput, hinputs]
      simp [(hinputs _).mp hold]

theorem addStarter_fails {start : InputBinding} {pre : List InputBinding} {inputs : OrdMap String PutDefinition}
    (hreg : m.Registered start.actionId) (hinputs : NamesDeclared m pre inputs) (hcond : ¬TurnSucceeds m pre start) :
    ∃ e, addStarter m inputs start = .error e := by
  simp only [TurnSucceeds, Classical.not_imp, not_exists] at hcond
  rcases addStarter_cases hreg inputs with ⟨hout, hempty, -⟩ | ⟨-, -, herror⟩ | ⟨put, hput, -⟩
  · rcases hcond.1 with hne | hnamed
    · exact absurd hempty hne
    · rw [(hinputs _).mpr hnamed] at hout
      cases hout
  · exact herror
  · exact absurd hput (hcond.2 put)

/-- The inputs of a target are declared if and only if every turn succeeds. -/
theorem declareInputs_iff (hstarters : ∀ start ∈ m.starters, m.Registered start.actionId) :
    ((∃ inputs, m.starters.foldlM (addStarter m) ∅ = .ok inputs) ↔
        ∀ pre start post, m.starters = pre ++ start :: post → TurnSucceeds m pre start) ∧
      ∀ inputs, m.starters.foldlM (addStarter m) ∅ = .ok inputs → NamesDeclared m m.starters inputs := by
  have hloop := foldlM_succeeds_iff (f := addStarter m) (I := NamesDeclared m) (C := TurnSucceeds m)
    (l := m.starters) namesDeclared_empty (fun pre start inputs hmem => addStarter_names (hstarters start hmem))
    (fun pre start inputs hmem => addStarter_fails (hstarters start hmem))
  simpa only [List.nil_append] using hloop

theorem getEnders_registered (hm : Constructed m) : ∀ ender ∈ m.getEnders, m.Registered ender.fromActionId := by
  intro ender hmem
  obtain ⟨⟨a, outputs⟩, hentry, hender⟩ := List.mem_flatMap.mp (List.mem_of_mem_filter hmem)
  have hbinding : ender ∈ m.bindings a := by
    rw [bindings, OrdMap.find?_eq_some_iff.mpr hentry]
    exact hender
  rw [(Extends.laidOut hm laidOut_new).ownBindings a ender hbinding]
  exact hm.laid.source ⟨ender, hbinding, rfl⟩

theorem declareOutputs_iff (hm : Constructed m) :
    (∃ outputs, m.getEnders.foldlM (addEnder m) ∅ = .ok outputs) ↔
      ∀ ender ∈ m.getEnders, ∃ put, m.innerOutput ender = some put := by
  have hloop := foldlM_succeeds_iff (f := addEnder m) (I := fun _ _ => True) (C := fun _ ender =>
      ∃ put, m.innerOutput ender = some put) (l := m.getEnders) (b := ∅) (d := []) trivial
    (fun pre ender outputs hmem _ hcond => ?_) (fun pre ender outputs hmem _ hcond => ?_)
  · rw [hloop.1]
    refine ⟨fun h ender hmem => ?_, fun h pre ender post heq => h ender (by simp [heq])⟩
    obtain ⟨pre, post, heq⟩ := List.append_of_mem hmem
    exact h pre ender post heq
  · obtain ⟨put, hput⟩ := hcond
    rcases addEnder_cases (getEnders_registered hm ender hmem) outputs with ⟨hnone, -⟩ | ⟨put', -, hcases⟩
    · rw [hput] at hnone
      cases hnone
    · rcases hcases with ⟨-, hok⟩ | ⟨-, hok⟩
      · exact ⟨_, hok, trivial⟩
      · exact ⟨_, hok, trivial⟩
  · rcases addEnder_cases (getEnders_registered hm ender hmem) outputs with ⟨-, herror⟩ | ⟨put, hput, -⟩
    · exact herror
    · exact absurd ⟨put, hput⟩ hcond

theorem exposeProperties_succeeds (hm : Built m) (own : PropertySet) :
    ∃ own', m.exposedProperties.entries.foldlM (addExposed m) own = .ok own' := by
  have hloop := foldlM_succeeds (f := addExposed m) (P := fun _ => True) (l := m.exposedProperties.entries)
    (b := own) trivial fun own kv hmem _ => ?_
  · obtain ⟨own', hown, -⟩ := hloop
    exact ⟨own', hown⟩
  · obtain ⟨act, hact⟩ := hm.registered_of_exposed (OrdMap.find?_eq_some_iff.mpr hmem)
    unfold addExposed
    rw [hact]
    exact ⟨_, rfl, trivial⟩

/-- `prepare` configures the action if and only if the target has the interface it looks up. -/
theorem configure_succeeds_iff (hm : Built m) (hstarters : ∀ start ∈ m.starters, m.Registered start.actionId)
    (a : ExecuteWorkflow) : (∃ a', configure m a = .ok a') ↔
      (∀ pre start post, m.starters = pre ++ start :: post → TurnSucceeds m pre start) ∧
        ∀ ender ∈ m.getEnders, ∃ put, m.innerOutput ender = some put := by
  rw [← (declareInputs_iff hstarters).1, ← declareOutputs_iff hm.constructed]
  obtain ⟨properties, hproperties⟩ := exposeProperties_succeeds hm a.properties
  unfold configure interface
  constructor
  · rintro ⟨a', h⟩
    obtain ⟨⟨inputs, outputs⟩, hinterface, -⟩ := bind_eq_ok.mp h
    obtain ⟨inputs', hinputs, h'⟩ := bind_eq_ok.mp hinterface
    obtain ⟨outputs', houtputs, -⟩ := bind_eq_ok.mp h'
    exact ⟨⟨inputs', hinputs⟩, ⟨outputs', houtputs⟩⟩
  · rintro ⟨⟨inputs, hinputs⟩, ⟨outputs, houtputs⟩⟩
    rw [hinputs, ok_bind, houtputs, ok_bind]
    refine ⟨{ a with inputs := inputs, outputs := outputs, properties := properties }, ?_⟩
    show (m.exposedProperties.entries.foldlM (addExposed m) a.properties >>= _) = _
    rw [hproperties]
    rfl

theorem prepare_of_target {controllers : Controllers ω} {a : ExecuteWorkflow} {session : Option Session}
    (hstill : ¬a.stillPrepared session = true) (htarget : a.target? controllers session = some m) :
    a.prepare controllers session = configure m { a with prepared := false } >>= fun configured =>
      .ok ({ configured with prepared := true }, session.map fun s =>
        a.remember s (a.stringProperty session "controller") (a.stringProperty session "workflow"), true) := by
  unfold prepare
  rw [if_neg hstill, htarget]
  rfl

theorem prepareLogged_eq_ok_iff {stateMachine : Option (StateMachine ω)} {controllers : Controllers ω}
    {a : ExecuteWorkflow} {session : Option Session} {result : ExecuteWorkflow × Option Session × Bool} :
    a.prepareLogged stateMachine controllers session = .ok result ↔
      (a.stillPrepared session = true ∨ (session.isSome = true → stateMachine.isSome = true)) ∧
        a.prepare controllers session = .ok result := by
  unfold prepareLogged
  cases a.stillPrepared session <;> cases session <;> cases stateMachine <;> simp

/-- On a target that a controller accepted, which has its starters at registered actions whatever else
`validate` was told, `prepare` returns true if and only if the action is prepared for it already, or it has a
machine or no session is given, every starter that names an inner input or whose outer name is declared leads
to an input that its action declares, and every binding to Finish starts from an output that its action
declares. -/
theorem prepare_adapts_iff (hm : Built m) (hstarters : ∀ start ∈ m.starters, m.Registered start.actionId)
    {controllers : Controllers ω} {a : ExecuteWorkflow} {session : Option Session}
    (htarget : a.target? controllers session = some m) (stateMachine : Option (StateMachine ω)) :
    (∃ a' session', a.prepareLogged stateMachine controllers session = .ok (a', session', true)) ↔
      a.stillPrepared session = true ∨ ((session.isSome = true → stateMachine.isSome = true) ∧
        (∀ pre start post, m.starters = pre ++ start :: post → TurnSucceeds m pre start) ∧
          ∀ ender ∈ m.getEnders, ∃ put, m.innerOutput ender = some put) := by
  simp only [prepareLogged_eq_ok_iff]
  by_cases hstill : a.stillPrepared session = true
  · exact iff_of_true ⟨a, session, .inl hstill, if_pos hstill⟩ (Or.inl hstill)
  · simp only [prepare_of_target hstill htarget, or_iff_right hstill,
      ← configure_succeeds_iff hm hstarters { a with prepared := false }]
    constructor
    · rintro ⟨a', session', hlogs, h⟩
      obtain ⟨configured, hconfigured, -⟩ := bind_eq_ok.mp h
      exact ⟨hlogs, configured, hconfigured⟩
    · rintro ⟨hlogs, configured, hconfigured⟩
      exact ⟨_, _, hlogs, by rw [hconfigured, ok_bind]⟩

/-- A controller manager with one controller, which has one workflow. -/
def serving (m : StateMachine ω) : Controllers ω :=
  (∅ : Controllers ω).insert "default" ((∅ : OrdMap String (StateMachine ω)).insert "other" m)

def calling : ExecuteWorkflow := ofTarget 1 "default" "other"

/-- An action without inputs, and then one with an output that is the result. -/
def relaying : StateMachine Unit :=
  ((StateMachine.new.init.addAction 0 (Sample.returning .done) [Sample.leadTo 2]).addAction 2 Sample.skipping
    [bindingTo 2 "skip" Step.finish.id "skip"]).addInput ⟨"", 0, ""⟩

def forwarding (mandatory : Bool) : Action Unit :=
  .ofPerform "Sample"
    ((∅ : OrdMap String PutDefinition).insert "in" ⟨"in", "", "Sample", fun _ => true, mandatory, true, false⟩)
    ((∅ : OrdMap String PutDefinition).insert "skip" ⟨"skip", "", "Sample", fun _ => true, false, true, true⟩)
    fun id env s => { Outcome.ofResult env s ⟨id, .done, none⟩ with outputs := [("skip", some .skip)] }

def merging : StateMachine Unit :=
  (((StateMachine.new.init.addAction 0 (forwarding true) [Sample.leadTo 2]).addAction 2 (forwarding false)
    [bindingTo 2 "skip" Step.finish.id "skip"]).addInput ⟨"in", 0, "in"⟩).addInput ⟨"in", 2, "in"⟩

theorem merging_built : merging.Built := .addInput (.addInput (.addAction (.addAction .init _ _ _) _ _ _) _) _

theorem mem_starters_merging {start : InputBinding} (h : start ∈ merging.starters) :
    start = ⟨"in", 0, "in"⟩ ∨ start = ⟨"in", 2, "in"⟩ := by
  have hstarters : merging.starters = [⟨"in", 0, "in"⟩, ⟨"in", 2, "in"⟩] := rfl
  simpa [hstarters] using h

theorem mem_getEnders_merging {ender : OutputBinding} (h : ender ∈ merging.getEnders) :
    ender = bindingTo 2 "skip" Step.finish.id "skip" := List.mem_singleton.mp h

theorem registered_merging {start : InputBinding} (h : start ∈ merging.starters) :
    merging.Registered start.actionId := by
  rcases mem_starters_merging h with rfl | rfl
  · exact ⟨_, rfl⟩
  · exact ⟨_, rfl⟩

theorem merging_adapts :
    ∃ a' session', calling.prepareLogged (some merging) (serving merging)
      (some (Session.ofRequest (Sample.request .defaultAction 0 0))) = .ok (a', session', true) := by
  refine (prepare_adapts_iff merging_built (fun start hmem => registered_merging hmem) rfl _).mpr
    (.inr ⟨fun _ => rfl, fun pre start post heq _ => ?_, fun ender hmem => ?_⟩)
  · have hmem : start ∈ merging.starters := by simp [heq]
    rcases mem_starters_merging hmem with rfl | rfl
    · exact ⟨_, rfl⟩
    · exact ⟨_, rfl⟩
  · rw [mem_getEnders_merging hmem]
    exact ⟨_, rfl⟩

/-- The default layout with an action that ends it: it is valid, and its binding to Finish names no output. -/
theorem plain_target_throws : (Sample.single .done).Built ∧ (Sample.single .done).validate = none ∧
    calling.target? (serving (Sample.single .done)) none = some (Sample.single .done) ∧
    ∃ e, calling.prepareLogged (some Sample.chain) (serving (Sample.single .done)) none = .error e :=
  ⟨.addInput (.addAction .init _ _ _) _, by decide +kernel, rfl, ⟨.output 0 "", rfl⟩⟩

end ExecuteWorkflow

end LibWorkflow
