import LibWorkflow.Actions.Adapting
import LibWorkflow.Flow.Data

/-!
# The interface of a target

A starter and a binding to Finish each have a name outside the workflow and one inside. `prepare` declares the
inputs and the outputs of the action under the names inside; requests and replies carry contexts under the
names outside. The action has the interface of its target where both come to the same names, and no mandatory
input is lost when the inner name of an input is declared anew (`interface_exposed_iff`).
-/

namespace LibWorkflow

open Ordered Fallible

namespace StateMachine

variable {ω : Type} {m : StateMachine ω}

/-- The names declared after one more binding to Finish: that of the definition it starts from, if the name it
has for it is not one yet. -/
def nameOutput (m : StateMachine ω) (names : List String) (ender : OutputBinding) : List String :=
  match m.innerOutput ender with
  | some put => if ender.fromActionOutput ∈ names then names else put.putName :: names
  | none => names

/-- After these bindings to Finish an output is declared under this name. -/
def OutputNamed (m : StateMachine ω) (pre : List OutputBinding) (key : String) : Prop :=
  key ∈ pre.foldl m.nameOutput []

theorem outputNamed_append_singleton {pre : List OutputBinding} {ender : OutputBinding} {key : String}
    {put : PutDefinition} (hput : m.innerOutput ender = some put) : m.OutputNamed (pre ++ [ender]) key ↔
      (¬m.OutputNamed pre ender.fromActionOutput ∧ key = put.putName) ∨ m.OutputNamed pre key := by
  unfold OutputNamed
  rw [List.foldl_append]
  by_cases hold : ender.fromActionOutput ∈ pre.foldl m.nameOutput []
  · simp [nameOutput, hput, hold]
  · simp [nameOutput, hput, hold]

def LeadsToOptional (m : StateMachine ω) (start : InputBinding) : Prop :=
  ∃ put, m.innerInput start = some put ∧ put.mandatory = false

def LeadsToMandatory (m : StateMachine ω) (start : InputBinding) : Prop :=
  ∃ put, m.innerInput start = some put ∧ put.mandatory = true

/-- The starter declares this name anew, its outer name not being one yet. -/
def DeclaresAnew (m : StateMachine ω) (pre : List InputBinding) (start : InputBinding) (key : String) : Prop :=
  ¬m.Named pre start.workflowInput ∧ start.actionInput ≠ "" ∧
    ∃ put, m.innerInput start = some put ∧ put.putName = key

/-- The starter merges what it leads to with what is declared under this name. -/
def Merges (m : StateMachine ω) (pre : List InputBinding) (start : InputBinding) (key : String) : Prop :=
  m.Named pre start.workflowInput ∧ start.actionInput = key

/-- One starter declares the name anew, for an optional input, and from there on the name stands for optional
inputs only. -/
def Slack (m : StateMachine ω) (pre : List InputBinding) (key : String) : Prop :=
  ∃ before start after, pre = before ++ start :: after ∧ m.DeclaresAnew before start key ∧
    m.LeadsToOptional start ∧ ∀ mid other rest, after = mid ++ other :: rest →
      m.DeclaresAnew (before ++ start :: mid) other key ∨ m.Merges (before ++ start :: mid) other key →
        m.LeadsToOptional other

def FedToSeveral (m : StateMachine ω) (key : String) : Prop :=
  2 ≤ (m.starters.filter fun start => start.workflowInput = key ∧ start.actionInput ≠ "").length

theorem not_slack_nil {key : String} : ¬m.Slack [] key := by
  rintro ⟨before, start, after, heq, -⟩
  simp at heq

theorem slack_append_singleton {pre : List InputBinding} {start : InputBinding} {key : String} :
    m.Slack (pre ++ [start]) key ↔ (m.DeclaresAnew pre start key ∧ m.LeadsToOptional start) ∨
      (m.Slack pre key ∧ (m.DeclaresAnew pre start key ∨ m.Merges pre start key → m.LeadsToOptional start)) := by
  unfold Slack
  rw [exists_split_append_singleton]
  refine or_congr ?_ ?_
  · refine and_congr_right fun _ => and_iff_left fun mid other rest heq => ?_
    simp at heq
  · constructor
    · rintro ⟨before, found, after, rfl, hnew, hoptional, hrest⟩
      rw [forall_split_append_singleton] at hrest
      exact ⟨⟨before, found, after, rfl, hnew, hoptional, hrest.2⟩, hrest.1⟩
    · rintro ⟨⟨before, found, after, rfl, hnew, hoptional, hrest⟩, hlast⟩
      exact ⟨before, found, after, rfl, hnew, hoptional, forall_split_append_singleton.mpr ⟨hlast, hrest⟩⟩

end StateMachine

namespace ExecuteWorkflow

variable {ω : Type} {m : StateMachine ω}

open StateMachine

/-! ### Inputs -/

/-- What is declared after these starters: the names, and which inputs need not be given. -/
structure InputsDeclared (m : StateMachine ω) (pre : List InputBinding) (inputs : OrdMap String PutDefinition) :
    Prop where
  names : NamesDeclared m pre inputs
  optional : ∀ key, ((inputs.find? key).getD PutDefinition.empty).mandatory = false ↔ m.Slack pre key

theorem inputsDeclared_empty : InputsDeclared m [] ∅ where
  names := namesDeclared_empty
  optional _ := iff_of_false (fun h => by cases h) not_slack_nil

theorem getD_find?_insert (inputs : OrdMap String PutDefinition) (name key : String) (put : PutDefinition) :
    (((inputs.insert name put).find? key).getD PutDefinition.empty) =
      if key = name then put else (inputs.find? key).getD PutDefinition.empty := by
  rw [OrdMap.find?_insert]
  split_ifs
  · rfl
  · rfl

theorem addStarter_inputs {start : InputBinding} {pre : List InputBinding}
    {inputs inputs' : OrdMap String PutDefinition} (hreg : m.Registered start.actionId)
    (hinputs : InputsDeclared m pre inputs) (hok : addStarter m inputs start = .ok inputs') (key : String) :
    ((inputs'.find? key).getD PutDefinition.empty).mandatory = false ↔ m.Slack (pre ++ [start]) key := by
  rw [slack_append_singleton, ← hinputs.optional key]
  rcases addStarter_cases hreg inputs with ⟨hnew, hempty, heq⟩ | ⟨-, -, e, heq⟩ | ⟨put, hput, hcases⟩
  · cases hok.symm.trans heq
    have hnamed : ¬m.Named pre start.workflowInput := by
      rw [← hinputs.names, hnew]
      exact Bool.false_ne_true
    simp [DeclaresAnew, Merges, hempty, hnamed]
  · cases hok.symm.trans heq
  · have hoptional : m.LeadsToOptional start ↔ put.mandatory = false := by
      unfold LeadsToOptional
      simp [hput]
    rcases hcases with ⟨hout, hne, heq⟩ | ⟨hout, heq⟩
    · -- the input is declared anew
      cases hok.symm.trans heq
      have hnamed : ¬m.Named pre start.workflowInput := by
        rw [← hinputs.names, hout]
        exact Bool.false_ne_true
      have hanew : m.DeclaresAnew pre start key ↔ key = put.putName := by
        simp [DeclaresAnew, hnamed, hne, hput, eq_comm]
      have hmerges : ¬m.Merges pre start key := fun h => hnamed h.1
      rw [getD_find?_insert, hanew, hoptional]
      split_ifs with hkey
      · simp [hkey]
      · simp [hkey, hmerges]
    · -- it is merged with what is declared
      cases hok.symm.trans heq
      have hnamed : m.Named pre start.workflowInput := (hinputs.names _).mp hout
      have hanew : ¬m.DeclaresAnew pre start key := fun h => h.1 hnamed
      have hmerges : m.Merges pre start key ↔ key = start.actionInput := by
        simp [Merges, hnamed, eq_comm]
      rw [getD_find?_insert, hmerges, hoptional]
      split_ifs with hkey
      · simp [PutDefinition.strictest, hkey ▸ hanew, hkey]
      · simp [hanew, hkey]

theorem inputs_declared (hstarters : ∀ start ∈ m.starters, m.Registered start.actionId)
    {inputs : OrdMap String PutDefinition} (h : m.starters.foldlM (addStarter m) ∅ = .ok inputs) :
    InputsDeclared m m.starters inputs := by
  have hloop := foldlM_succeeds_iff (f := addStarter m) (I := InputsDeclared m) (C := TurnSucceeds m)
    (l := m.starters) inputsDeclared_empty (fun pre start inputs hmem hinputs hcond => ?_)
    (fun pre start inputs hmem hinputs => addStarter_fails (hstarters start hmem) hinputs.names)
  · exact hloop.2 inputs h
  · obtain ⟨inputs', hok, hnames⟩ := addStarter_names (hstarters start hmem) hinputs.names hcond
    exact ⟨inputs', hok, hnames, addStarter_inputs (hstarters start hmem) hinputs hok⟩

/-- No mandatory input that is fed to several is lost if and only if none of their names is slack. -/
theorem InputsDeclared.mandatory_iff {inputs : OrdMap String PutDefinition}
    (h : InputsDeclared m m.starters inputs) :
    (∀ key put, key ≠ "" → inputs.find? key = some put → m.FedToSeveral key →
        (∃ start ∈ m.starters, start.workflowInput = key ∧ m.LeadsToMandatory start) → put.mandatory = true) ↔
      ∀ key, key ≠ "" → m.FedToSeveral key →
        (∃ start ∈ m.starters, start.workflowInput = key ∧ m.LeadsToMandatory start) → ¬m.Slack m.starters key := by
  constructor
  · intro hflags key hkey hfed hsome hslack
    have hoptional := (h.optional key).mpr hslack
    cases hput : inputs.find? key with
    | none =>
      rw [hput] at hoptional
      cases hoptional
    | some put =>
      rw [hput, Option.getD_some, hflags key put hkey hput hfed hsome] at hoptional
      cases hoptional
  · intro hslack key put hkey hput hfed hsome
    have hoptional := (h.optional key).not.mpr (hslack key hkey hfed hsome)
    rwa [hput, Option.getD_some, Bool.not_eq_false] at hoptional

/-! ### Outputs -/

/-- The outputs are declared under the names of the bindings so far. -/
def OutputsDeclared (m : StateMachine ω) (pre : List OutputBinding) (outputs : OrdMap String PutDefinition) : Prop :=
  ∀ key, outputs.contains key = true ↔ m.OutputNamed pre key

theorem outputsDeclared_empty : OutputsDeclared m [] ∅ := fun _ => iff_of_false (fun h => by cases h) List.not_mem_nil

theorem outputs_declared (hm : Constructed m) {outputs : OrdMap String PutDefinition}
    (h : m.getEnders.foldlM (addEnder m) ∅ = .ok outputs) : OutputsDeclared m m.getEnders outputs := by
  have hloop := foldlM_succeeds_iff (f := addEnder m) (I := OutputsDeclared m)
    (C := fun _ ender => ∃ put, m.innerOutput ender = some put) (l := m.getEnders) outputsDeclared_empty
    (fun pre ender outputs hmem houtputs hcond => ?_) (fun pre ender outputs hmem _ hcond => ?_)
  · exact hloop.2 outputs h
  · have hreg := getEnders_registered hm ender hmem
    rcases addEnder_cases hreg outputs with ⟨hnone, -⟩ | ⟨put, hput, ⟨hout, hok⟩ | ⟨hout, hok⟩⟩
    · obtain ⟨put, hput⟩ := hcond
      rw [hnone] at hput
      cases hput
    · have hnamed : ¬m.OutputNamed pre ender.fromActionOutput := by
        rw [← houtputs, hout]
        exact Bool.false_ne_true
      refine ⟨_, hok, fun key => ?_⟩
      rw [contains_insert, outputNamed_append_singleton hput, houtputs, and_iff_right hnamed]
    · have hnamed : m.OutputNamed pre ender.fromActionOutput := (houtputs _).mp hout
      refine ⟨_, hok, fun key => ?_⟩
      rw [contains_insert, outputNamed_append_singleton hput, houtputs]
      constructor
      · rintro (rfl | hold)
        · exact .inr hnamed
        · exact .inr hold
      · rintro (⟨hnot, -⟩ | hold)
        · exact absurd hnamed hnot
        · exact .inr hold
  · rcases addEnder_cases (getEnders_registered hm ender hmem) outputs with ⟨-, herror⟩ | ⟨put, hput, -⟩
    · exact herror
    · exact absurd ⟨put, hput⟩ hcond

/-! ### The two sides -/

theorem getContext_foldl_setContext {names : List String} {value : String → Option Context} {reply : Request}
    {key : String} {ctx : Context}
    (h : (names.foldl (fun reply name => reply.setContext name (value name)) reply).getContext key = some ctx) :
    key ∈ names ∨ reply.getContext key = some ctx := by
  induction names generalizing reply with
  | nil => exact Or.inr h
  | cons name names ih =>
    rcases ih h with hmem | hfirst
    · exact Or.inl (List.mem_cons_of_mem _ hmem)
    · cases hvalue : value name with
      | none =>
        simp only [hvalue, Request.setContext] at hfirst
        exact Or.inr hfirst
      | some found =>
        simp only [hvalue, Request.getContext, Request.setContext] at hfirst
        rw [OrdMap.find?_insert] at hfirst
        split_ifs at hfirst with hkey
        · exact Or.inl (hkey ▸ List.mem_cons_self)
        · exact Or.inr hfirst

theorem exists_ender_of_reply {ptr : ActionPtr ω} {s : Session} {key : String} {ctx : Context}
    (h : (ptr.finishReply m.getExpectedOutput s).getContext key = some ctx) :
    ∃ ender ∈ m.getEnders, ender.toActionInput = key := by
  rcases getContext_foldl_setContext h with hmem | hnone
  · obtain ⟨output, houtput, hsome⟩ := List.mem_filterMap.mp hmem
    rw [Option.ite_none_right_eq_some] at hsome
    exact ⟨output, List.mem_filter.mpr ⟨houtput, by simpa using hsome.1⟩, by simpa using hsome.2⟩
  · cases hnone

theorem report_foldl_setContext (names : List String) (value : String → Option Context) (reply : Request) :
    (names.foldl (fun reply name => reply.setContext name (value name)) reply).report = reply.report := by
  induction names generalizing reply with
  | nil => rfl
  | cons name names ih =>
    rw [List.foldl_cons, ih]
    cases hvalue : value name with
    | none => rfl
    | some found => rfl

theorem mem_setOutputs_of_reply {generate : PutDefinition → Context} {a : ExecuteWorkflow} {s s' : Session}
    {ptr : ActionPtr ω} {name : String} {ctx : Option Context}
    (h : (name, ctx) ∈ (a.replyReceived generate s (ptr.finishReply m.getExpectedOutput s')).2) :
    ∃ found, (ptr.finishReply m.getExpectedOutput s').getContext name = some found := by
  have hreport : (ptr.finishReply m.getExpectedOutput s').report = none := report_foldl_setContext _ _ _
  unfold replyReceived at h
  rw [hreport] at h
  cases hsync : a.boolProperty (some s) "sync" with
  | false => simp [hsync] at h
  | true =>
    simp only [hsync, Bool.not_true, Bool.false_eq_true, if_false] at h
    obtain ⟨⟨key, found⟩, hentry, heq⟩ := List.mem_map.mp h
    cases heq
    exact ⟨found, OrdMap.find?_eq_some_iff.mpr hentry⟩

theorem interface_of_prepare {controllers : Controllers ω} {a a' : ExecuteWorkflow}
    {session session' : Option Session}
    (hstill : a.stillPrepared session = false) (htarget : a.target? controllers session = some m)
    (h : a.prepare controllers session = .ok (a', session', true)) : interface m = .ok (a'.inputs, a'.outputs) := by
  rw [prepare_of_target (by rw [hstill]; exact Bool.false_ne_true) htarget] at h
  obtain ⟨configured, hconfigured, hresult⟩ := bind_eq_ok.mp h
  cases hresult
  unfold configure at hconfigured
  obtain ⟨⟨inputs, outputs⟩, hinterface, hrest⟩ := bind_eq_ok.mp hconfigured
  obtain ⟨properties, -, hconfigured⟩ := bind_eq_ok.mp hrest
  cases hconfigured
  exact hinterface

/-- Where `prepare` succeeds on a target, the action has the interface of the target: its inputs have the outer
names of the starters, its outputs the names a reply has its contexts under, which `setOutput` takes then, and
an input that is fed to several is mandatory if one of them is. This is so exactly where the names that are
declared are the non-empty names outside, and no name of a mandatory input that is fed to several is slack. -/
theorem interface_exposed_iff (hm : Constructed m) (hstarters : ∀ start ∈ m.starters, m.Registered start.actionId)
    {controllers : Controllers ω} {a a' : ExecuteWorkflow} {session session' : Option Session}
    (hstill : a.stillPrepared session = false) (htarget : a.target? controllers session = some m)
    (h : a.prepare controllers session = .ok (a', session', true)) :
    ((∀ key, a'.inputs.contains key = true ↔ key ≠ "" ∧ ∃ start ∈ m.starters, start.workflowInput = key) ∧
        (∀ key, a'.outputs.contains key = true ↔ key ≠ "" ∧ ∃ ender ∈ m.getEnders, ender.toActionInput = key) ∧
        (∀ key put, key ≠ "" → a'.inputs.find? key = some put → m.FedToSeveral key →
          (∃ start ∈ m.starters, start.workflowInput = key ∧ m.LeadsToMandatory start) → put.mandatory = true) ∧
        ∀ generate s (ptr : ActionPtr ω) s' name ctx,
          (name, ctx) ∈ (a'.replyReceived generate s (ptr.finishReply m.getExpectedOutput s')).2 →
            a'.takesOutput name = true) ↔
      (∀ key, m.Named m.starters key ↔ key ≠ "" ∧ ∃ start ∈ m.starters, start.workflowInput = key) ∧
        (∀ key, m.OutputNamed m.getEnders key ↔ key ≠ "" ∧ ∃ ender ∈ m.getEnders, ender.toActionInput = key) ∧
        ∀ key, key ≠ "" → m.FedToSeveral key →
          (∃ start ∈ m.starters, start.workflowInput = key ∧ m.LeadsToMandatory start) → ¬m.Slack m.starters key := by
  have hinterface := interface_of_prepare hstill htarget h
  unfold interface at hinterface
  obtain ⟨inputs, hin, hrest⟩ := bind_eq_ok.mp hinterface
  obtain ⟨outputs, hout, heq⟩ := bind_eq_ok.mp hrest
  cases heq
  have hdeclared := inputs_declared hstarters hin
  have hnames := hdeclared.names
  have houtnames := outputs_declared hm hout
  rw [hdeclared.mandatory_iff]
  constructor
  · rintro ⟨hin, hout, hflags, -⟩
    exact ⟨fun key => (hnames key).symm.trans (hin key), fun key => (houtnames key).symm.trans (hout key), hflags⟩
  · rintro ⟨hin, hout, hflags⟩
    have hout' : ∀ key, a'.outputs.contains key = true ↔
        key ≠ "" ∧ ∃ ender ∈ m.getEnders, ender.toActionInput = key := fun key =>
      (houtnames key).trans (hout key)
    refine ⟨fun key => (hnames key).trans (hin key), hout', hflags, fun generate s ptr s' name ctx hset => ?_⟩
    obtain ⟨found, hfound⟩ := mem_setOutputs_of_reply hset
    unfold takesOutput
    by_cases hname : name = ""
    · simp [hname]
    · simp [(hout' name).mpr ⟨hname, exists_ender_of_reply hfound⟩]

def adapted (m : StateMachine Unit) : ExecuteWorkflow :=
  ((calling.prepare (serving m) none).toOption.map Prod.fst).getD calling

theorem merging_not_slack : ¬merging.Slack merging.starters "in" := by
  have hstarters : merging.starters = [⟨"in", 0, "in"⟩, ⟨"in", 2, "in"⟩] := rfl
  rintro ⟨before, start, after, heq, ⟨hnew, -⟩, ⟨put, hput, hoptional⟩, -⟩
  rw [hstarters] at heq
  match before, heq with
  | [], heq =>
    cases heq
    cases hput
    cases hoptional
  | [first], heq =>
    cases heq
    exact hnew List.mem_cons_self
  | first :: second :: before, heq => simp at heq

theorem merging_interface :
    (∀ key, (adapted merging).inputs.contains key = true ↔
        key ≠ "" ∧ ∃ start ∈ merging.starters, start.workflowInput = key) ∧
      (∀ key, (adapted merging).outputs.contains key = true ↔
        key ≠ "" ∧ ∃ ender ∈ merging.getEnders, ender.toActionInput = key) ∧
      (∀ key put, key ≠ "" → (adapted merging).inputs.find? key = some put → merging.FedToSeveral key →
        (∃ start ∈ merging.starters, start.workflowInput = key ∧ merging.LeadsToMandatory start) →
          put.mandatory = true) ∧
      ∀ generate s (ptr : ActionPtr Unit) s' name ctx,
        (name, ctx) ∈
            ((adapted merging).replyReceived generate s (ptr.finishReply merging.getExpectedOutput s')).2 →
          (adapted merging).takesOutput name = true := by
  have hprepare : calling.prepare (serving merging) none = .ok (adapted merging, none, true) := rfl
  have hinside : merging.starters.foldl merging.nameInput [] = ["in", "in"] := rfl
  have hfrom : merging.getEnders.foldl merging.nameOutput [] = ["skip"] := rfl
  have hstarters : merging.starters = [⟨"in", 0, "in"⟩, ⟨"in", 2, "in"⟩] := rfl
  have henders : merging.getEnders = [bindingTo 2 "skip" Step.finish.id "skip"] := rfl
  refine (interface_exposed_iff merging_built.constructed (fun start hmem => registered_merging hmem) rfl rfl
    hprepare).mpr ⟨fun key => ?_, fun key => ?_, fun key _ _ hsome => ?_⟩
  · rw [Named, hinside, hstarters]
    constructor
    · intro hkey
      obtain rfl : key = "in" := by simpa using hkey
      exact ⟨by decide, ⟨"in", 0, "in"⟩, List.mem_cons_self, rfl⟩
    · rintro ⟨-, start, hmem, rfl⟩
      rcases mem_starters_merging hmem with rfl | rfl
      · exact List.mem_cons_self
      · exact List.mem_cons_self
  · rw [OutputNamed, hfrom, henders, List.mem_singleton]
    constructor
    · rintro rfl
      exact ⟨by decide, _, List.mem_singleton_self _, rfl⟩
    · rintro ⟨-, ender, hmem, rfl⟩
      rw [mem_getEnders_merging hmem]
      rfl
  · obtain ⟨start, hmem, rfl, -⟩ := hsome
    rcases mem_starters_merging hmem with rfl | rfl
    · exact merging_not_slack
    · exact merging_not_slack

def retitling : StateMachine Unit :=
  ((StateMachine.new.init.addAction 0 (Sample.returning .done) [Sample.leadTo 2]).addAction 2 Sample.skipping
    [bindingTo 2 "skip" Step.finish.id "result"]).addInput ⟨"", 0, ""⟩

def resulting : Session :=
  (Session.ofRequest (Sample.request .defaultAction 0 0)).setInput Step.finish.id "result" (some .skip)

/-- `prepare` succeeds, and the result that the reply carries is not taken. -/
theorem result_not_taken : retitling.validate = none ∧
    (∃ session', calling.prepare (serving retitling) none = .ok (adapted retitling, session', true)) ∧
      (∃ ptr, retitling.actions.find? Step.finish.id = some ptr ∧
        ((ptr.finishReply retitling.getExpectedOutput resulting).getContext "result").isSome = true) ∧
      (adapted retitling).takesOutput "result" = false ∧ (adapted retitling).takesOutput "skip" = true :=
  ⟨by decide +kernel, ⟨none, rfl⟩, ⟨_, rfl, rfl⟩, by decide +kernel, by decide +kernel⟩

end ExecuteWorkflow

end LibWorkflow
