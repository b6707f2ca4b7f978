import LibWorkflow.Codec.Embedding
import LibWorkflow.Service.Hosting
import LibWorkflow.Sessions.Exchange

/-!
# What a workflow out of a text does

The factory makes an object of the class that is registered under a type, and `Action::load` changes its
properties, which its members read. So a machine that is loaded of a text consists of objects of the same
classes as the one that was saved, with the same values of their properties; if the members read nothing else
of a property set, the two machines execute alike. `serves_alike`: a workflow with a portable machine is
always saved, and what a temporary controller makes of the text is valid just when the workflow is, and does
the same in every run.
-/

namespace LibWorkflow

open Ordered PropertyTree InPlace

variable {ω : Type}

/-! ### Classes -/

/-- The virtual members of an object. -/
structure Members (ω : Type) where
  checkInputs : ℤ → ω → Session → Bool
  checkOutputs : ℤ → ω → Session → Bool
  canPerform : ℤ → ω → Session → Bool
  canHandleError : ℤ → ω → Session → Bool
  perform : ℤ → ω → Session → Outcome ω
  replyReceived : ℤ → ω → Session → Request → Outcome ω

/-- A class derived from `Action`: what its constructor declares, and its members over the property set of the
object, of which they read the values. -/
structure ActionClass (ω : Type) where
  name : String
  inputs : OrdMap String PutDefinition
  outputs : OrdMap String PutDefinition
  properties : PropertySet
  members : PropertySet → Members ω
  byValue : ∀ {a b : PropertySet}, a.SameValues b → members a = members b

abbrev Classes (ω : Type) := String → Option (ActionClass ω)

namespace Action

def members (a : Action ω) : Members ω :=
  ⟨a.checkInputs, a.checkOutputs, a.canPerform, a.canHandleError, a.perform, a.replyReceived⟩

def withMembers (a : Action ω) (ms : Members ω) : Action ω :=
  { a with
    checkInputs := ms.checkInputs
    checkOutputs := ms.checkOutputs
    canPerform := ms.canPerform
    canHandleError := ms.canHandleError
    perform := ms.perform
    replyReceived := ms.replyReceived }

/-- The object an action is, once its properties have changed: an `Action` keeps the members it was made with,
and those of an object of a registered class read the properties it has now. -/
def renew (classes : Classes ω) (a : Action ω) : Action ω :=
  a.withMembers (((classes a.name).map fun cls => cls.members a.properties).getD a.members)

end Action

namespace ActionClass

def object (cls : ActionClass ω) (actionId : ℤ) (properties : PropertySet) : Action ω :=
  { name := cls.name
    actionId := actionId
    inputs := cls.inputs
    outputs := cls.outputs
    properties := properties
    checkInputs := (cls.members properties).checkInputs
    checkOutputs := (cls.members properties).checkOutputs
    canPerform := (cls.members properties).canPerform
    canHandleError := (cls.members properties).canHandleError
    perform := (cls.members properties).perform
    replyReceived := (cls.members properties).replyReceived }

/-- `ActionFactory::create`. -/
def create (classes : Classes ω) (type : String) : Option (Action ω) :=
  (classes type).map fun cls => cls.object 0 cls.properties

end ActionClass

namespace StateMachine

def renewed (classes : Classes ω) (m : StateMachine ω) : StateMachine ω :=
  { m with actions := m.actions.mapValues fun ptr => { ptr with action := ptr.action.renew classes } }

/-- Every action is an object of a registered class, and its properties are maps. -/
structure Made (classes : Classes ω) (m : StateMachine ω) : Prop where
  object : ∀ {id ptr}, m.actions.find? id = some ptr →
    ∃ cls, classes ptr.action.name = some cls ∧
      ptr.action = cls.object ptr.action.actionId ptr.action.properties
  sorted : ∀ {id ptr}, m.actions.find? id = some ptr → ptr.action.properties.Sorted

variable {classes : Classes ω} {m : StateMachine ω}

/-! ### The layout of objects -/

theorem renewed_addAction (m : StateMachine ω) (id : ℤ) (a : Action ω) (bs : List OutputBinding) :
    (m.addAction id a bs).renewed classes = (m.renewed classes).addAction id (a.renew classes) bs := by
  have hexpose : ∀ (keys : List String) (m : StateMachine ω),
      (keys.foldl (fun m key => m.expose id key key) m).renewed classes =
        keys.foldl (fun m key => m.expose id key key) (m.renewed classes) := by
    intro keys
    induction keys with
    | nil => exact fun m => rfl
    | cons key keys ih => exact fun m => ih (m.expose id key key)
  unfold addAction
  split_ifs with hid
  · rfl
  · dsimp only
    rw [hexpose]
    congr 1
    unfold renewed
    rw [OrdMap.mapValues_insert]
    rfl

theorem addAction_of_silent {id : ℤ} (h : Accepts id) {a : Action ω} (ha : a.properties.exposedKeys = [])
    (m : StateMachine ω) (bs : List OutputBinding) :
    m.addAction id a bs = { m with
      actions := m.actions.insert id (ActionPtr.setActionId ⟨wrapperOf id, a⟩ id)
      outputs := m.outputs.insert id (bs.map fun ob => { ob with fromActionId := id })
      inputsMap := buildInputsMap (m.outputs.insert id (bs.map fun ob => { ob with fromActionId := id })) } := by
  have hnot : ¬(wrapperOf id = none ∧ id < 0) := by
    rintro ⟨hw, hlt⟩
    rcases h with hw' | hle
    · exact hw' hw
    · omega
  unfold addAction
  rw [if_neg hnot]
  show List.foldl _ _ a.properties.exposedKeys = _
  rw [ha]
  rfl

/-- The calls of `init`, with other actions. -/
def layDefaults (m : StateMachine ω) (initial error finish cleanup : Action ω) : StateMachine ω :=
  (((m.addAction Step.initialisation.id initial [bindingTo Step.initialisation.id "" Step.finish.id ""]).addAction
    Step.error.id error [bindingTo Step.error.id "" Step.cleanup.id ""]).addAction
    Step.finish.id finish [bindingTo Step.finish.id "" Step.cleanup.id ""]).addAction
    Step.cleanup.id cleanup [bindingTo Step.cleanup.id "" Step.die.id ""]

theorem layDefaults_layDefaults {a b c d a' b' c' d' : Action ω}
    (hsilent : ∀ x ∈ [a, b, c, d, a', b', c', d'], x.properties.exposedKeys = []) :
    (new.layDefaults a b c d).layDefaults a' b' c' d' = new.layDefaults a' b' c' d' := by
  have haccepts : ∀ id ∈ [Step.initialisation.id, Step.error.id, Step.finish.id, Step.cleanup.id], Accepts id := by
    decide
  simp only [List.forall_mem_cons] at hsilent haccepts
  unfold layDefaults
  simp only [addAction_of_silent, hsilent, haccepts]
  rfl

theorem extends_renewed_init (classes : Classes ω) : Extends new.init (new.init.renewed classes) := by
  have hinit : (new.init : StateMachine ω) =
      new.layDefaults (.unimplemented ω) (.defaultNext ω) (.defaultNext ω) (.defaultNext ω) := rfl
  have hrenewed : new.init.renewed classes = new.layDefaults ((Action.unimplemented ω).renew classes)
      ((Action.defaultNext ω).renew classes) ((Action.defaultNext ω).renew classes)
      ((Action.defaultNext ω).renew classes) := by
    rw [hinit]
    unfold layDefaults
    simp only [renewed_addAction]
    rfl
  have hagain : Extends new.init (new.init.layDefaults ((Action.unimplemented ω).renew classes)
      ((Action.defaultNext ω).renew classes) ((Action.defaultNext ω).renew classes)
      ((Action.defaultNext ω).renew classes)) :=
    .addAction (.addAction (.addAction (.addAction .refl _ _ _) _ _ _) _ _ _) _ _ _
  rw [hrenewed, ← layDefaults_layDefaults (a := .unimplemented ω) (b := .defaultNext ω) (c := .defaultNext ω)
    (d := .defaultNext ω), ← hinit]
  · exact hagain
  · simp only [List.forall_mem_cons, List.not_mem_nil, false_implies, implies_true, and_true]
    exact ⟨rfl, rfl, rfl, rfl, rfl, rfl, rfl, rfl⟩

theorem Initialised.renewed (hm : m.Initialised) (classes : Classes ω) : (m.renewed classes).Initialised := by
  unfold Initialised at hm
  induction hm with
  | refl => exact extends_renewed_init classes
  | addAction _ id a bs ih =>
    rw [renewed_addAction]
    exact ih.addAction _ _ _
  | addInput _ input ih => exact ih.addInput input
  | expose _ id key aliasName ih => exact ih.expose id key aliasName
  | unexpose _ id ih => exact ih.unexpose id
  | unexposeAlias _ id aliasName ih => exact ih.unexposeAlias id aliasName

/-! ### The machine that is loaded -/

theorem renew_of_remade {p : Platform} {cls : ActionClass ω} {act : Action ω} {ptr : ActionPtr ω} {id : ℤ}
    (hcls : classes ptr.action.name = some cls)
    (hobject : ptr.action = cls.object ptr.action.actionId ptr.action.properties) (hid : ptr.getActionId = id)
    (hremade : ptr.Remade p (ActionClass.create classes) act)
    (hvalues : act.properties.SameValues ptr.action.properties) :
    Action.renew classes { act with actionId := id } = { ptr.action with properties := act.properties } := by
  obtain ⟨fresh, hfresh, hreloads⟩ := hremade
  obtain ⟨pprop, properties, -, -, rfl⟩ := ActionPtr.reloads_iff.mp hreloads
  obtain ⟨cls', hcls', rfl⟩ := Option.map_eq_some_iff.mp hfresh
  cases hcls.symm.trans hcls'
  have hmembers : cls.members properties = cls.members ptr.action.properties := cls.byValue hvalues
  have haid : ptr.action.actionId = id := hid
  rw [Action.renew, hcls, hobject, haid, Option.map_some, Option.getD_some]
  show Action.withMembers _ (cls.members properties) = _
  rw [hmembers]
  rfl

section Loaded

variable {p : Platform} {root : PTree} {loaded : StateMachine ω} (hm : m.Initialised)
  (hsave : m.save p = some root)
include hm hsave

theorem remade_of_load {create : String → Option (Action ω)}
    (hregistered : ∀ {id ptr}, m.actions.find? id = some ptr → ∃ fresh, create ptr.action.name = some fresh)
    (hload : new.init.loadTree p create root = some loaded) (id : ℤ) :
    Option.Rel (fun ptr again => ∃ act, ptr.Remade p create act ∧
        again = ActionPtr.setActionId ⟨wrapperOf id, act⟩ id)
      (m.actions.find? id) (loaded.actions.find? id) := by
  obtain ⟨pactions, poutputs, pexposed, hactions, -, -, rfl⟩ := save_eq_some_iff.mp hsave
  rw [loadTree_tree] at hload
  obtain ⟨registered, hloaded, rfl⟩ := Option.map_eq_some_iff.mp hload
  obtain ⟨acts, hacts, rfl⟩ := (loadActions_eq_some_iff hactions fun kv hkv =>
    hregistered (OrdMap.find?_eq_some_iff.mpr hkv)).mp hloaded
  exact find?_addAll_init hacts hm _ id

/-- The objects that are loaded make up a machine that is alike. -/
theorem alike_of_load (hmade : m.Made classes)
    (hload : new.init.loadTree p (ActionClass.create classes) root = some loaded)
    (hinit : loaded.Initialised) (hsame : loaded.SameWorkflow m) : (loaded.renewed classes).Alike m := by
  refine Constructed.alike (hinit.renewed classes).constructed hm.constructed (fun id => ?_) hsame.bindings
    hsame.starters
  have hregistered : ∀ {id ptr}, m.actions.find? id = some ptr →
      ∃ fresh, ActionClass.create classes ptr.action.name = some fresh := by
    intro id ptr hptr
    obtain ⟨cls, hcls, -⟩ := hmade.object hptr
    exact ⟨_, Option.map_eq_some_iff.mpr ⟨cls, hcls, rfl⟩⟩
  have hrel := remade_of_load hm hsave hregistered hload id
  have hvalues := hsame.actions id
  have hrenewed : (loaded.renewed classes).actions.find? id = (loaded.actions.find? id).map
      fun ptr => { ptr with action := ptr.action.renew classes } := OrdMap.find?_mapValues ..
  rw [hrenewed]
  cases hptr : m.actions.find? id with
  | none =>
    rw [hptr] at hrel
    rw [eq_none_of_rel hrel]
    exact .none
  | some ptr =>
    rw [hptr] at hrel hvalues
    obtain ⟨again, hagain, act, hremade, rfl⟩ := exists_of_rel_some hrel
    rw [hagain] at hvalues ⊢
    cases hvalues with
    | some hvalues =>
      obtain ⟨cls, hcls, hobject⟩ := hmade.object hptr
      have haction := renew_of_remade hcls hobject (hm.laid.own hptr) hremade hvalues.values
      refine .some ⟨act.properties, ?_⟩
      show ActionPtr.mk (wrapperOf id) (Action.renew classes { act with actionId := id }) = _
      rw [haction, ← hm.laid.wrapper hptr]
      rfl

end Loaded

theorem validate_renewed (classes : Classes ω) (m : StateMachine ω) :
    (m.renewed classes).validate = m.validate := by
  refine validate_congr (fun id => ?_) rfl rfl
  unfold expectations
  rw [show (m.renewed classes).actions.find? id = _ from OrdMap.find?_mapValues .., Option.map_map]
  rfl

/-! ### The text of a workflow -/

/-- `StateMachine::save`, into a tree that may hold something already. -/
def saveInto (p : Platform) (m : StateMachine ω) (root : PTree) : Option PTree := do
  let pactions ← PTree.ofEntries (ActionPtr.save p) (p.byId m.actions.entries)
  let poutputs ← PTree.ofEntries (PTree.ofList (OutputBinding.save p)) (p.byId m.outputs.entries)
  let pinputs ← PTree.ofList (InputBinding.save p) m.starters
  let pexposed ← PTree.ofEntries saveAliases (p.byId m.exposedProperties.entries)
  root.addAll [("actions", pactions), ("outputs", poutputs), ("inputs", pinputs), ("exposed", pexposed)]

end StateMachine

/-- `Workflow::save`, of a workflow with this name, timeout and machine. -/
def Workflow.save (p : Platform) (name : String) (timeout : Float) (m : StateMachine ω) : Option PTree := do
  let root ← PTree.empty.putAll [("name", name), ("timeout", p.writeDouble timeout)]
  m.saveInto p root

namespace StateMachine

variable {p : Platform} {classes : Classes ω} {m : StateMachine ω}

def named (name timeout : String) (root : PTree) : PTree :=
  .node "" ([("name", .leaf name), ("timeout", .leaf timeout)] ++ root.children)

theorem saveInto_node (m : StateMachine ω) (items : List (String × PTree)) :
    m.saveInto p (.node "" items) = (m.save p).map fun root => .node "" (items ++ root.children) := by
  have hadd : ∀ pactions poutputs pinputs pexposed root : PTree,
      root.addAll [("actions", pactions), ("outputs", poutputs), ("inputs", pinputs), ("exposed", pexposed)] =
        some (.node root.data (root.children ++
          [("actions", pactions), ("outputs", poutputs), ("inputs", pinputs), ("exposed", pexposed)])) := by
    intro pactions poutputs pinputs pexposed root
    refine PTree.addAll_of_plain ?_ _
    show ∀ k ∈ ["actions", "outputs", "inputs", "exposed"], Plain k
    decide
  simp only [saveInto, save, hadd, Option.bind_eq_bind, Option.map_bind, Function.comp_def, Option.map_some]
  rfl

theorem save_workflow (name : String) (timeout : Float) (m : StateMachine ω) :
    Workflow.save p name timeout m = (m.save p).map (named name (p.writeDouble timeout)) := by
  have hput : PTree.empty.putAll [("name", name), ("timeout", p.writeDouble timeout)] =
      some (.node "" [("name", .leaf name), ("timeout", .leaf (p.writeDouble timeout))]) := by
    refine PTree.putAll_of_plain ?_ _ ?_
    · show ∀ k ∈ ["name", "timeout"], Plain k
      decide
    · show ["name", "timeout"].Nodup
      decide
  rw [Workflow.save, hput]
  exact saveInto_node m _

theorem loadTree_named (create : String → Option (Action ω)) (name timeout : String) (root : PTree) :
    m.loadTree p create (named name timeout root) = m.loadTree p create root := by
  have hchild : ∀ key, Plain key → key ≠ "name" → key ≠ "timeout" →
      (named name timeout root).getChild? key = root.getChild? key := by
    intro key hplain hname htimeout
    rw [PTree.getChild?_of_plain hplain, PTree.getChild?_of_plain hplain]
    simp [named, PTree.child?, List.lookup_cons, beq_false_of_ne hname, beq_false_of_ne htimeout]
  unfold loadTree
  rw [hchild "outputs" (by decide) (by decide) (by decide), hchild "actions" (by decide) (by decide) (by decide),
    hchild "inputs" (by decide) (by decide) (by decide), hchild "exposed" (by decide) (by decide) (by decide)]

theorem apply_updateNamed {create : String → Option (Action ω)} {root : PTree} {loaded : StateMachine ω}
    (name timeout old : String) (hload : m.loadTree p create root = some loaded) :
    (updateNamed p create (named name timeout root)).apply (old, m) = (name, loaded) := by
  have hname : (named name timeout root).get? "name" = some name := by
    simp (disch := decide) [named, PTree.get?_of_plain]
  refine Update.apply_of_result ?_
  simp only [updateNamed, Update.result_all_cons, Update.result_assign, Update.result_all_nil, Option.bind_some,
    Update.result_onField, result_update, loadTree_named, hload, Option.map_some, hname, Option.getD_some]

end StateMachine

namespace TemporaryController

/-- **A workflow out of a text does the same.** A workflow with a portable machine, made of objects of the
registered classes, can be saved. If the text of a request is read as what is saved, then the workflow that a
temporary controller makes of it has the name of the other one, after a prefix; it is valid just when the other
one is; and its objects do in every run, whatever it is given and whatever becomes of its environment, what
those of the other one do. -/
theorem serves_alike {host : Host ω} {classes : Classes ω} (hcreate : host.create = ActionClass.create classes)
    {m : StateMachine ω} (hm : m.Initialised) (hmade : m.Made classes)
    (hportable : m.Portable host.platform host.create) (name : String) (timeout : Float) :
    ∃ root, Workflow.save host.platform name timeout m = some root ∧
      ∀ (req : Request) (uuid : UUID), req.workflowJson.isEmpty = false →
        host.readJson req.workflowJson = some root →
        let made := makeWorkflow host uuid req.workflowJson
        let machine := made.stateMachine.renewed classes
        let hmachine := made.initialised.renewed classes
        made.name = shortId host.platform uuid 3 ++ name ∧
          made.stateMachine.validate = m.validate ∧
          ∀ env turns, (Workflow.opened machine hmachine env).follow turns =
            ((Workflow.opened m hm env).follow turns).map (·.withMachine machine hmachine) := by
  have hregistered : ∀ {id ptr}, m.actions.find? id = some ptr →
      ∃ fresh, host.create ptr.action.name = some fresh := by
    intro id ptr hptr
    obtain ⟨cls, hcls, -⟩ := hmade.object hptr
    exact ⟨_, by rw [hcreate]; exact Option.map_eq_some_iff.mpr ⟨cls, hcls, rfl⟩⟩
  obtain ⟨root, loaded, hsave, hload, hsame⟩ := hportable.restores hm hregistered hmade.sorted
  refine ⟨_, by rw [StateMachine.save_workflow, hsave, Option.map_some], fun req uuid hjson hread => ?_⟩
  have hstr : ((ProvidedWorkflow.new ω).strLoad host req.workflowJson).name = name ∧
      ((ProvidedWorkflow.new ω).strLoad host req.workflowJson).stateMachine = loaded := by
    have happly := StateMachine.apply_updateNamed name (host.platform.writeDouble timeout) "" hload
    unfold ProvidedWorkflow.strLoad
    rw [if_neg (by simp [hjson]), hread]
    exact ⟨congrArg Prod.fst happly, congrArg Prod.snd happly⟩
  have hmachine : (makeWorkflow host uuid req.workflowJson).stateMachine = loaded := hstr.2
  have halike : ((makeWorkflow host uuid req.workflowJson).stateMachine.renewed classes).Alike m := by
    refine StateMachine.alike_of_load hm hsave hmade (hcreate ▸ ?_) (ProvidedWorkflow.initialised _) ?_
    · rw [hmachine]
      exact hload
    · rw [hmachine]
      exact hsame
  refine ⟨by rw [← hstr.1]; rfl, ?_, fun env turns => ?_⟩
  · rw [← halike.validate_eq, StateMachine.validate_renewed]
  · exact Working.follow_withMachine (c := Workflow.opened m hm env) halike turns

end TemporaryController

namespace Sample

open StateMachine

def classOf (a : Action Unit) : ActionClass Unit :=
  ⟨a.name, a.inputs, a.outputs, a.properties, fun _ => a.members, fun _ => rfl⟩

def limiter : ActionClass Unit where
  name := "Limited"
  inputs := ∅
  outputs := ∅
  properties := (limited 0).properties
  members set := { (limited 0).members with
    perform := fun id env s => .ofResult env s
      ⟨id, if (storedValue set.uintValues "limit").getD 0 = 0 then .error else .done, none⟩ }
  byValue h := by simp only [h.uints]

def classes (type : String) : Option (ActionClass Unit) :=
  if type = "Next" then some (classOf (.defaultNext Unit)) else if type = "Limited" then some limiter else none

/-- A workflow of one object, whose limit was set, in place of the first action, whose class is not registered. -/
def limiting : StateMachine Unit :=
  (new.init.addAction 0 (limiter.object 0 (limited 1).properties) [bindingTo 0 "" Step.finish.id ""]).addInput
    ⟨"", 0, ""⟩

def limitText : String := ((Workflow.save platform "limits" 0 limiting).map writeJson).getD ""

def savingHost : Host Unit where
  platform := platform
  create := ActionClass.create classes
  readJson text := if text = limitText then Workflow.save platform "limits" 0 limiting else none

theorem savingHost_readJson (text : String) : savingHost.readJson text =
    if text = limitText then Workflow.save platform "limits" 0 limiting else none := rfl

def Returning (ptr : ActionPtr Unit) : Prop :=
  (∃ cls, classes ptr.action.name = some cls ∧
    ptr.action = cls.object ptr.action.actionId ptr.action.properties) ∧
    ptr.action.properties.Sorted ∧
    ∀ fresh, ActionClass.create classes ptr.action.name = some fresh → ptr.Survives platform fresh

theorem returning_default {ptr : ActionPtr Unit} {a : Action Unit} (hclass : classes a.name = some (classOf a))
    (hptr : ptr.action = (classOf a).object ptr.action.actionId noProperties) (ha : a.properties = noProperties) :
    Returning ptr := by
  have hname : ptr.action.name = a.name := by rw [hptr]; rfl
  have hproperties : ptr.action.properties = noProperties := by rw [hptr]; rfl
  refine ⟨⟨classOf a, by rw [hname]; exact hclass, by rw [hproperties]; exact hptr⟩, ?_, fun fresh hfresh => ?_⟩
  · rw [hproperties]
    exact ⟨.nil, .nil, .nil, .nil, .nil⟩
  · rw [hname, ActionClass.create, hclass] at hfresh
    cases hfresh
    have hfresh : ((classOf a).object 0 (classOf a).properties).properties = noProperties := ha
    rw [ActionPtr.Survives, hproperties, hfresh]
    split_ifs
    · exact ⟨.nil _, .nil _, .nil _, .nil _, .nil _⟩
    · exact ⟨fun _ => rfl, fun _ => rfl, fun _ => rfl, fun _ => rfl, fun _ => rfl⟩

theorem limiter_returning :
    Returning (ActionPtr.setActionId ⟨wrapperOf 0, limiter.object 0 (limited 1).properties⟩ 0) := by
  refine ⟨⟨limiter, rfl, rfl⟩, ⟨List.pairwise_singleton _ _, .nil, .nil, .nil, .nil⟩, fun fresh hfresh => ?_⟩
  cases hfresh
  have huints : Overlays id (limited 0).properties.uintValues (limited 1).properties.uintValues :=
    ⟨by decide, by decide, fun _ _ => rfl⟩
  exact ⟨huints, .nil _, .nil _, .nil _, .nil _⟩

theorem limiting_returning {a : ℤ} {ptr : ActionPtr Unit} (h : limiting.actions.find? a = some ptr) :
    Returning ptr := by
  have hnext : ∀ (a : ℤ) (w : Option Wrapper), Returning (ActionPtr.setActionId ⟨w, .defaultNext Unit⟩ a) :=
    fun a w => returning_default (a := .defaultNext Unit) rfl rfl rfl
  have hinit : ∀ a ptr, (new.init : StateMachine Unit).actions.find? a = some ptr → a ≠ 0 → Returning ptr :=
    forall_addAction (P := fun a ptr => a ≠ 0 → Returning ptr) (forall_addAction (forall_addAction
      (forall_addAction (fun _ _ h => nomatch h) (fun hne => absurd rfl hne) _) (fun _ => hnext _ _) _)
      (fun _ => hnext _ _) _) (fun _ => hnext _ _) _
  have hlimiting : limiting.actions.find? a = _ := find?_addAction (.inr (le_refl 0)) _ _ a
  rw [hlimiting] at h
  split_ifs at h with ha
  · cases h
    exact ha ▸ limiter_returning
  · exact hinit a ptr h ha

theorem limiting_made : limiting.Made classes :=
  ⟨fun h => (limiting_returning h).1, fun h => (limiting_returning h).2.1⟩

theorem limiting_portable : limiting.Portable platform (ActionClass.create classes) := by
  refine ⟨fun hptr hfresh => (limiting_returning hptr).2.2 _ hfresh, fun {a k key} hkey => ?_⟩
  have hentries : ∀ entry ∈ limiting.exposedProperties.entries, ∀ k ∈ entry.2.keys, Clean k := by decide
  obtain ⟨aliases, hfind, halias⟩ := exposedKey_eq_some_iff.mp hkey
  exact hentries _ (OrdMap.find?_eq_some_iff.mp hfind) k (OrdMap.mem_keys.mpr ⟨key, halias⟩)

theorem limiting_initialised : limiting.Initialised := .addInput (.addAction .refl _ _ _) _

def limitRequest : Request := { request .defaultAction 0 0 with workflowJson := limitText }

/-- What is made of it serves as this workflow does. -/
theorem limiting_served :
    let made := TemporaryController.makeWorkflow savingHost 1 limitRequest.workflowJson
    let machine := made.stateMachine.renewed classes
    let hmachine := made.initialised.renewed classes
    made.name = shortId platform 1 3 ++ "limits" ∧ made.stateMachine.validate = limiting.validate ∧
      ∀ env turns, (Workflow.opened machine hmachine env).follow turns =
        ((Workflow.opened limiting limiting_initialised env).follow turns).map (·.withMachine machine hmachine) := by
  have hcreate : savingHost.create = ActionClass.create classes := rfl
  obtain ⟨root, hsave, hserves⟩ :=
    TemporaryController.serves_alike hcreate limiting_initialised limiting_made limiting_portable "limits" 0
  have hread : savingHost.readJson limitText = some root := by
    rw [savingHost_readJson, if_pos (Eq.refl limitText)]
    exact hsave
  have htext : limitText.isEmpty = false := by
    have hroot : Workflow.save platform "limits" 0 limiting = some root := hsave
    rw [limitText, hroot, Option.map_some, Option.getD_some]
    exact isEmpty_writeJson root
  exact hserves limitRequest 1 htext hread

end Sample

end LibWorkflow
