import LibWorkflow.Codec.Contexts

/-!
# What a request becomes on the wire

`save` and `load` of `core/target.cpp`, `tools/error_report.cpp` and `core/request.cpp`, and what a new
request is after it has loaded the tree of another one. The targets, ids and texts come back; an error
report does not, since `ErrorReport::save` follows the parent of the report at the root of a chain,
which is null, and since `Request::load` looks for it under another key than `Request::save` uses.
-/

namespace LibWorkflow

open Ordered PropertyTree

variable (p : Platform)

/-! ### Targets -/

/-- The table of `CTargetAction`, in the order of its keys. -/
def TargetAction.alpha : List (String × TargetAction) :=
  [("DefaultAction", .defaultAction), ("Error", .error), ("Interrupt", .interrupt), ("NoReply", .noReply),
    ("Reply", .reply), ("Status", .status)]

/-- `CTargetAction::valueToString`. -/
def TargetAction.valueToString (value : TargetAction) : String :=
  ((alpha.find? fun kv => kv.2 = value).map Prod.fst).getD "DefaultAction"

/-- `CTargetAction::valueFromString`. -/
def TargetAction.valueFromString (key : String) : TargetAction := (alpha.lookup key).getD .defaultAction

namespace Target

/-- `Target::Target`, whose identifier is random. -/
def new (identifier : UUID) : Target :=
  { controller := "default"
    workflow := ""
    identifier := identifier
    clientId := 0
    executionLevel := p.garbage.uint32
    target := .defaultAction
    action := -1 }

/-- `Target::save`. -/
def save (t : Target) : Option PTree :=
  PTree.empty.putAll
    [("controller", t.controller), ("workflow", t.workflow), ("identifier", p.uuid.write t.identifier),
      ("client_id", p.uuid.write t.clientId), ("execution_level", p.uint32.write t.executionLevel),
      ("action_id", p.int32.write t.action), ("target", t.target.valueToString)]

/-- `Target::load`: an id that is not the text of a uuid is an exception. -/
def load (t : Target) (root : PTree) : Option Target := do
  let identifier ← p.uuid.read ((root.get? "identifier").getD "")
  let clientId ← p.uuid.read ((root.get? "client_id").getD "")
  return {
    controller := (root.get? "controller").getD t.controller
    workflow := (root.get? "workflow").getD t.workflow
    identifier := identifier
    clientId := clientId
    executionLevel := ((root.get? "execution_level").bind p.uint32.read).getD t.executionLevel
    target := .valueFromString ((root.get? "target").getD "")
    action := ((root.get? "action_id").bind p.int32.read).getD t.action }

/-- `GET_CHILD` of a target. -/
def loadChild (t : Target) (root : PTree) (key : String) : Option Target :=
  match root.getChild? key with
  | some popt => t.load p popt
  | none => some t

end Target

/-! ### Requests and error reports -/

/-- `GroupedCtx::load`. -/
def GroupedCtx.load (contexts : OrdMap String Context) (root : PTree) : Option (OrdMap String Context) :=
  match root.getChild? "items" with
  | some items => (Context.loadItems p items.children).map fun loaded =>
      ⟨overlay contexts.entries loaded, overlay_sorted loaded contexts.sorted⟩
  | none => some contexts

/-- `ErrorReport::ErrorReport`. -/
def ErrorReport.new (identifier : UUID) : ErrorReport := .ofError (Target.new p identifier) "" ""

namespace Request

/-- `Request::Request`, whose targets have random identifiers. -/
def new (identifier replyIdentifier : UUID) : Request :=
  { target := { Target.new p identifier with target := .noReply }
    reply := { Target.new p replyIdentifier with target := .noReply }
    requestId := p.garbage.uuid
    context := ∅
    bypass := PropertySet.new
    actionBypasses := ∅
    report := none
    workflowJson := "" }

/-- The property sets of the action bypasses, under the texts of their ids. -/
def saveBypasses (bypasses : OrdMap ℤ PropertySet) : Option PTree :=
  PTree.ofEntries (PropertySet.save p) (p.byId bypasses.entries)

/-- The loop of `Request::load` over the action bypasses. -/
def loadBypasses (bypasses : OrdMap ℤ PropertySet) (cmap : List (String × PTree)) :
    Option (OrdMap ℤ PropertySet) :=
  cmap.foldlM (fun bypasses kv => do
    let pset ← PropertySet.new.load p kv.2
    return bypasses.insert (p.readInt (cstr kv.1)) pset) bypasses

mutual

/-- `Request::save`. -/
def save : Request → Option PTree
  | ⟨target, reply, requestId, context, bypass, actionBypasses, report, workflowJson⟩ => do
    let ptarget ← target.save p
    let preply ← reply.save p
    let root ← PTree.empty.addAll [("target", ptarget), ("reply", preply)]
    let root ← root.put "request_id" (p.uuid.write requestId)
    let pcontext ← (Context.grouped context.entries).save p
    let pbypass ← bypass.save p
    let cmap ← saveBypasses p actionBypasses
    let root ← root.addAll [("context", pcontext), ("bypass", pbypass), ("action_bypasses", cmap)]
    let root ← (match report with
      | some report => (saveReport report).bind (root.addChild "error_report")
      | none => some root)
    root.put "workflow_json" workflowJson
termination_by r => sizeOf r

/-- `ErrorReport::save`: following the parent of a report that has none fails its assertion. -/
def saveReport : ErrorReport → Option PTree
  | ⟨target, errorMessage, errorKey, parent, original⟩ => do
    let ptarget ← target.save p
    let root ← PTree.empty.addChild "target" ptarget
    let root ← root.putAll [("message", errorMessage), ("key", errorKey)]
    let pparent ← (match parent with
      | some parent => saveReport parent
      | none => none)
    let root ← root.addChild "parent" pparent
    match original with
    | some original => (save original).bind (root.addChild "original")
    | none => some root
termination_by report => sizeOf report

end

mutual

/-- `Request::load`. The targets of a request it makes for a report have the same identifiers. -/
def load (r : Request) (root : PTree) : Option Request := do
  let target ← r.target.loadChild p root "target"
  let reply ← r.reply.loadChild p root "reply"
  let requestId ← p.uuid.read ((root.get? "request_id").getD "")
  let context ← (match root.getChild? "context" with
    | some popt => GroupedCtx.load p r.context popt
    | none => some r.context)
  let bypass ← (match root.getChild? "bypass" with
    | some popt => r.bypass.load p popt
    | none => some r.bypass)
  let actionBypasses ← (match root.getChild? "action_bypasses" with
    | some cmap => loadBypasses p r.actionBypasses cmap.children
    | none => some r.actionBypasses)
  let report ← (match _h : root.getChild? "report" with
    | some creport => (loadReport (ErrorReport.new p r.target.identifier) creport).map some
    | none => some r.report)
  return {
    target := target
    reply := reply
    requestId := requestId
    context := context
    bypass := bypass
    actionBypasses := actionBypasses
    report := report
    workflowJson := (root.get? "workflow_json").getD r.workflowJson }
termination_by sizeOf root
decreasing_by
  exact PTree.sizeOf_getChild?_lt (by decide) _h

/-- `ErrorReport::load`. -/
def loadReport (er : ErrorReport) (root : PTree) : Option ErrorReport := do
  let target ← er.target.loadChild p root "target"
  let parent ← (match _h : root.getChild? "parent" with
    | some oparent => (loadReport (ErrorReport.new p er.target.identifier) oparent).map some
    | none => some er.parent)
  let original ← (match _h : root.getChild? "original" with
    | some ooriginal => (load (new p er.target.identifier er.target.identifier) ooriginal).map some
    | none => some er.original)
  return {
    target := target
    errorMessage := (root.get? "message").getD er.errorMessage
    errorKey := (root.get? "key").getD er.errorKey
    parent := parent
    original := original }
termination_by sizeOf root
decreasing_by
  all_goals exact PTree.sizeOf_getChild?_lt (by decide) _h

end

end Request

/-! ### Targets come back -/

variable {p}

theorem TargetAction.valueFromString_valueToString (value : TargetAction) :
    valueFromString value.valueToString = value := by
  cases value <;> decide

namespace Target

def tree (p : Platform) (t : Target) : PTree :=
  .node "" [("controller", .leaf t.controller), ("workflow", .leaf t.workflow),
    ("identifier", .leaf (p.uuid.write t.identifier)), ("client_id", .leaf (p.uuid.write t.clientId)),
    ("execution_level", .leaf (p.uint32.write t.executionLevel)),
    ("action_id", .leaf (p.int32.write t.action)), ("target", .leaf t.target.valueToString)]

theorem save_eq (t : Target) : t.save p = some (t.tree p) := by
  refine PTree.putAll_of_plain ?_ _ ?_
  · show ∀ k ∈ ["controller", "workflow", "identifier", "client_id", "execution_level", "action_id",
      "target"], Plain k
    decide
  · show ["controller", "workflow", "identifier", "client_id", "execution_level", "action_id",
      "target"].Nodup
    decide

theorem load_tree (t fresh : Target) : fresh.load p (t.tree p) = some t := by
  simp (disch := decide) [load, tree, PTree.get?_of_plain, List.lookup_cons,
    TargetAction.valueFromString_valueToString]

end Target

namespace Request

/-! ### The tree of a request -/

/-- A report cannot be saved: its chain ends in one without a parent. -/
theorem saveReport_eq_none : ∀ report : ErrorReport, saveReport p report = none
  | ⟨_, _, _, none, _⟩ => by
    rw [saveReport]
    simp
  | ⟨_, _, _, some parent, _⟩ => by
    rw [saveReport]
    simp [saveReport_eq_none parent]

def tree (p : Platform) (r : Request) (pcontext pbypass cmap : PTree) : PTree :=
  .node "" [("target", r.target.tree p), ("reply", r.reply.tree p),
    ("request_id", .leaf (p.uuid.write r.requestId)), ("context", pcontext), ("bypass", pbypass),
    ("action_bypasses", cmap), ("workflow_json", .leaf r.workflowJson)]

theorem save_eq (r : Request) :
    r.save p = ((Context.grouped r.context.entries).save p).bind fun pcontext =>
      (r.bypass.save p).bind fun pbypass => (saveBypasses p r.actionBypasses).bind fun cmap =>
        if r.report = none then some (r.tree p pcontext pbypass cmap) else none := by
  obtain ⟨target, reply, requestId, context, bypass, actionBypasses, report, workflowJson⟩ := r
  have htargets : PTree.empty.addAll [("target", target.tree p), ("reply", reply.tree p)] =
      some (.node "" [("target", target.tree p), ("reply", reply.tree p)]) :=
    PTree.addAll_of_plain (by show ∀ k ∈ ["target", "reply"], Plain k; decide) _
  have hid : (PTree.node "" [("target", target.tree p), ("reply", reply.tree p)]).put "request_id"
        (p.uuid.write requestId) = some (.node "" [("target", target.tree p), ("reply", reply.tree p),
          ("request_id", .leaf (p.uuid.write requestId))]) :=
    PTree.put_of_plain (by decide) _ (show "request_id" ∉ ["target", "reply"] by decide)
  have hparts : ∀ pcontext pbypass cmap : PTree, (PTree.node "" [("target", target.tree p),
      ("reply", reply.tree p), ("request_id", .leaf (p.uuid.write requestId))]).addAll
        [("context", pcontext), ("bypass", pbypass), ("action_bypasses", cmap)] = some (.node ""
          [("target", target.tree p), ("reply", reply.tree p), ("request_id", .leaf (p.uuid.write requestId)),
            ("context", pcontext), ("bypass", pbypass), ("action_bypasses", cmap)]) := fun _ _ _ =>
    PTree.addAll_of_plain (by show ∀ k ∈ ["context", "bypass", "action_bypasses"], Plain k; decide) _
  have hjson : ∀ pcontext pbypass cmap : PTree, (PTree.node "" [("target", target.tree p),
      ("reply", reply.tree p), ("request_id", .leaf (p.uuid.write requestId)), ("context", pcontext),
      ("bypass", pbypass), ("action_bypasses", cmap)]).put "workflow_json" workflowJson =
        some (tree p ⟨target, reply, requestId, context, bypass, actionBypasses, report, workflowJson⟩
          pcontext pbypass cmap) := fun _ _ _ =>
    PTree.put_of_plain (by decide) _ (show "workflow_json" ∉
      ["target", "reply", "request_id", "context", "bypass", "action_bypasses"] by decide)
  rw [save, Target.save_eq, Option.bind_eq_bind, Option.bind_some, Target.save_eq, Option.bind_some, htargets,
    Option.bind_some, hid, Option.bind_some]
  refine congrArg _ (funext fun pcontext => congrArg _ (funext fun pbypass => congrArg _ (funext fun cmap => ?_)))
  rw [hparts, Option.bind_some]
  cases report with
  | none => rw [Option.bind_some, hjson, if_pos rfl]
  | some report =>
    dsimp only
    rw [saveReport_eq_none, Option.bind_none, Option.bind_none, if_neg (Option.some_ne_none report)]

theorem save_eq_some_iff {r : Request} {root : PTree} :
    r.save p = some root ↔ r.report = none ∧ ∃ pcontext pbypass cmap,
      (Context.grouped r.context.entries).save p = some pcontext ∧ r.bypass.save p = some pbypass ∧
      saveBypasses p r.actionBypasses = some cmap ∧ root = r.tree p pcontext pbypass cmap := by
  simp only [save_eq, Option.bind_eq_some_iff]
  constructor
  · rintro ⟨pcontext, hcontext, pbypass, hbypass, cmap, hcmap, h⟩
    obtain ⟨hreport, h⟩ := Option.ite_none_right_eq_some.mp h
    cases h
    exact ⟨hreport, pcontext, pbypass, cmap, hcontext, hbypass, hcmap, rfl⟩
  · rintro ⟨hreport, pcontext, pbypass, cmap, hcontext, hbypass, hcmap, rfl⟩
    exact ⟨pcontext, hcontext, pbypass, hbypass, cmap, hcmap, if_pos hreport⟩

/-! What is found in that tree. -/

section Found

variable (r : Request) (pcontext pbypass cmap : PTree)

theorem loadChild_target (t : Target) :
    t.loadChild p (r.tree p pcontext pbypass cmap) "target" = some r.target := by
  simp (disch := decide) [Target.loadChild, tree, PTree.getChild?_of_plain, PTree.child?, Target.load_tree]

theorem loadChild_reply (t : Target) :
    t.loadChild p (r.tree p pcontext pbypass cmap) "reply" = some r.reply := by
  simp (disch := decide) [Target.loadChild, tree, PTree.getChild?_of_plain, PTree.child?, List.lookup_cons,
    Target.load_tree]

theorem get?_requestId :
    (r.tree p pcontext pbypass cmap).get? "request_id" = some (p.uuid.write r.requestId) := by
  simp (disch := decide) [tree, PTree.get?_of_plain, List.lookup_cons]

theorem getChild?_context : (r.tree p pcontext pbypass cmap).getChild? "context" = some pcontext := by
  simp (disch := decide) [tree, PTree.getChild?_of_plain, PTree.child?, List.lookup_cons]

theorem getChild?_bypass : (r.tree p pcontext pbypass cmap).getChild? "bypass" = some pbypass := by
  simp (disch := decide) [tree, PTree.getChild?_of_plain, PTree.child?, List.lookup_cons]

theorem getChild?_actionBypasses :
    (r.tree p pcontext pbypass cmap).getChild? "action_bypasses" = some cmap := by
  simp (disch := decide) [tree, PTree.getChild?_of_plain, PTree.child?, List.lookup_cons]

theorem getChild?_report : (r.tree p pcontext pbypass cmap).getChild? "report" = none := by
  simp (disch := decide) [tree, PTree.getChild?_of_plain, PTree.child?, List.lookup_cons]

theorem get?_workflowJson : (r.tree p pcontext pbypass cmap).get? "workflow_json" = some r.workflowJson := by
  simp (disch := decide) [tree, PTree.get?_of_plain, List.lookup_cons]

theorem load_tree (identifier replyIdentifier : UUID) :
    (new p identifier replyIdentifier).load p (r.tree p pcontext pbypass cmap) =
      (GroupedCtx.load p ∅ pcontext).bind fun context => (PropertySet.new.load p pbypass).bind fun bypass =>
        (loadBypasses p ∅ cmap.children).bind fun bypasses => some { r with
          context := context
          bypass := bypass
          actionBypasses := bypasses
          report := none } := by
  rw [load]
  simp only [loadChild_target, loadChild_reply, get?_requestId, getChild?_context, getChild?_bypass,
    getChild?_actionBypasses, get?_workflowJson, Option.bind_eq_bind, Option.bind_some, Option.getD_some,
    Option.pure_def, p.uuid.read_write]
  split
  · next found => cases (getChild?_report r pcontext pbypass cmap).symm.trans found
  · simp only [new, Option.bind_some]

end Found

theorem load_tree_eq_some_iff {r loaded : Request} {identifier replyIdentifier : UUID}
    {pcontext pbypass cmap : PTree} :
    (new p identifier replyIdentifier).load p (r.tree p pcontext pbypass cmap) = some loaded ↔
      ∃ context bypass bypasses, GroupedCtx.load p ∅ pcontext = some context ∧
        PropertySet.new.load p pbypass = some bypass ∧ loadBypasses p ∅ cmap.children = some bypasses ∧
        loaded = { r with
          context := context
          bypass := bypass
          actionBypasses := bypasses
          report := none } := by
  simp only [load_tree, Option.bind_eq_some_iff, Option.some_inj]
  constructor
  · rintro ⟨context, hcontext, bypass, hbypass, bypasses, hbypasses, rfl⟩
    exact ⟨context, bypass, bypasses, hcontext, hbypass, hbypasses, rfl⟩
  · rintro ⟨context, bypass, bypasses, hcontext, hbypass, hbypasses, rfl⟩
    exact ⟨context, hcontext, bypass, hbypass, bypasses, hbypasses, rfl⟩

/-! ### Contexts and bypasses -/

/-- The load of a map of contexts is that of the `GroupedCtx` that keeps it. -/
theorem load_grouped_eq (contexts : OrdMap String Context) (root : PTree) :
    (Context.grouped contexts.entries).load p root =
      (GroupedCtx.load p contexts root).map fun loaded => .grouped loaded.entries := by
  rw [Context.load, GroupedCtx.load]
  split
  · next items h => simp [h, Function.comp_def]
  · next h => simp [h]

theorem transfers_grouped {contexts : OrdMap String Context} :
    (Context.grouped contexts.entries).Transfers p ↔ ∃ pcontext context,
      (Context.grouped contexts.entries).save p = some pcontext ∧ GroupedCtx.load p ∅ pcontext = some context := by
  have hload : ∀ root, (Context.grouped contexts.entries).fresh.load p root =
      (GroupedCtx.load p ∅ root).map fun loaded => .grouped loaded.entries := load_grouped_eq ∅
  unfold Context.Transfers
  simp only [hload, Option.map_eq_some_iff]
  constructor
  · rintro ⟨root, loaded, hsave, context, hcontext, -⟩
    exact ⟨root, context, hsave, hcontext⟩
  · rintro ⟨root, context, hsave, hcontext⟩
    exact ⟨root, .grouped context.entries, hsave, context, hcontext, rfl⟩

theorem transfers_propertySet {set : PropertySet} :
    (Context.propertySet set).Transfers p ↔
      ∃ pbypass bypass, set.save p = some pbypass ∧ PropertySet.new.load p pbypass = some bypass := by
  have hload : ∀ root, (Context.propertySet set).fresh.load p root =
      (PropertySet.new.load p root).map .propertySet := fun root => by rw [Context.fresh, Context.load]
  unfold Context.Transfers
  simp only [hload, Option.map_eq_some_iff]
  constructor
  · rintro ⟨root, loaded, hsave, bypass, hbypass, -⟩
    exact ⟨root, bypass, hsave, hbypass⟩
  · rintro ⟨root, bypass, hsave, hbypass⟩
    exact ⟨root, .propertySet bypass, hsave, bypass, hbypass, rfl⟩

theorem transfers_of_clean {set : PropertySet} (hkeys : ∀ key ∈ set.keys, Clean key)
    (hcustom : ∀ kv ∈ set.customValues, kv.2.value = none) : (Context.propertySet set).Transfers p :=
  transfers_propertySet.mpr (PropertySet.exists_load hkeys hcustom PropertySet.new)

theorem loadBypasses_cons (bypasses : OrdMap ℤ PropertySet) (id : ℤ) (item : PTree)
    (items : List (String × PTree)) :
    loadBypasses p bypasses ((p.showInt id, item) :: items) =
      (PropertySet.new.load p item).bind fun pset => loadBypasses p (bypasses.insert id pset) items := by
  rw [loadBypasses, List.foldlM_cons, p.readInt_cstr_showInt]
  cases PropertySet.new.load p item <;> rfl

theorem loadBypasses_succeeds_iff (l : List (ℤ × PropertySet)) (bypasses : OrdMap ℤ PropertySet) :
    (∃ items loaded, PTree.Saves (PropertySet.save p) (p.byId l) items ∧
      loadBypasses p bypasses items = some loaded) ↔ ∀ kv ∈ l, (Context.propertySet kv.2).Transfers p := by
  induction l generalizing bypasses with
  | nil => exact iff_of_true ⟨[], bypasses, .nil, rfl⟩ (by simp)
  | cons kv l ih =>
    obtain ⟨id, set⟩ := kv
    rw [List.forall_mem_cons, transfers_propertySet]
    constructor
    · rintro ⟨items, loaded, hsaves, hload⟩
      cases hsaves with
      | @cons _ item _ items hitem hrest =>
        obtain ⟨k, item⟩ := item
        obtain ⟨rfl, hsave⟩ := hitem
        rw [loadBypasses_cons] at hload
        obtain ⟨pset, hpset, hload⟩ := Option.bind_eq_some_iff.mp hload
        exact ⟨⟨item, pset, hsave, hpset⟩, (ih _).mp ⟨items, loaded, hrest, hload⟩⟩
    · rintro ⟨⟨item, pset, hsave, hpset⟩, hrest⟩
      obtain ⟨items, loaded, hsaves, hload⟩ := (ih (bypasses.insert id pset)).mpr hrest
      refine ⟨(p.showInt id, item) :: items, loaded, .cons ⟨rfl, hsave⟩ hsaves, ?_⟩
      rw [loadBypasses_cons, hpset, Option.bind_some, hload]

theorem mem_keys_loadBypasses {l : List (ℤ × PropertySet)} {bypasses loaded : OrdMap ℤ PropertySet}
    {items : List (String × PTree)} (hsaves : PTree.Saves (PropertySet.save p) (p.byId l) items)
    (hload : loadBypasses p bypasses items = some loaded) (j : ℤ) :
    j ∈ loaded.keys ↔ j ∈ bypasses.keys ∨ j ∈ l.map Prod.fst := by
  induction l generalizing bypasses items with
  | nil =>
    cases hsaves
    cases hload
    simp
  | cons kv l ih =>
    obtain ⟨id, set⟩ := kv
    cases hsaves with
    | @cons _ item _ items hitem hrest =>
      obtain ⟨k, item⟩ := item
      obtain ⟨rfl, -⟩ := hitem
      rw [loadBypasses_cons] at hload
      obtain ⟨pset, -, hload⟩ := Option.bind_eq_some_iff.mp hload
      rw [ih hrest hload, OrdMap.mem_keys_insert, List.map_cons, List.mem_cons, or_assoc]

/-! ### Whole requests -/

/-- What a loaded request keeps of the one that was saved. -/
structure Kept (r loaded : Request) : Prop where
  target : loaded.target = r.target
  reply : loaded.reply = r.reply
  requestId : loaded.requestId = r.requestId
  workflowJson : loaded.workflowJson = r.workflowJson
  actionBypasses : loaded.actionBypasses.keys = r.actionBypasses.keys
  report : (loaded.report.map fun er => (er.getErrorKey, er.getErrorMessage)) =
    r.report.map fun er => (er.getErrorKey, er.getErrorMessage)

/-- There is no error report, and the contexts and the bypasses are saved and loaded by their classes
without failing. -/
structure Sendable (p : Platform) (r : Request) : Prop where
  report : r.report = none
  context : (Context.grouped r.context.entries).Transfers p
  bypass : (Context.propertySet r.bypass).Transfers p
  actionBypasses : ∀ kv ∈ r.actionBypasses.entries, (Context.propertySet kv.2).Transfers p

/-- Contexts that are restored, and property sets with clean keys and null custom properties, do not fail. -/
theorem sendable_of_storable {r : Request} (hreport : r.report = none)
    (hcontext : (Context.grouped r.context.entries).Built p) (hstorable : (Context.grouped r.context.entries).Storable)
    (hbypass : ∀ set, set = r.bypass ∨ (∃ id, r.actionBypasses.find? id = some set) →
      (∀ key ∈ set.keys, Clean key) ∧ ∀ kv ∈ set.customValues, kv.2.value = none) : r.Sendable p := by
  have hsets : ∀ set, set = r.bypass ∨ (∃ id, r.actionBypasses.find? id = some set) →
      (Context.propertySet set).Transfers p := fun set hset =>
    transfers_of_clean (hbypass set hset).1 (hbypass set hset).2
  obtain ⟨root, hsave, -, hload⟩ := hcontext.reaches_iff.mpr hstorable
  exact {
    report := hreport
    context := ⟨root, _, hsave, hload⟩
    bypass := hsets _ (.inl rfl)
    actionBypasses := fun kv hkv => hsets _ (.inr ⟨kv.1, OrdMap.find?_eq_some_iff.mpr hkv⟩) }

/-- A new request that loads what a request has saved keeps what is in it, if and only if the request
is sendable. -/
theorem kept_iff_sendable (r : Request) (identifier replyIdentifier : UUID) :
    (∃ root loaded, r.save p = some root ∧ (new p identifier replyIdentifier).load p root = some loaded ∧
      r.Kept loaded) ↔ r.Sendable p := by
  constructor
  · rintro ⟨root, loaded, hsave, hload, -⟩
    obtain ⟨hreport, pcontext, pbypass, cmap, hcontext, hbypass, hcmap, rfl⟩ := save_eq_some_iff.mp hsave
    obtain ⟨context, bypass, bypasses, hcontext', hbypass', hbypasses, -⟩ := load_tree_eq_some_iff.mp hload
    obtain ⟨items, hsaves, rfl⟩ := Platform.ofEntries_byId.mp hcmap
    exact {
      report := hreport
      context := transfers_grouped.mpr ⟨pcontext, context, hcontext, hcontext'⟩
      bypass := transfers_propertySet.mpr ⟨pbypass, bypass, hbypass, hbypass'⟩
      actionBypasses := (loadBypasses_succeeds_iff _ ∅).mp ⟨items, bypasses, hsaves, hbypasses⟩ }
  · intro h
    obtain ⟨pcontext, context, hcontext, hcontext'⟩ := transfers_grouped.mp h.context
    obtain ⟨pbypass, bypass, hbypass, hbypass'⟩ := transfers_propertySet.mp h.bypass
    obtain ⟨items, bypasses, hsaves, hbypasses⟩ := (loadBypasses_succeeds_iff _ ∅).mpr h.actionBypasses
    have hcmap := Platform.ofEntries_byId.mpr ⟨items, hsaves, rfl⟩
    refine ⟨_, _, save_eq_some_iff.mpr ⟨h.report, pcontext, pbypass, _, hcontext, hbypass, hcmap, rfl⟩,
      load_tree_eq_some_iff.mpr ⟨context, bypass, bypasses, hcontext', hbypass', hbypasses, rfl⟩, ?_⟩
    refine ⟨rfl, rfl, rfl, rfl, OrdMap.keys_eq_of_mem_iff fun j => ?_, by rw [h.report]⟩
    rw [mem_keys_loadBypasses hsaves hbypasses]
    exact or_iff_right List.not_mem_nil

end Request

/-! ### Error reports -/

namespace ErrorReportOf

/-- Key, message and target identifier at each level of the chain, the root first. -/
def levels (er : ErrorReport) : List (String × String × UUID) :=
  er.getAncestry.map fun level => (level.errorKey, level.errorMessage, level.target.identifier)

/-- What a loaded report has of the one that was saved. -/
structure Reported (er loaded : ErrorReport) : Prop where
  levels : loaded.levels = er.levels
  isSet : loaded.isSet = er.isSet
  errorKey : loaded.getErrorKey = er.getErrorKey
  errorMessage : loaded.getErrorMessage = er.getErrorMessage

/-- No report survives its codec, whatever its chain: `save` is not defined at the root. -/
theorem never_reported (er : ErrorReport) (identifier : UUID) :
    ¬ ∃ root loaded, Request.saveReport p er = some root ∧
      Request.loadReport p (ErrorReport.new p identifier) root = some loaded ∧ er.Reported loaded := by
  rintro ⟨root, loaded, hsave, -⟩
  exact Option.some_ne_none _ (hsave.symm.trans (Request.saveReport_eq_none er))

end ErrorReportOf

namespace Sample

def rootReport : ErrorReport := .ofError (Target.new platform 1) "sample.error" "An error."

theorem rootReport_not_reported : ¬ ∃ root loaded, Request.saveReport platform rootReport = some root ∧
    Request.loadReport platform (ErrorReport.new platform 2) root = some loaded ∧
      rootReport.Reported loaded := by
  rintro ⟨root, loaded, hsave, -⟩
  have hsave' : Request.saveReport platform rootReport = none := Request.saveReport_eq_none rootReport
  cases hsave.symm.trans hsave'

def failed : Request :=
  { Request.ofTargets (Target.new platform 1) (Target.new platform 2) with
    report := some (.ofError (Target.new platform 1) "sample.error" "An error.") }

theorem failed_not_kept :
    ¬ ∃ root loaded, failed.save platform = some root ∧
      (Request.new platform 3 4).load platform root = some loaded ∧ failed.Kept loaded := by
  rintro ⟨root, loaded, hsave, -⟩
  obtain ⟨hreport, -⟩ := Request.save_eq_some_iff.mp hsave
  cases hreport

end Sample

end LibWorkflow
