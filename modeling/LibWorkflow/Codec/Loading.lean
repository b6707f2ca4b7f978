import LibWorkflow.Codec.Requests
import LibWorkflow.Lib.InPlace

/-!
# Loads that fail on the way

`Jsonable::str_load` catches the exceptions of `load`, which by then has written some of the object.
Here `load` of a request, and of what it is made of, is the update of the object that it makes in place;
where it does not break off it is the `load` of the codec (`Request.result_update`).
-/

namespace LibWorkflow

open Ordered PropertyTree InPlace

variable (p : Platform)

/-- `get_child_optional`, and an update from what it finds. -/
def childUpdate {σ : Type} (root : PTree) (key : String)
    (load : (child : PTree) → root.getChild? key = some child → Update σ) : Update σ :=
  match h : root.getChild? key with
  | some child => load child h
  | none => .assign id

/-- `Target::load`. -/
def Target.update (root : PTree) : Update Target :=
  .all [
    .assign fun t => { t with controller := (root.get? "controller").getD t.controller },
    .assign fun t => { t with workflow := (root.get? "workflow").getD t.workflow },
    .attempt (p.uuid.read ((root.get? "identifier").getD "")) fun id t => { t with identifier := id },
    .attempt (p.uuid.read ((root.get? "client_id").getD "")) fun id t => { t with clientId := id },
    .assign fun t => { t with
      executionLevel := ((root.get? "execution_level").bind p.uint32.read).getD t.executionLevel },
    .assign fun t => { t with action := ((root.get? "action_id").bind p.int32.read).getD t.action },
    .assign fun t => { t with target := .valueFromString ((root.get? "target").getD "") }]

/-- One turn of the loop of `GroupedCtx::load`. -/
def GroupedCtx.updateItem (item : String × PTree) : Update (OrdMap String Context) :=
  match item.2.get? "type" with
  | some type =>
    match p.createContext type with
    | some ctx => .attempt (ctx.load p item.2) fun ctx contexts => contexts.insert (cstr item.1) ctx
    | none => .assign id
  | none => .attempt (none : Option Unit) fun _ contexts => contexts

/-- `GroupedCtx::load`. -/
def GroupedCtx.update (root : PTree) : Update (OrdMap String Context) :=
  childUpdate root "items" fun items _ => .all (items.children.map (GroupedCtx.updateItem p))

/-- One turn of the loop of `PropertySet::load` over the custom properties. -/
def PropertySet.updateCustom (item : String × PTree) : Update PropertySet :=
  .attempt (Property.loadValue p item.2) fun _ set =>
    { set with customValues := insertEntry (cstr item.1) (Property.loadCustom p item.2) set.customValues }

/-- `PropertySet::load`: only a custom property can throw. -/
def PropertySet.update (root : PTree) : Update PropertySet :=
  .andThen (.assign fun set => set.loadWith p root [])
    (childUpdate root "custom_values" fun cmap _ => .all (cmap.children.map (PropertySet.updateCustom p)))

namespace Request

/-- One turn of the loop of `Request::load` over the action bypasses. -/
def updateBypass (item : String × PTree) : Update (OrdMap ℤ PropertySet) :=
  .attempt (PropertySet.new.load p item.2) fun pset bypasses => bypasses.insert (p.readInt (cstr item.1)) pset

/-! ### The fields of a request -/

def targetField : Field Request Target :=
  ⟨target, fun t r => { r with target := t }, fun _ _ => rfl, fun s => by cases s; rfl⟩

def replyField : Field Request Target :=
  ⟨reply, fun t r => { r with reply := t }, fun _ _ => rfl, fun s => by cases s; rfl⟩

def requestIdField : Field Request UUID :=
  ⟨requestId, fun id r => { r with requestId := id }, fun _ _ => rfl, fun s => by cases s; rfl⟩

def contextField : Field Request (OrdMap String Context) :=
  ⟨context, fun contexts r => { r with context := contexts }, fun _ _ => rfl, fun s => by cases s; rfl⟩

def bypassField : Field Request PropertySet :=
  ⟨bypass, fun set r => { r with bypass := set }, fun _ _ => rfl, fun s => by cases s; rfl⟩

def actionBypassesField : Field Request (OrdMap ℤ PropertySet) :=
  ⟨actionBypasses, fun bypasses r => { r with actionBypasses := bypasses }, fun _ _ => rfl, fun s => by cases s; rfl⟩

def reportField : Field Request (Option ErrorReport) :=
  ⟨report, fun er r => { r with report := er }, fun _ _ => rfl, fun s => by cases s; rfl⟩

def workflowJsonField : Field Request String :=
  ⟨workflowJson, fun json r => { r with workflowJson := json }, fun _ _ => rfl, fun s => by cases s; rfl⟩

/-- The steps of `Request::load`, given the one for the error report. -/
def partsWith (root : PTree) (report : Update (Option ErrorReport)) : List (Update Request) :=
  [ .onField (childUpdate root "target" fun popt _ => Target.update p popt) targetField,
    .onField (childUpdate root "reply" fun popt _ => Target.update p popt) replyField,
    .onField (.attempt (p.uuid.read ((root.get? "request_id").getD "")) fun id _ => id) requestIdField,
    .onField (childUpdate root "context" fun popt _ => GroupedCtx.update p popt) contextField,
    .onField (childUpdate root "bypass" fun popt _ => PropertySet.update p popt) bypassField,
    .onField (childUpdate root "action_bypasses" fun cmap _ => .all (cmap.children.map (updateBypass p)))
      actionBypassesField,
    .onField report reportField,
    .onField (.assign fun json => (root.get? "workflow_json").getD json) workflowJsonField ]

mutual

/-- `Request::load`. The targets of the objects it makes have random identifiers: `fresh`, by the path to
the object. -/
def update (fresh : List String → UUID) (path : List String) (root : PTree) : Update Request :=
  .all (partsWith p root (childUpdate root "report" fun creport _h =>
    (updateReport fresh (path ++ ["report"]) creport).renew
      (ErrorReport.new p (fresh (path ++ ["report", "target"])))))
termination_by sizeOf root
decreasing_by
  exact PTree.sizeOf_getChild?_lt (by decide) _h

/-- `ErrorReport::load`. -/
def updateReport (fresh : List String → UUID) (path : List String) (root : PTree) : Update ErrorReport :=
  .all [
    .assign fun er => { er with errorMessage := (root.get? "message").getD er.errorMessage },
    .assign fun er => { er with errorKey := (root.get? "key").getD er.errorKey },
    .onField (childUpdate root "target" fun otarget _ => Target.update p otarget)
      ⟨ErrorReportOf.target, fun t er => { er with target := t }, fun _ _ => rfl, fun s => by cases s; rfl⟩,
    .onField (childUpdate root "parent" fun oparent _h =>
        (updateReport fresh (path ++ ["parent"]) oparent).renew
          (ErrorReport.new p (fresh (path ++ ["parent", "target"]))))
      ⟨ErrorReportOf.parent, fun parent er => { er with parent := parent }, fun _ _ => rfl, fun s => by cases s; rfl⟩,
    .onField (childUpdate root "original" fun ooriginal _h =>
        (update fresh (path ++ ["original"]) ooriginal).renew
          (new p (fresh (path ++ ["original", "target"])) (fresh (path ++ ["original", "reply"]))))
      ⟨ErrorReportOf.original, fun original er => { er with original := original }, fun _ _ => rfl,
        fun s => by cases s; rfl⟩]
termination_by sizeOf root
decreasing_by
  all_goals exact PTree.sizeOf_getChild?_lt (by decide) _h

end

/-- The steps of `Request::load`. -/
def parts (fresh : List String → UUID) (path : List String) (root : PTree) : List (Update Request) :=
  partsWith p root (childUpdate root "report" fun creport _ =>
    (updateReport p fresh (path ++ ["report"]) creport).renew
      (ErrorReport.new p (fresh (path ++ ["report", "target"]))))

theorem update_eq (fresh : List String → UUID) (path : List String) (root : PTree) :
    update p fresh path root = .all (parts p fresh path root) := by
  rw [update, parts]

/-- `str_load` of a request, whose text is read by `read_json`: what becomes of the request, and what is
returned. -/
def strLoad (readJson : String → Option PTree) (fresh : List String → UUID) (r : Request) (str : String) :
    Request × Bool :=
  if str.isEmpty then (r, false)
  else
    match readJson str with
    | some root => ((update p fresh [] root).apply r, (update p fresh [] root).completes)
    | none => (r, false)

end Request

variable {p}

/-! ### The codec is what loads in place -/

theorem result_childUpdate {σ : Type} {root : PTree} {key : String}
    (load : (child : PTree) → root.getChild? key = some child → Update σ) {child : PTree}
    (h : root.getChild? key = some child) (s : σ) :
    (childUpdate root key load).result s = (load child h).result s := by
  unfold childUpdate
  split
  · next found hfound => cases h.symm.trans hfound; rfl
  · next hnone => cases h.symm.trans hnone

theorem result_childUpdate_of_none {σ : Type} {root : PTree} {key : String}
    (load : (child : PTree) → root.getChild? key = some child → Update σ) (h : root.getChild? key = none) (s : σ) :
    (childUpdate root key load).result s = some s := by
  unfold childUpdate
  split
  · next found hfound => cases h.symm.trans hfound
  · rfl

theorem Target.result_update (root : PTree) (t : Target) : (Target.update p root).result t = t.load p root := by
  simp only [Target.update, Target.load, Update.result_all_cons, Update.result_assign, Update.result_attempt,
    Update.result_all_nil, Option.bind_some]
  cases p.uuid.read ((root.get? "identifier").getD "") with
  | none => rfl
  | some id => cases p.uuid.read ((root.get? "client_id").getD "") <;> rfl

theorem Target.result_child (root : PTree) (key : String) (t : Target) :
    (childUpdate root key fun popt _ => Target.update p popt).result t = t.loadChild p root key := by
  rw [Target.loadChild]
  split
  · next popt h =>
    rw [result_childUpdate _ h]
    exact Target.result_update popt t
  · next h => exact result_childUpdate_of_none _ h t

theorem GroupedCtx.result_items (items : List (String × PTree)) (contexts : OrdMap String Context) :
    (Update.all (items.map (GroupedCtx.updateItem p))).result contexts =
      (Context.loadItems p items).map fun loaded =>
        ⟨overlay contexts.entries loaded, overlay_sorted loaded contexts.sorted⟩ := by
  induction items generalizing contexts with
  | nil =>
    rw [Context.loadItems]
    rfl
  | cons item items ih =>
    obtain ⟨key, citem⟩ := item
    rw [List.map_cons, Update.result_all_cons, Context.loadItems, updateItem]
    cases htype : citem.get? "type" with
    | none => rfl
    | some type =>
      simp only [Option.bind_eq_bind, Option.bind_some]
      cases hctx : p.createContext type with
      | none => simpa using ih contexts
      | some ctx =>
        simp only [Update.result_attempt]
        cases ctx.load p citem with
        | none => rfl
        | some ctx =>
          simp only [Option.map_some, Option.bind_some, ih]
          cases Context.loadItems p items <;> rfl

theorem GroupedCtx.result_update (root : PTree) (contexts : OrdMap String Context) :
    (GroupedCtx.update p root).result contexts = GroupedCtx.load p contexts root := by
  rw [GroupedCtx.update, GroupedCtx.load]
  split
  · next items h =>
    rw [result_childUpdate _ h]
    exact GroupedCtx.result_items items.children contexts
  · next h => exact result_childUpdate_of_none _ h contexts

theorem PropertySet.result_customs (items : List (String × PTree)) (set : PropertySet) :
    (Update.all (items.map (PropertySet.updateCustom p))).result set =
      (PropertySet.loadCustoms p items).map fun customs =>
        { set with customValues := overlay set.customValues customs } := by
  induction items generalizing set with
  | nil =>
    rw [PropertySet.loadCustoms]
    rfl
  | cons item items ih =>
    obtain ⟨key, child⟩ := item
    rw [List.map_cons, Update.result_all_cons, PropertySet.loadCustoms, updateCustom, Update.result_attempt]
    cases Property.loadValue p child with
    | none => rfl
    | some value =>
      simp only [Option.map_some, Option.bind_some, Option.bind_eq_bind, ih]
      cases PropertySet.loadCustoms p items <;> rfl

theorem PropertySet.result_update (root : PTree) (set : PropertySet) :
    (PropertySet.update p root).result set = set.load p root := by
  rw [PropertySet.update, Update.result_andThen, Update.result_assign, Option.bind_some, PropertySet.load]
  split
  · next cmap h =>
    rw [result_childUpdate _ h]
    exact PropertySet.result_customs cmap.children _
  · next h => exact result_childUpdate_of_none _ h _

theorem Request.result_bypasses (items : List (String × PTree)) (bypasses : OrdMap ℤ PropertySet) :
    (Update.all (items.map (updateBypass p))).result bypasses = loadBypasses p bypasses items := by
  induction items generalizing bypasses with
  | nil => rfl
  | cons item items ih =>
    rw [List.map_cons, Update.result_all_cons, updateBypass, Update.result_attempt, loadBypasses, List.foldlM_cons]
    cases PropertySet.new.load p item.2 with
    | none => rfl
    | some pset => exact ih _

mutual

/-- Where the load of a request does not break off, it gives what the codec gives. -/
theorem Request.result_update (id : UUID) (path : List String) (root : PTree) (r : Request)
    (hr : r.target.identifier = id) : (update p (fun _ => id) path root).result r = r.load p root := by
  rw [update_eq, load]
  simp only [parts, partsWith, Update.result_all_cons, Update.result_onField, Update.result_all_nil,
    Update.result_assign, Update.result_attempt, targetField, replyField, requestIdField, contextField,
    bypassField, actionBypassesField, reportField, workflowJsonField, Target.result_child]
  simp only [Option.bind_map, Function.comp_def, Option.bind_eq_bind]
  refine Option.bind_congr fun target _ => Option.bind_congr fun reply _ => Option.bind_congr fun requestId _ => ?_
  refine congrArg₂ Option.bind ?_ (funext fun context => congrArg₂ Option.bind ?_ (funext fun bypass =>
    congrArg₂ Option.bind ?_ (funext fun actionBypasses => congrArg₂ Option.bind ?_ rfl)))
  · split
    · next popt h =>
      rw [result_childUpdate _ h]
      exact GroupedCtx.result_update popt r.context
    · next h => exact result_childUpdate_of_none _ h _
  · split
    · next popt h =>
      rw [result_childUpdate _ h]
      exact PropertySet.result_update popt r.bypass
    · next h => exact result_childUpdate_of_none _ h _
  · split
    · next cmap h =>
      rw [result_childUpdate _ h]
      exact result_bypasses cmap.children r.actionBypasses
    · next h => exact result_childUpdate_of_none _ h _
  · split
    · next creport h =>
      have hlt : sizeOf creport < sizeOf root := PTree.sizeOf_getChild?_lt (by decide) h
      rw [result_childUpdate _ h, Update.result_renew, hr, Request.result_updateReport id _ creport _ rfl]
    · next h => exact result_childUpdate_of_none _ h _
termination_by sizeOf root

theorem Request.result_updateReport (id : UUID) (path : List String) (root : PTree) (er : ErrorReport)
    (her : er.target.identifier = id) :
    (updateReport p (fun _ => id) path root).result er = loadReport p er root := by
  rw [updateReport, loadReport]
  simp only [Update.result_all_cons, Update.result_onField, Update.result_all_nil, Update.result_assign,
    Target.result_child, Option.bind_map, Function.comp_def, Option.bind_eq_bind, Option.bind_some]
  refine Option.bind_congr fun target _ => ?_
  refine congrArg₂ Option.bind ?_ (funext fun parent => congrArg₂ Option.bind ?_ rfl)
  · split
    · next oparent h =>
      have hlt : sizeOf oparent < sizeOf root := PTree.sizeOf_getChild?_lt (by decide) h
      rw [result_childUpdate _ h, Update.result_renew, her, Request.result_updateReport id _ oparent _ rfl]
    · next h => exact result_childUpdate_of_none _ h _
  · split
    · next ooriginal h =>
      have hlt : sizeOf ooriginal < sizeOf root := PTree.sizeOf_getChild?_lt (by decide) h
      rw [result_childUpdate _ h, Update.result_renew, her, Request.result_update id _ ooriginal _ rfl]
    · next h => exact result_childUpdate_of_none _ h _
termination_by sizeOf root

end

end LibWorkflow
