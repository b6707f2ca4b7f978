import LibWorkflow.Codec.Loading
import LibWorkflow.Codec.Properties

/-!
# What a failed load leaves

`Request::load` writes into the request as it reads, so that a load that fails has written what it read
before. It leaves the request as it is just when the tree says nothing else than the request up to the part
that throws: `Request.Holds` goes through the tree in the order of `Request::load`, each part asked only if
those before it can be read (`Request.strLoad_spares_iff`).
-/

namespace LibWorkflow

open Ordered PropertyTree InPlace

variable (p : Platform)

def InChild (root : PTree) (key : String) (P : PTree → Prop) : Prop :=
  ∀ child, root.getChild? key = some child → P child

/-! ### What can be read -/

namespace Target

def ids (root : PTree) : Option (UUID × UUID) := do
  let identifier ← p.uuid.read ((root.get? "identifier").getD "")
  let clientId ← p.uuid.read ((root.get? "client_id").getD "")
  return (identifier, clientId)

def Readable (root : PTree) : Prop := (ids p root).isSome = true

/-- The texts of the tree are those of the target, up to an id that cannot be read. -/
structure Holds (t : Target) (root : PTree) : Prop where
  controller : ∀ text, root.get? "controller" = some text → text = t.controller
  workflow : ∀ text, root.get? "workflow" = some text → text = t.workflow
  identifier : ∀ id, p.uuid.read ((root.get? "identifier").getD "") = some id → id = t.identifier
  clientId : ∀ id, ids p root = some id → id.2 = t.clientId
  executionLevel : Readable p root → ∀ level, (root.get? "execution_level").bind p.uint32.read = some level →
    level = t.executionLevel
  action : Readable p root → ∀ action, (root.get? "action_id").bind p.int32.read = some action →
    action = t.action
  target : Readable p root → .valueFromString ((root.get? "target").getD "") = t.target

end Target

namespace GroupedCtx

/-- An item has a type; if that is registered the item is a context, else it is passed over. -/
def readItem (item : String × PTree) : Option (Option (String × Context)) := do
  let type ← item.2.get? "type"
  match p.createContext type with
  | some ctx => (ctx.load p item.2).map fun ctx => some (cstr item.1, ctx)
  | none => some none

def Readable (root : PTree) : Prop :=
  InChild root "items" fun items => ∀ item ∈ items.children, (readItem p item).isSome = true

/-- The contexts of the tree are among those of the request, up to an item that cannot be read. -/
def Holds (contexts : OrdMap String Context) (root : PTree) : Prop :=
  InChild root "items" fun items => Stored (Update.written (readItem p) items.children) contexts.entries

end GroupedCtx

namespace PropertySet

/-- A custom property, whose value is made and loaded, and dropped. -/
def readCustom (item : String × PTree) : Option (Option (String × Property (Option Context))) :=
  (Property.loadValue p item.2).map fun _ => some (cstr item.1, Property.loadCustom p item.2)

def Readable (root : PTree) : Prop :=
  InChild root "custom_values" fun cmap => ∀ item ∈ cmap.children, (readCustom p item).isSome = true

def HoldsStore {α : Type} (load : PTree → Property α) (name : String) (store : List (String × Property α))
    (root : PTree) : Prop :=
  InChild root name fun cmap => Stored (cmap.children.map fun kv => (cstr kv.1, load kv.2)) store

/-- The properties of the tree are among those of the set, up to a custom one that cannot be read. -/
structure Holds (set : PropertySet) (root : PTree) : Prop where
  guarded : ∀ b, (root.get? "guarded").bind p.bool.read = some b → b = set.guarded
  uints : HoldsStore (Property.load p p.uint32.read p.garbage.uint32) "uint_values" set.uintValues root
  doubles : HoldsStore (Property.load p p.readDouble p.garbage.double) "double_values" set.doubleValues root
  strings : HoldsStore (Property.load p some "") "string_values" set.stringValues root
  bools : HoldsStore (Property.load p p.bool.read p.garbage.bool) "bool_values" set.boolValues root
  customs : InChild root "custom_values" fun cmap =>
    Stored (Update.written (readCustom p) cmap.children) set.customValues

end PropertySet

namespace Request

def readBypass (item : String × PTree) : Option (Option (ℤ × PropertySet)) :=
  (PropertySet.new.load p item.2).map fun pset => some (p.readInt (cstr item.1), pset)

def BypassesReadable (cmap : PTree) : Prop := ∀ item ∈ cmap.children, (readBypass p item).isSome = true

mutual

/-- No part of the tree throws. -/
def Readable (root : PTree) : Prop :=
  InChild root "target" (Target.Readable p) ∧ InChild root "reply" (Target.Readable p) ∧
  (p.uuid.read ((root.get? "request_id").getD "")).isSome = true ∧
  InChild root "context" (GroupedCtx.Readable p) ∧ InChild root "bypass" (PropertySet.Readable p) ∧
  InChild root "action_bypasses" (BypassesReadable p) ∧
  ∀ creport, (_h : root.getChild? "report" = some creport) → ReportReadable creport
termination_by sizeOf root
decreasing_by
  exact PTree.sizeOf_getChild?_lt (by decide) _h

/-- Nor any of the tree of a report, with those of its parents and of the request it is about. -/
def ReportReadable (root : PTree) : Prop :=
  InChild root "target" (Target.Readable p) ∧
  (∀ oparent, (_h : root.getChild? "parent" = some oparent) → ReportReadable oparent) ∧
  ∀ ooriginal, (_h : root.getChild? "original" = some ooriginal) → Readable ooriginal
termination_by sizeOf root
decreasing_by
  all_goals exact PTree.sizeOf_getChild?_lt (by decide) _h

end

def HoldsBypasses (bypasses : OrdMap ℤ PropertySet) (cmap : PTree) : Prop :=
  Stored (Update.written (readBypass p) cmap.children) bypasses.entries

/-- The report that is made and loaded, up to what cannot be read of it. -/
def reportOf (fresh : List String → UUID) (creport : PTree) : ErrorReport :=
  (updateReport p fresh ["report"] creport).apply (ErrorReport.new p (fresh ["report", "target"]))

/-- The tree says what the request holds already, in the order of `Request::load`: the target, the reply,
the id, the contexts, the properties, those of the actions, and the report. Each is asked for if those
before it can be read. -/
def Holds (fresh : List String → UUID) (r : Request) (root : PTree) : Prop :=
  InChild root "target" (r.target.Holds p) ∧ (InChild root "target" (Target.Readable p) →
  InChild root "reply" (r.reply.Holds p) ∧ (InChild root "reply" (Target.Readable p) →
  (∀ id, p.uuid.read ((root.get? "request_id").getD "") = some id → id = r.requestId) ∧
    ((p.uuid.read ((root.get? "request_id").getD "")).isSome = true →
  InChild root "context" (GroupedCtx.Holds p r.context) ∧ (InChild root "context" (GroupedCtx.Readable p) →
  InChild root "bypass" (r.bypass.Holds p) ∧ (InChild root "bypass" (PropertySet.Readable p) →
  InChild root "action_bypasses" (HoldsBypasses p r.actionBypasses) ∧
    (InChild root "action_bypasses" (BypassesReadable p) →
  InChild root "report" fun creport => r.report = some (reportOf p fresh creport)))))))

end Request

variable {p}

/-! ### Children -/

theorem inChild_of_eq_some {root child : PTree} {key : String} {P : PTree → Prop}
    (h : root.getChild? key = some child) :
    InChild root key P ↔ P child :=
  ⟨fun hall => hall child h, fun hP other hother => by cases h.symm.trans hother; exact hP⟩

theorem inChild_of_eq_none {root : PTree} {key : String} {P : PTree → Prop} (h : root.getChild? key = none) :
    InChild root key P := fun child hchild => by cases h.symm.trans hchild

section Child

variable {σ : Type} {root : PTree} {key : String} (load : PTree → Update σ)

theorem childUpdate_of_eq_some {child : PTree} (h : root.getChild? key = some child) :
    childUpdate root key (fun child _ => load child) = load child := by
  unfold childUpdate
  split
  · next found hfound => cases h.symm.trans hfound; rfl
  · next hnone => cases h.symm.trans hnone

theorem childUpdate_of_eq_none (h : root.getChild? key = none) :
    childUpdate root key (fun child _ => load child) = .assign id := by
  unfold childUpdate
  split
  · next found hfound => cases h.symm.trans hfound
  · rfl

theorem completes_childUpdate_iff_forall (load : (child : PTree) → root.getChild? key = some child → Update σ) :
    (childUpdate root key load).completes = true ↔ ∀ child h, (load child h).completes = true := by
  unfold childUpdate
  split
  · next found hfound =>
    exact ⟨fun h child hchild => by cases hfound.symm.trans hchild; exact h, fun h => h found hfound⟩
  · next hnone => exact iff_of_true rfl fun child hchild => by cases hnone.symm.trans hchild

theorem completes_childUpdate :
    (childUpdate root key fun child _ => load child).completes = true ↔
      InChild root key fun child => (load child).completes = true :=
  completes_childUpdate_iff_forall fun child _ => load child

theorem apply_childUpdate_eq_iff (s : σ) :
    (childUpdate root key fun child _ => load child).apply s = s ↔
      InChild root key fun child => (load child).apply s = s := by
  rcases Option.eq_none_or_eq_some (root.getChild? key) with h | ⟨child, h⟩
  · exact iff_of_true (by rw [childUpdate_of_eq_none load h]; rfl) (inChild_of_eq_none h)
  · rw [childUpdate_of_eq_some load h, inChild_of_eq_some h]

end Child

/-! ### Each part -/

theorem getD_eq_iff {α : Type} {x : Option α} {a : α} : x.getD a = a ↔ ∀ b, x = some b → b = a := by
  cases x <;> simp

namespace Target

theorem completes_update (root : PTree) : (update p root).completes = true ↔ Readable p root := by
  unfold update Readable ids
  rw [Update.completes_all]
  cases hid : p.uuid.read ((root.get? "identifier").getD "") with
  | none => simp [Update.assign, Update.attempt]
  | some id =>
    cases hclient : p.uuid.read ((root.get? "client_id").getD "") <;> simp [Update.assign, Update.attempt]

theorem apply_update_eq_iff (root : PTree) (t : Target) : (update p root).apply t = t ↔ t.Holds p root := by
  obtain ⟨controller, workflow, identifier, clientId, executionLevel, target, action⟩ := t
  have hholds : ∀ t : Target, t.Holds p root ↔ (root.get? "controller").getD t.controller = t.controller ∧
      (root.get? "workflow").getD t.workflow = t.workflow ∧
      (p.uuid.read ((root.get? "identifier").getD "")).getD t.identifier = t.identifier ∧
      (∀ id, ids p root = some id → id.2 = t.clientId) ∧
      (Readable p root → ((root.get? "execution_level").bind p.uint32.read).getD t.executionLevel =
        t.executionLevel ∧ ((root.get? "action_id").bind p.int32.read).getD t.action = t.action ∧
        .valueFromString ((root.get? "target").getD "") = t.target) := by
    intro t
    simp only [getD_eq_iff]
    exact ⟨fun h => ⟨h.controller, h.workflow, h.identifier, h.clientId,
        fun hread => ⟨h.executionLevel hread, h.action hread, h.target hread⟩⟩,
      fun ⟨h₁, h₂, h₃, h₄, h⟩ => ⟨h₁, h₂, h₃, h₄, fun hread => (h hread).1, fun hread => (h hread).2.1,
        fun hread => (h hread).2.2⟩⟩
  rw [hholds]
  unfold update ids Readable ids
  cases hid : p.uuid.read ((root.get? "identifier").getD "") with
  | none => simp [Update.all, Update.andThen, Update.assign, Update.attempt]
  | some id =>
    cases hclient : p.uuid.read ((root.get? "client_id").getD "") with
    | none => simp [Update.all, Update.andThen, Update.assign, Update.attempt]
    | some client =>
      simp [Update.all, Update.andThen, Update.assign, Update.attempt, and_assoc, and_comm, and_left_comm]

end Target

namespace GroupedCtx

theorem updateItem_eq : updateItem p =
    Update.turn (readItem p) fun entry contexts => contexts.insert entry.1 entry.2 := by
  funext item
  unfold updateItem Update.turn readItem
  cases item.2.get? "type" with
  | none => rfl
  | some type =>
    simp only [Option.bind_eq_bind, Option.bind_some]
    cases p.createContext type with
    | none => rfl
    | some ctx => cases hload : ctx.load p item.2 <;> simp [hload, Update.attempt]

theorem completes_update (root : PTree) : (update p root).completes = true ↔ Readable p root := by
  unfold update Readable
  rw [completes_childUpdate]
  refine forall₂_congr fun items _ => ?_
  rw [updateItem_eq]
  exact Update.completes_turns _ _ items.children

theorem apply_update_eq_iff (root : PTree) (contexts : OrdMap String Context) :
    (update p root).apply contexts = contexts ↔ Holds p contexts root := by
  unfold update Holds
  rw [apply_childUpdate_eq_iff]
  refine forall₂_congr fun items _ => ?_
  show (Update.all (items.children.map (updateItem p))).apply contexts = contexts ↔ _
  rw [updateItem_eq, Update.apply_turns]
  exact OrdMap.foldl_insert_eq_iff _ contexts

end GroupedCtx

namespace PropertySet

theorem updateCustom_eq : updateCustom p = Update.turn (readCustom p) fun entry set =>
    { set with customValues := insertEntry entry.1 entry.2 set.customValues } := by
  funext item
  unfold updateCustom Update.turn readCustom
  cases Property.loadValue p item.2 <;> rfl

theorem completes_update (root : PTree) : (update p root).completes = true ↔ Readable p root := by
  have hcompletes : (update p root).completes =
      (childUpdate root "custom_values" fun cmap _ => .all (cmap.children.map (updateCustom p))).completes := rfl
  rw [hcompletes, completes_childUpdate]
  refine forall₂_congr fun cmap _ => ?_
  show (Update.all (cmap.children.map (updateCustom p))).completes = true ↔ _
  rw [updateCustom_eq]
  exact Update.completes_turns _ _ cmap.children

theorem loadProperties_eq_iff {α : Type} {load : PTree → Property α} {name : String}
    {store : List (String × Property α)} (hsorted : store.Pairwise (fun a b => a.1 < b.1)) (root : PTree) :
    loadProperties load root name store = store ↔ HoldsStore load name store root := by
  unfold loadProperties HoldsStore
  cases h : root.getChild? name with
  | none => exact iff_of_true rfl (inChild_of_eq_none h)
  | some cmap =>
    have hoverlay : overlay store (cmap.children.map fun kv => (kv.1, load kv.2)) =
        insertEntries (cmap.children.map fun kv => (cstr kv.1, load kv.2)) store := by
      unfold overlay insertEntries
      rw [List.foldl_map, List.foldl_map]
    rw [inChild_of_eq_some h, ← insertEntries_eq_iff hsorted, ← hoverlay]

theorem customValues_turns (entries : List (String × Property (Option Context))) (set : PropertySet) :
    entries.foldl (fun set e => { set with customValues := insertEntry e.1 e.2 set.customValues }) set =
      { set with customValues := insertEntries entries set.customValues } := by
  induction entries generalizing set with
  | nil => rfl
  | cons e entries ih => exact ih _

theorem loadWith_eq_iff (root : PTree) {set : PropertySet} (hsorted : set.Sorted)
    (customs : List (String × Property (Option Context))) :
    { set.loadWith p root [] with customValues := customs } = set ↔
      (∀ b, (root.get? "guarded").bind p.bool.read = some b → b = set.guarded) ∧
      HoldsStore (Property.load p p.uint32.read p.garbage.uint32) "uint_values" set.uintValues root ∧
      HoldsStore (Property.load p p.readDouble p.garbage.double) "double_values" set.doubleValues root ∧
      HoldsStore (Property.load p p.bool.read p.garbage.bool) "bool_values" set.boolValues root ∧
      HoldsStore (Property.load p some "") "string_values" set.stringValues root ∧
      customs = set.customValues := by
  rw [← loadProperties_eq_iff hsorted.uints, ← loadProperties_eq_iff hsorted.doubles,
    ← loadProperties_eq_iff hsorted.bools, ← loadProperties_eq_iff hsorted.strings, ← getD_eq_iff]
  obtain ⟨guarded, uints, doubles, bools, strings, customValues⟩ := set
  exact Iff.of_eq (PropertySetOf.mk.injEq ..)

theorem apply_update_eq_iff (root : PTree) {set : PropertySet} (hsorted : set.Sorted) :
    (update p root).apply set = set ↔ set.Holds p root := by
  have happly : (update p root).apply set =
      (childUpdate root "custom_values" fun cmap _ => .all (cmap.children.map (updateCustom p))).apply
        (set.loadWith p root []) := rfl
  have hholds : ∀ {customs}, (customs = set.customValues ↔ InChild root "custom_values" fun cmap =>
        Stored (Update.written (readCustom p) cmap.children) set.customValues) →
      ({ set.loadWith p root [] with customValues := customs } = set ↔ set.Holds p root) := by
    intro customs hcustoms
    rw [loadWith_eq_iff root hsorted, hcustoms]
    exact ⟨fun ⟨h₁, h₂, h₃, h₄, h₅, h₆⟩ => ⟨h₁, h₂, h₃, h₅, h₄, h₆⟩,
      fun h => ⟨h.guarded, h.uints, h.doubles, h.bools, h.strings, h.customs⟩⟩
  rw [happly]
  rcases Option.eq_none_or_eq_some (root.getChild? "custom_values") with h | ⟨cmap, h⟩
  · rw [childUpdate_of_eq_none _ h]
    exact hholds (iff_of_true rfl (inChild_of_eq_none h))
  · rw [childUpdate_of_eq_some _ h, updateCustom_eq, Update.apply_turns, customValues_turns]
    refine hholds ?_
    rw [inChild_of_eq_some h]
    exact insertEntries_eq_iff hsorted.customs

end PropertySet

namespace Request

theorem updateBypass_eq : updateBypass p =
    Update.turn (readBypass p) fun entry bypasses => bypasses.insert entry.1 entry.2 := by
  funext item
  unfold updateBypass Update.turn readBypass
  cases PropertySet.new.load p item.2 <;> rfl

theorem completes_bypasses (cmap : PTree) :
    (Update.all (cmap.children.map (updateBypass p))).completes = true ↔ BypassesReadable p cmap := by
  rw [updateBypass_eq]
  exact Update.completes_turns _ _ cmap.children

theorem apply_bypasses_eq_iff (bypasses : OrdMap ℤ PropertySet) (cmap : PTree) :
    (Update.all (cmap.children.map (updateBypass p))).apply bypasses = bypasses ↔
      HoldsBypasses p bypasses cmap := by
  rw [updateBypass_eq, Update.apply_turns]
  exact OrdMap.foldl_insert_eq_iff _ bypasses

/-! ### The request -/

theorem completes_partsWith (root : PTree) (report : Update (Option ErrorReport)) :
    (Update.all (partsWith p root report)).completes = true ↔
      InChild root "target" (Target.Readable p) ∧ InChild root "reply" (Target.Readable p) ∧
      (p.uuid.read ((root.get? "request_id").getD "")).isSome = true ∧
      InChild root "context" (GroupedCtx.Readable p) ∧ InChild root "bypass" (PropertySet.Readable p) ∧
      InChild root "action_bypasses" (BypassesReadable p) ∧ report.completes = true := by
  have hid : (Update.attempt (p.uuid.read ((root.get? "request_id").getD "")) fun id (_ : UUID) => id).completes =
      (p.uuid.read ((root.get? "request_id").getD "")).isSome := by
    cases p.uuid.read ((root.get? "request_id").getD "") <;> rfl
  rw [Update.completes_all, partsWith]
  simp only [List.all_cons, List.all_nil, Bool.and_eq_true, Update.onField, Update.assign, hid,
    completes_childUpdate, Target.completes_update, GroupedCtx.completes_update, PropertySet.completes_update,
    completes_bypasses, and_true]

mutual

theorem completes_update (fresh : List String → UUID) (path : List String) (root : PTree) :
    (update p fresh path root).completes = true ↔ Readable p root := by
  rw [update, Readable, completes_partsWith, completes_childUpdate_iff_forall]
  simp only [Update.renew]
  refine and_congr_right' <| and_congr_right' <| and_congr_right' <| and_congr_right' <| and_congr_right' <|
    and_congr_right' <| forall₂_congr fun creport h => ?_
  exact completes_updateReport fresh (path ++ ["report"]) creport
termination_by sizeOf root
decreasing_by
  exact PTree.sizeOf_getChild?_lt (by decide) h

theorem completes_updateReport (fresh : List String → UUID) (path : List String) (root : PTree) :
    (updateReport p fresh path root).completes = true ↔ ReportReadable p root := by
  rw [updateReport, ReportReadable, Update.completes_all]
  simp only [List.all_cons, List.all_nil, Bool.and_eq_true, Update.onField, Update.assign, Update.renew,
    completes_childUpdate_iff_forall, Target.completes_update, true_and, and_true]
  refine and_congr_right' <| and_congr (forall₂_congr fun oparent h => ?_) (forall₂_congr fun ooriginal h => ?_)
  · exact completes_updateReport fresh (path ++ ["parent"]) oparent
  · exact completes_update fresh (path ++ ["original"]) ooriginal
termination_by sizeOf root
decreasing_by
  all_goals exact PTree.sizeOf_getChild?_lt (by decide) h

end

theorem forall_parts_completes (fresh : List String → UUID) (root : PTree) :
    (∀ part ∈ parts p fresh [] root, part.completes = true) ↔ Readable p root := by
  rw [← completes_update fresh [] root, update_eq, Update.completes_all, List.all_eq_true]

theorem parts_independent (fresh : List String → UUID) (path : List String) (root : PTree) :
    Update.Independent (parts p fresh path root) := by
  unfold parts partsWith
  refine .cons _ _ ?_ <| .cons _ _ ?_ <| .cons _ _ ?_ <| .cons _ _ ?_ <| .cons _ _ ?_ <| .cons _ _ ?_ <|
    .cons _ _ ?_ <| .cons _ _ ?_ .nil
  all_goals
    simp [Update.onField, targetField, replyField, requestIdField, contextField, bypassField,
      actionBypassesField, reportField, workflowJsonField]

def throwing (p : Platform) (fresh : List String → UUID) (root : PTree) : List (Update Request) :=
  (parts p fresh [] root).dropLast

theorem parts_eq (fresh : List String → UUID) (root : PTree) : parts p fresh [] root =
    throwing p fresh root ++ [.onField (.assign fun json => (root.get? "workflow_json").getD json) workflowJsonField] :=
  rfl

theorem apply_attempt_eq_iff {α : Type} (read : Option α) (a : α) :
    (Update.attempt read fun b _ => b).apply a = a ↔ ∀ b, read = some b → b = a := by
  cases read <;> simp [Update.attempt]

theorem holds_iff (fresh : List String → UUID) {r : Request} (hsorted : r.bypass.Sorted) (root : PTree) :
    (∀ part ∈ Update.made (throwing p fresh root), part.apply r = r) ↔ r.Holds p fresh root := by
  have htarget : ∀ (key : String) (t : Target), (childUpdate root key fun popt _ => Target.update p popt).apply t = t ↔
      InChild root key (t.Holds p) := fun key t =>
    (apply_childUpdate_eq_iff _ t).trans (forall₂_congr fun child _ => Target.apply_update_eq_iff child t)
  have htargets : ∀ key : String, (childUpdate root key fun popt _ => Target.update p popt).completes = true ↔
      InChild root key (Target.Readable p) := fun key =>
    (completes_childUpdate _).trans (forall₂_congr fun child _ => Target.completes_update child)
  have hreport : (childUpdate root "report" fun creport _ => (updateReport p fresh ["report"] creport).renew
        (ErrorReport.new p (fresh ["report", "target"]))).apply r.report = r.report ↔
      InChild root "report" fun creport => r.report = some (reportOf p fresh creport) :=
    (apply_childUpdate_eq_iff _ r.report).trans (forall₂_congr fun creport _ => eq_comm)
  have hid : ((Update.attempt (p.uuid.read ((root.get? "request_id").getD "")) fun id _ => id).onField
      requestIdField).completes = true ↔ (p.uuid.read ((root.get? "request_id").getD "")).isSome = true := by
    cases p.uuid.read ((root.get? "request_id").getD "") <;> simp [Update.onField, Update.attempt]
  unfold throwing parts partsWith Holds
  simp only [List.dropLast, Update.forall_made_cons, Update.apply_onField_eq_iff]
  refine and_congr (htarget ..) (imp_congr (htargets _) (and_congr (htarget ..) (imp_congr (htargets _)
    (and_congr (apply_attempt_eq_iff ..) (imp_congr hid
      (and_congr ?_ (imp_congr ?_ (and_congr ?_ (imp_congr ?_ (and_congr ?_ (imp_congr ?_ ?_)))))))))))
  · exact (apply_childUpdate_eq_iff _ r.context).trans
      (forall₂_congr fun popt _ => GroupedCtx.apply_update_eq_iff popt r.context)
  · exact (completes_childUpdate _).trans (forall₂_congr fun popt _ => GroupedCtx.completes_update popt)
  · exact (apply_childUpdate_eq_iff _ r.bypass).trans
      (forall₂_congr fun popt _ => PropertySet.apply_update_eq_iff popt hsorted)
  · exact (completes_childUpdate _).trans (forall₂_congr fun popt _ => PropertySet.completes_update popt)
  · exact (apply_childUpdate_eq_iff _ r.actionBypasses).trans
      (forall₂_congr fun cmap _ => apply_bypasses_eq_iff r.actionBypasses cmap)
  · exact (completes_childUpdate _).trans (forall₂_congr fun cmap _ => completes_bypasses cmap)
  · exact (and_iff_left fun _ v hv => absurd hv List.not_mem_nil).trans hreport

theorem update_spares_iff (fresh : List String → UUID) {r : Request} (hsorted : r.bypass.Sorted) (root : PTree) :
    (update p fresh [] root).Spares r ↔
      Readable p root ∨ r.Holds p fresh root := by
  rw [update_eq, (parts_independent fresh [] root).spares_all_iff r, ← forall_parts_completes fresh root]
  by_cases hcompletes : ∀ part ∈ throwing p fresh root, part.completes = true
  · have hall : ∀ part ∈ parts p fresh [] root, part.completes = true := by
      rw [parts_eq]
      exact List.forall_mem_append.mpr ⟨hcompletes, List.forall_mem_singleton.mpr rfl⟩
    exact iff_of_true (.inl hall) (.inl hall)
  · rw [← holds_iff fresh hsorted root, parts_eq, Update.made_append hcompletes]

/-- A `str_load` that fails leaves the request as it was, if and only if the text is empty or no JSON, no
part of the tree throws, or it says nothing but what the request holds up to the part that throws. -/
theorem strLoad_spares_iff (readJson : String → Option PTree) (fresh : List String → UUID) {r : Request}
    (hsorted : r.bypass.Sorted) (str : String) :
    ((r.strLoad p readJson fresh str).2 = false → (r.strLoad p readJson fresh str).1 = r) ↔
      str = "" ∨ readJson str = none ∨ ∃ root, readJson str = some root ∧
        (Readable p root ∨ r.Holds p fresh root) := by
  unfold strLoad
  by_cases hempty : str = ""
  · simp [hempty]
  · have hisEmpty : str.isEmpty = false := by simpa [String.isEmpty_iff] using hempty
    cases hread : readJson str with
    | none => simp [hisEmpty]
    | some root =>
      have hspares := update_spares_iff (p := p) fresh hsorted root
      simpa [hisEmpty, hempty, Update.Spares] using hspares

end Request

namespace Sample

def halfText : String := "\x7b\"target\": \x7b\"controller\": \"other\"\x7d\x7d"

def halfTree : PTree := .node "" [("target", .node "" [("controller", .leaf "other")])]

/-- `read_json` on it. -/
def readHalf (str : String) : Option PTree := if str = halfText then some halfTree else none

def halfTarget : PTree := .node "" [("controller", .leaf "other")]

theorem halfTree_target : halfTree.getChild? "target" = some halfTarget := by
  simp (disch := decide) [halfTree, halfTarget, PTree.getChild?_of_plain, PTree.child?]

theorem halfTarget_controller : halfTarget.get? "controller" = some "other" := by
  simp (disch := decide) [halfTarget, PTree.get?_of_plain]

theorem read_halfTarget_identifier : platform.uuid.read ((halfTarget.get? "identifier").getD "") = none := by
  simp (disch := decide) [halfTarget, PTree.get?_of_plain, List.lookup_cons]
  decide

theorem not_readable_halfTarget : ¬Target.Readable platform halfTarget := by
  rw [Target.Readable, Target.ids, read_halfTarget_identifier]
  exact Bool.false_ne_true

theorem not_readable_halfTree : ¬Request.Readable platform halfTree := by
  rw [Request.Readable]
  exact fun h => not_readable_halfTarget (h.1 _ halfTree_target)

theorem strLoad_half (r : Request) : r.strLoad platform readHalf (fun _ => 0) halfText =
    ((Request.update platform (fun _ => 0) [] halfTree).apply r, false) := by
  have hfails : (Request.update platform (fun _ => 0) [] halfTree).completes = false := by
    rw [← Bool.not_eq_true, Request.completes_update]
    exact not_readable_halfTree
  rw [Request.strLoad, if_neg (by decide), readHalf, if_pos rfl]
  dsimp only
  rw [hfails]

def otherRequest : Request :=
  { Request.new platform 1 2 with target := { Target.new platform 1 with controller := "other" } }

/-- The text says no more than that request. -/
theorem half_spared : (otherRequest.strLoad platform readHalf (fun _ => 0) halfText).1 = otherRequest := by
  have htarget : otherRequest.target.Holds platform halfTarget :=
    { controller := fun text htext => by cases halfTarget_controller.symm.trans htext; rfl
      workflow := fun text htext => by
        simp (disch := decide) [halfTarget, PTree.get?_of_plain, List.lookup_cons] at htext
      identifier := fun id h => by cases read_halfTarget_identifier.symm.trans h
      clientId := fun id h => absurd (Option.isSome_of_eq_some h) not_readable_halfTarget
      executionLevel := fun h => absurd h not_readable_halfTarget
      action := fun h => absurd h not_readable_halfTarget
      target := fun h => absurd h not_readable_halfTarget }
  have hholds : otherRequest.Holds platform (fun _ => 0) halfTree :=
    ⟨(inChild_of_eq_some halfTree_target).mpr htarget, fun h =>
      absurd (h _ halfTree_target) not_readable_halfTarget⟩
  exact (Request.strLoad_spares_iff readHalf (fun _ => 0) ⟨.nil, .nil, .nil, .nil, .nil⟩ halfText).mpr
    (.inr (.inr ⟨halfTree, by rw [readHalf, if_pos rfl], .inr hholds⟩)) (by rw [strLoad_half])

/-- The load fails, and the request is for another controller. -/
theorem half_loaded : ¬ (((Request.new platform 1 2).strLoad platform readHalf (fun _ => 0) halfText).2 = false →
    ((Request.new platform 1 2).strLoad platform readHalf (fun _ => 0) halfText).1 = Request.new platform 1 2) := by
  rw [strLoad_half]
  intro h
  have hsorted : (Request.new platform 1 2).bypass.Sorted := ⟨.nil, .nil, .nil, .nil, .nil⟩
  have hholds := ((Request.update_spares_iff (fun _ => 0) hsorted halfTree).mp fun _ => h rfl).resolve_left
    not_readable_halfTree
  have hsame := (hholds.1 _ halfTree_target).controller _ halfTarget_controller
  simp [Request.new, Target.new] at hsame

end Sample

end LibWorkflow
