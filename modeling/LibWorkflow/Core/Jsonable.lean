import LibWorkflow.Core.Request
import LibWorkflow.Lib.PropertyTree

/-!
# Saving and loading contexts

`tools/jsonable.h`: `save` writes an object into a property tree, `load` reads one into an object that
is there already. Every `save` is given an empty tree. A failed assertion in `save` and an exception in
`load` are `none`; the place where a run fails is not kept, so independent parts are done in any order.
Here are the classes of contexts: `core/context.cpp`, `tools/property.h`, `tools/property_set.cpp` and
`contexts/refs_storage_ctx.cpp`.
-/

namespace LibWorkflow

open Ordered PropertyTree

/-- What members that nobody initialised hold. -/
structure Garbage where
  bool : Bool
  uint32 : UInt32
  int32 : ℤ
  double : Float
  uuid : UUID

/-- What the codecs find outside the sources: the conversions of values to text and back, the classes
of contexts that are registered, and uninitialised memory. -/
structure Platform where
  bool : Translator Bool
  uint32 : Translator UInt32
  int32 : Translator ℤ
  uuid : Translator UUID
  /-- Not every double is read back: what is written for an infinite one is no number. -/
  writeDouble : Float → String
  readDouble : String → Option Float
  /-- `operator<<` and `std::to_string` of an `int32_t`, which make keys, and `operator>>`. -/
  showInt : ℤ → String
  readInt : String → ℤ
  readInt_showInt : ∀ i, readInt (showInt i) = i
  clean_showInt : ∀ i, Clean (showInt i)
  /-- `ContextFactory::create`. -/
  createContext : String → Option Context
  /-- `save` and `load` of the classes with data of their own, by the name of the type. -/
  saveLeaf : String → String → Option PTree
  loadLeaf : String → String → PTree → Option String
  garbage : Garbage

namespace Platform

def byId {α : Type} (p : Platform) (entries : List (ℤ × α)) : List (String × α) :=
  entries.map fun kv => (p.showInt kv.1, kv.2)

theorem readInt_cstr_showInt (p : Platform) (i : ℤ) : p.readInt (cstr (p.showInt i)) = i := by
  rw [(p.clean_showInt i).cstr_eq, p.readInt_showInt]

theorem ofEntries_byId {α : Type} {p : Platform} {save : α → Option PTree} {entries : List (ℤ × α)} {t : PTree} :
    PTree.ofEntries save (p.byId entries) = some t ↔
      ∃ items, PTree.Saves save (p.byId entries) items ∧ t = .node "" items := by
  refine PTree.ofEntries_of_plain fun k hk => ?_
  obtain ⟨entry, hentry, rfl⟩ := List.mem_map.mp hk
  obtain ⟨kv, -, rfl⟩ := List.mem_map.mp hentry
  exact (p.clean_showInt kv.1).1

end Platform

/-! ### Properties -/

/-- `Property<T>::save`. -/
def Property.save {α : Type} (p : Platform) (write : α → String) (prop : Property α) : Option PTree :=
  PTree.empty.putAll
    [("key", prop.key), ("value", write prop.value), ("description", prop.description),
      ("exposed", p.bool.write prop.exposed)]

/-- `Property<T>::load`, into a new property. -/
def Property.load {α : Type} (p : Platform) (read : String → Option α) (garbage : α) (root : PTree) :
    Property α :=
  { key := (root.get? "key").getD ""
    value := ((root.get? "value").bind read).getD garbage
    description := (root.get? "description").getD ""
    exposed := ((root.get? "exposed").bind p.bool.read).getD p.garbage.bool }

/-- `SAVE_PROPERTIES`. -/
def saveProperties {α : Type} (save : Property α → Option PTree) (store : List (String × Property α)) :
    Option PTree := PTree.ofEntries save store

/-- `LOAD_PROPERTIES`. -/
def loadProperties {α : Type} (load : PTree → Property α) (root : PTree) (name : String)
    (store : List (String × Property α)) : List (String × Property α) :=
  match root.getChild? name with
  | some cmap => overlay store (cmap.children.map fun kv => (kv.1, load kv.2))
  | none => store

/-- `PropertySet::save`, given what its custom properties are saved as. It does not call
`Context::save`, and so writes no type. -/
def PropertySetOf.saveWith {κ : Type} (p : Platform) (set : PropertySetOf κ)
    (customs : List (String × PTree)) : Option PTree := do
  let root ← PTree.empty.put "guarded" (p.bool.write set.guarded)
  let uints ← saveProperties (Property.save p p.uint32.write) set.uintValues
  let doubles ← saveProperties (Property.save p p.writeDouble) set.doubleValues
  let strings ← saveProperties (Property.save p id) set.stringValues
  let bools ← saveProperties (Property.save p p.bool.write) set.boolValues
  let customs ← PTree.empty.addAll customs
  root.addAll [("uint_values", uints), ("double_values", doubles), ("string_values", strings),
    ("bool_values", bools), ("custom_values", customs)]

/-- `PropertySet::load`, given the custom properties that were loaded. -/
def PropertySetOf.loadWith {κ : Type} (p : Platform) (set : PropertySetOf κ) (root : PTree)
    (customs : List (String × Property (Option κ))) : PropertySetOf κ :=
  { guarded := ((root.get? "guarded").bind p.bool.read).getD set.guarded
    uintValues := loadProperties (Property.load p p.uint32.read p.garbage.uint32) root "uint_values"
      set.uintValues
    doubleValues := loadProperties (Property.load p p.readDouble p.garbage.double) root "double_values"
      set.doubleValues
    stringValues := loadProperties (Property.load p some "") root "string_values" set.stringValues
    boolValues := loadProperties (Property.load p p.bool.read p.garbage.bool) root "bool_values"
      set.boolValues
    customValues := overlay set.customValues customs }

/-- `Property<ContextPtr>::save`, given what its value is saved as, if it has one. -/
def Property.saveCustom {κ : Type} (p : Platform) (prop : Property κ) (value : Option PTree) :
    Option PTree := do
  let root ← PTree.empty.putAll
    [("key", prop.key), ("description", prop.description), ("exposed", p.bool.write prop.exposed)]
  match value with
  | some value => root.addChild "value" value
  | none => some root

/-- What `Property<ContextPtr>::load` leaves in a new property: it never assigns the value. -/
def Property.loadCustom {κ : Type} (p : Platform) (root : PTree) : Property (Option κ) :=
  { key := (root.get? "key").getD ""
    value := none
    description := (root.get? "description").getD ""
    exposed := ((root.get? "exposed").bind p.bool.read).getD p.garbage.bool }

/-! ### References -/

/-- `RefsStorageCtx::save`. It does not call `Context::save`, and so writes no type. -/
def saveRefs (actions contexts : List (String × String))
    (workflows : List (String × List (String × String))) : Option PTree := do
  let pactions ← PTree.empty.putAll actions
  let pcontexts ← PTree.empty.putAll contexts
  let pworkflows ← PTree.ofEntries PTree.empty.putAll workflows
  PTree.empty.addAll [("actions", pactions), ("contexts", pcontexts), ("workflows", pworkflows)]

/-- The loop of `RefsStorageCtx::load` over the workflows of each controller. -/
def loadWorkflows (workflows : List (String × List (String × String))) (controllers : List (String × PTree)) :
    List (String × List (String × String)) :=
  controllers.foldl (fun workflows kv =>
    kv.2.texts.foldl (fun workflows kw =>
      let workflow := (lookupEntry (cstr kv.1) workflows).getD []
      insertEntry (cstr kv.1) (insertEntry (cstr kw.1) kw.2 workflow) workflows) workflows) workflows

/-- `RefsStorageCtx::load`. -/
def loadRefs (actions contexts : List (String × String))
    (workflows : List (String × List (String × String))) (root : PTree) : Context :=
  .refs (((root.getChild? "actions").map fun t => overlay actions t.texts).getD actions)
    (((root.getChild? "contexts").map fun t => overlay contexts t.texts).getD contexts)
    (((root.getChild? "workflows").map fun t => loadWorkflows workflows t.children).getD workflows)

/-! ### Contexts -/

mutual

/-- `save` of the class of the context. -/
def Context.save (p : Platform) : Context → Option PTree
  | .leaf type data => if type = "Context" then PTree.empty.put "type" type else p.saveLeaf type data
  | .skip => PTree.empty.put "type" "SkipCtx"
  | .list type contexts => do
    let root ← PTree.empty.put "type" type
    let items ← Context.saveItems p contexts
    root.addChild "items" (.node "" items)
  | .grouped contexts => do
    let root ← PTree.empty.put "type" "GroupedCtx"
    let items ← Context.saveEntries p contexts
    let pitems ← PTree.empty.addAll items
    root.addChild "items" pitems
  | .propertySet ⟨guarded, uints, doubles, bools, strings, customs⟩ => do
    let items ← PropertySet.saveCustoms p customs
    (⟨guarded, uints, doubles, bools, strings, customs⟩ : PropertySet).saveWith p items
  | .refs actions contexts workflows => saveRefs actions contexts workflows

def Context.saveItems (p : Platform) : List Context → Option (List (String × PTree))
  | [] => some []
  | ctx :: rest => do
    let citem ← ctx.save p
    let items ← Context.saveItems p rest
    return ("", citem) :: items

def Context.saveEntries (p : Platform) : List (String × Context) → Option (List (String × PTree))
  | [] => some []
  | (key, ctx) :: rest => do
    let pitem ← ctx.save p
    let items ← Context.saveEntries p rest
    return (key, pitem) :: items

def PropertySet.saveCustoms (p : Platform) :
    List (String × Property (Option Context)) → Option (List (String × PTree))
  | [] => some []
  | (key, ⟨k, description, exposed, none⟩) :: rest => do
    let item ← (⟨k, description, exposed, none⟩ : Property (Option Context)).saveCustom p none
    let items ← PropertySet.saveCustoms p rest
    return (key, item) :: items
  | (key, ⟨k, description, exposed, some value⟩) :: rest => do
    let cmember ← value.save p
    let item ← (⟨k, description, exposed, none⟩ : Property (Option Context)).saveCustom p (some cmember)
    let items ← PropertySet.saveCustoms p rest
    return (key, item) :: items

end

/-- `PropertySet::save`. -/
def PropertySet.save (p : Platform) (set : PropertySet) : Option PTree := (Context.propertySet set).save p

mutual

/-- `load` of the class of the context. -/
def Context.load (p : Platform) (ctx : Context) (root : PTree) : Option Context :=
  match ctx with
  | .leaf type data =>
    if type = "Context" then some (.leaf type data) else (p.loadLeaf type data root).map (.leaf type)
  | .skip => some .skip
  | .list type contexts =>
    match _h : root.getChild? "items" with
    | some items => (Context.loadItems p items.children).map fun loaded =>
        .list type (contexts ++ loaded.map Prod.snd)
    | none => some (.list type contexts)
  | .grouped contexts =>
    match _h : root.getChild? "items" with
    | some items => (Context.loadItems p items.children).map fun loaded => .grouped (overlay contexts loaded)
    | none => some (.grouped contexts)
  | .propertySet set => (PropertySet.load p set root).map .propertySet
  | .refs actions contexts workflows => some (loadRefs actions contexts workflows root)
termination_by (sizeOf root, 1)
decreasing_by
  · exact .left _ _ ((PTree.sizeOf_children_lt items).trans (PTree.sizeOf_getChild?_lt (by decide) _h))
  · exact .left _ _ ((PTree.sizeOf_children_lt items).trans (PTree.sizeOf_getChild?_lt (by decide) _h))
  · exact .right _ (by decide)

/-- The loop of `ListCtx::load` and `GroupedCtx::load`: an item without a type is an exception, an item
whose type is not registered is dropped. -/
def Context.loadItems (p : Platform) : List (String × PTree) → Option (List (String × Context))
  | [] => some []
  | (key, citem) :: rest => do
    let type ← citem.get? "type"
    match p.createContext type with
    | some ctx => do
      let ctx ← Context.load p ctx citem
      let loaded ← Context.loadItems p rest
      return (key, ctx) :: loaded
    | none => Context.loadItems p rest
termination_by items => (sizeOf items, 0)

/-- `PropertySet::load`. -/
def PropertySet.load (p : Platform) (set : PropertySet) (root : PTree) : Option PropertySet :=
  match _h : root.getChild? "custom_values" with
  | some cmap => (PropertySet.loadCustoms p cmap.children).map fun customs => set.loadWith p root customs
  | none => some (set.loadWith p root [])
termination_by (sizeOf root, 0)
decreasing_by
  exact .left _ _ ((PTree.sizeOf_children_lt cmap).trans (PTree.sizeOf_getChild?_lt (by decide) _h))

/-- The value of a custom property: it is made and loaded, and dropped. -/
def Property.loadValue (p : Platform) (root : PTree) : Option Unit :=
  match _h : root.getChild? "value" with
  | some cvalue =>
    match p.createContext ((cvalue.get? "type").getD "") with
    | some ctx => (Context.load p ctx cvalue).map fun _ => ()
    | none => some ()
  | none => some ()
termination_by (sizeOf root, 0)
decreasing_by
  exact .left _ _ (PTree.sizeOf_getChild?_lt (by decide) _h)

/-- `Property<ContextPtr>::load` for each custom property. -/
def PropertySet.loadCustoms (p : Platform) :
    List (String × PTree) → Option (List (String × Property (Option Context)))
  | [] => some []
  | (key, item) :: rest => do
    Property.loadValue p item
    let loaded ← PropertySet.loadCustoms p rest
    return (key, Property.loadCustom p item) :: loaded
termination_by items => (sizeOf items, 0)

end

end LibWorkflow
