import LibWorkflow.Codec.Properties
import LibWorkflow.Codec.Samples

/-!
# What containers get back

A tree of contexts built from the classes of the library is saved by its container and loaded into an
empty one. A container makes each item anew from the type the item has written. So what comes back of
an item is a relation (`Context.Reaches`) that the loops of both containers lift to their items
(`loadItems_iff`), and a whole tree comes back if it is `Context.Storable`: neither `PropertySet` nor
`RefsStorageCtx` writes its type, and the keys of a `GroupedCtx` are used as paths.
-/

namespace LibWorkflow

open Ordered PropertyTree

variable {p : Platform}

namespace Context

/-- What `new` makes of the class. -/
def fresh : Context → Context
  | .leaf type _ => .leaf type ""
  | .skip => .skip
  | .list type _ => .list type []
  | .grouped _ => .grouped []
  | .propertySet _ => .propertySet PropertySet.new
  | .refs _ _ _ => .refs [] [] []

/-- Built from the classes of the library, all registered: the base class, `SkipCtx`, the subclasses of
`ListCtx`, `GroupedCtx` (a map, in the order of its keys), `PropertySet` and `RefsStorageCtx`. -/
inductive Built (p : Platform) : Context → Prop
  | base (h : p.createContext "Context" = some (.leaf "Context" "")) : Built p (.leaf "Context" "")
  | skip (h : p.createContext "SkipCtx" = some .skip) : Built p .skip
  | list {type : String} {contexts : List Context} (h : p.createContext type = some (.list type []))
      (hitems : ∀ ctx ∈ contexts, Built p ctx) : Built p (.list type contexts)
  | grouped {entries : List (String × Context)} (h : p.createContext "GroupedCtx" = some (.grouped []))
      (hsorted : entries.Pairwise (fun a b => a.1 < b.1)) (hitems : ∀ kv ∈ entries, Built p kv.2) :
      Built p (.grouped entries)
  | propertySet (set : PropertySet) (h : p.createContext "PropertySet" = some (.propertySet PropertySet.new)) :
      Built p (.propertySet set)
  | refs (actions contexts : List (String × String)) (workflows : List (String × List (String × String)))
      (h : p.createContext "RefsStorageCtx" = some (.refs [] [] [])) : Built p (.refs actions contexts workflows)

/-- A `ListCtx` or a `GroupedCtx`. -/
def IsContainer : Context → Prop
  | .list _ _ | .grouped _ => True
  | _ => False

/-- Saving the context and loading the result into an empty one of its class restores it. -/
def Restores (p : Platform) (ctx : Context) : Prop :=
  ∃ root, ctx.save p = some root ∧ ctx.fresh.load p root = some ctx

/-- Saving the context and loading the result into an empty one of its class does not fail. -/
def Transfers (p : Platform) (ctx : Context) : Prop :=
  ∃ root loaded, ctx.save p = some root ∧ ctx.fresh.load p root = some loaded

/-- Nothing in the tree is a `PropertySet` or a `RefsStorageCtx`, and all keys are clean. -/
inductive Storable : Context → Prop
  | leaf (type data : String) : Storable (.leaf type data)
  | skip : Storable .skip
  | list {type : String} {contexts : List Context} (hitems : ∀ ctx ∈ contexts, Storable ctx) :
      Storable (.list type contexts)
  | grouped {entries : List (String × Context)} (hkeys : ∀ kv ∈ entries, Clean kv.1)
      (hitems : ∀ kv ∈ entries, Storable kv.2) : Storable (.grouped entries)

/-- What a container that is saved with the first context loads in its place. -/
def Reaches (p : Platform) (ctx loaded : Context) : Prop :=
  ∃ root, ctx.save p = some root ∧ root.get? "type" = some ctx.getType ∧ ctx.fresh.load p root = some loaded

/-! ### The tree of a container -/

def containerTree (type : String) (items : PTree) : PTree :=
  .node "" [("type", .leaf type), ("items", items)]

theorem put_type (type : String) : PTree.empty.put "type" type = some (.node "" [("type", .leaf type)]) :=
  PTree.put_of_plain (by decide) type (by decide)

theorem add_items (type : String) (items : PTree) :
    (PTree.node "" [("type", .leaf type)]).addChild "items" items = some (containerTree type items) :=
  PTree.addChild_of_plain (by decide) items _

@[simp] theorem get?_containerTree (type : String) (items : PTree) :
    (containerTree type items).get? "type" = some type := by
  rw [PTree.get?, PTree.getChild?_of_plain (by decide)]
  rfl

theorem getChild?_containerTree (type : String) (items : PTree) :
    (containerTree type items).getChild? "items" = some items := by
  rw [PTree.getChild?_of_plain (by decide)]
  rfl

theorem saveItems_eq (contexts : List Context) :
    saveItems p contexts = saveEntries p (contexts.map fun ctx => ("", ctx)) := by
  induction contexts with
  | nil => rfl
  | cons ctx contexts ih => simp [saveItems, saveEntries, ih]

theorem save_list (type : String) (contexts : List Context) :
    (Context.list type contexts).save p =
      (saveEntries p (contexts.map fun ctx => ("", ctx))).map fun items =>
        containerTree type (.node "" items) := by
  rw [save, put_type, saveItems_eq]
  cases saveEntries p (contexts.map fun ctx => ("", ctx)) with
  | none => rfl
  | some items => exact add_items type _

theorem save_grouped (entries : List (String × Context)) :
    (Context.grouped entries).save p =
      (saveEntries p entries).bind fun items =>
        (PTree.empty.addAll items).map (containerTree "GroupedCtx") := by
  rw [save, put_type]
  cases saveEntries p entries with
  | none => rfl
  | some items =>
    cases hall : PTree.empty.addAll items with
    | none => simp [hall]
    | some pitems => simp [hall, add_items]

theorem load_list (type : String) (contexts : List Context) (items : PTree) :
    (Context.list type contexts).load p (containerTree type items) =
      (loadItems p items.children).map fun loaded => .list type (contexts ++ loaded.map Prod.snd) := by
  rw [load]
  split
  · next found h =>
    cases (getChild?_containerTree type items).symm.trans h
    rfl
  · next h => cases (getChild?_containerTree type items).symm.trans h

theorem load_grouped (entries : List (String × Context)) (type : String) (items : PTree) :
    (Context.grouped entries).load p (containerTree type items) =
      (loadItems p items.children).map fun loaded => .grouped (overlay entries loaded) := by
  rw [load]
  split
  · next found h =>
    cases (getChild?_containerTree type items).symm.trans h
    rfl
  · next h => cases (getChild?_containerTree type items).symm.trans h

/-! ### Which items write their type -/

theorem get?_type_propertySet {set : PropertySet} {root : PTree}
    (h : (Context.propertySet set).save p = some root) : root.get? "type" = none := by
  rw [save] at h
  obtain ⟨items, -, hsave⟩ := Option.bind_eq_some_iff.mp h
  obtain ⟨uints, doubles, strings, bools, customs, -, -, -, -, -, rfl⟩ :=
    PropertySetOf.saveWith_eq_some_iff.mp hsave
  rw [PTree.get?, PTree.getChild?_of_plain (by decide)]
  rfl

theorem get?_type_refs {actions contexts : List (String × String)}
    {workflows : List (String × List (String × String))} {root : PTree}
    (h : (Context.refs actions contexts workflows).save p = some root) : root.get? "type" = none := by
  rw [save, saveRefs] at h
  obtain ⟨pactions, -, h⟩ := Option.bind_eq_some_iff.mp h
  obtain ⟨pcontexts, -, h⟩ := Option.bind_eq_some_iff.mp h
  obtain ⟨pworkflows, -, h⟩ := Option.bind_eq_some_iff.mp h
  rw [PTree.addAll_of_plain (show ∀ k ∈ List.map Prod.fst [("actions", pactions), ("contexts", pcontexts),
    ("workflows", pworkflows)], Plain k by show ∀ k ∈ ["actions", "contexts", "workflows"], Plain k; decide)] at h
  cases h
  rw [PTree.get?, PTree.getChild?_of_plain (by decide)]
  rfl

theorem Built.created {ctx : Context} (hctx : ctx.Built p) {root : PTree} (h : ctx.save p = some root)
    {type : String} (htype : root.get? "type" = some type) :
    type = ctx.getType ∧ p.createContext type = some ctx.fresh := by
  cases hctx with
  | base hcreate =>
    rw [save, if_pos rfl, put_type] at h
    cases h
    cases htype
    exact ⟨rfl, hcreate⟩
  | skip hcreate =>
    rw [save, put_type] at h
    cases h
    cases htype
    exact ⟨rfl, hcreate⟩
  | list hcreate hitems =>
    rw [save_list] at h
    obtain ⟨items, -, rfl⟩ := Option.map_eq_some_iff.mp h
    rw [get?_containerTree] at htype
    cases htype
    exact ⟨rfl, hcreate⟩
  | grouped hcreate hsorted hitems =>
    rw [save_grouped] at h
    obtain ⟨items, -, h⟩ := Option.bind_eq_some_iff.mp h
    obtain ⟨pitems, -, rfl⟩ := Option.map_eq_some_iff.mp h
    rw [get?_containerTree] at htype
    cases htype
    exact ⟨rfl, hcreate⟩
  | propertySet set hcreate =>
    rw [get?_type_propertySet h] at htype
    cases htype
  | refs actions contexts workflows hcreate =>
    rw [get?_type_refs h] at htype
    cases htype

/-! ### The loops over the items -/

/-- Saving the items one by one and loading them gives back what each of them reaches. -/
theorem loadItems_iff {entries loaded : List (String × Context)} (hbuilt : ∀ kv ∈ entries, kv.2.Built p) :
    (∃ items, saveEntries p entries = some items ∧ loadItems p items = some loaded) ↔
      List.Forall₂ (fun kv kl => kv.1 = kl.1 ∧ kv.2.Reaches p kl.2) entries loaded := by
  induction entries generalizing loaded with
  | nil =>
    simp only [saveEntries, Option.some.injEq, exists_eq_left', loadItems, List.forall₂_nil_left_iff]
    exact eq_comm
  | cons kv entries ih =>
    obtain ⟨key, ctx⟩ := kv
    have hctx : ctx.Built p := hbuilt (key, ctx) List.mem_cons_self
    have hrest : ∀ {loaded : List (String × Context)},
        (∃ items, saveEntries p entries = some items ∧ loadItems p items = some loaded) ↔
          List.Forall₂ (fun kv kl => kv.1 = kl.1 ∧ kv.2.Reaches p kl.2) entries loaded :=
      ih fun kv hkv => hbuilt kv (List.mem_cons_of_mem _ hkv)
    constructor
    · rintro ⟨items, hsave, hload⟩
      rw [saveEntries] at hsave
      obtain ⟨citem, hcitem, hsave⟩ := Option.bind_eq_some_iff.mp hsave
      obtain ⟨items', hitems', hsave⟩ := Option.bind_eq_some_iff.mp hsave
      cases hsave
      rw [loadItems] at hload
      obtain ⟨type, htype, hload⟩ := Option.bind_eq_some_iff.mp hload
      obtain ⟨rfl, hcreate⟩ := hctx.created hcitem htype
      simp only [hcreate] at hload
      obtain ⟨ctx', hctx', hload⟩ := Option.bind_eq_some_iff.mp hload
      obtain ⟨loaded', hloaded', hload⟩ := Option.bind_eq_some_iff.mp hload
      cases hload
      exact .cons ⟨rfl, citem, hcitem, htype, hctx'⟩ (hrest.mp ⟨items', hitems', hloaded'⟩)
    · intro h
      cases h with
      | cons hhead htail =>
        obtain ⟨hkey, citem, hcitem, htype, hctx'⟩ := hhead
        obtain ⟨items', hitems', hloaded'⟩ := hrest.mpr htail
        obtain ⟨-, hcreate⟩ := hctx.created hcitem htype
        refine ⟨(key, citem) :: items', by simp [saveEntries, hcitem, hitems'], ?_⟩
        simp [loadItems, htype, hcreate, hctx', hloaded', show key = _ from hkey]

theorem eq_of_keys_of_values {l l' : List (String × Context)} (hkeys : l.map Prod.fst = l'.map Prod.fst)
    (hvalues : l.map Prod.snd = l'.map Prod.snd) : l = l' := by
  have hzip : ∀ l : List (String × Context), (l.map Prod.fst).zip (l.map Prod.snd) = l := fun l => by
    rw [← List.unzip_fst, ← List.unzip_snd, List.zip_unzip]
  rw [← hzip l, hkeys, hvalues, hzip l']

theorem loadItems_self_iff {entries : List (String × Context)} (hbuilt : ∀ kv ∈ entries, kv.2.Built p) :
    (∃ items, saveEntries p entries = some items ∧ loadItems p items = some entries) ↔
      ∀ kv ∈ entries, kv.2.Reaches p kv.2 := by
  rw [loadItems_iff hbuilt, List.forall₂_same]
  simp only [true_and]

theorem keys_saveEntries {entries : List (String × Context)} {items : List (String × PTree)}
    (h : saveEntries p entries = some items) : items.map Prod.fst = entries.map Prod.fst := by
  have hsaves : PTree.Saves (Context.save p) entries items := by
    refine (PTree.saves_iff_of_cons (f := saveEntries p) rfl fun key ctx rest => ?_).mp h
    simp only [saveEntries]
    cases ctx.save p <;> cases saveEntries p rest <;> rfl
  exact hsaves.keys_eq

theorem mem_keys_of_loadItems {items : List (String × PTree)} {loaded : List (String × Context)}
    (h : loadItems p items = some loaded) {kl : String × Context} (hkl : kl ∈ loaded) :
    kl.1 ∈ items.map Prod.fst := by
  induction items generalizing loaded with
  | nil =>
    rw [loadItems] at h
    cases h
    exact absurd hkl List.not_mem_nil
  | cons item items ih =>
    rw [loadItems] at h
    obtain ⟨type, -, h⟩ := Option.bind_eq_some_iff.mp h
    split at h
    · obtain ⟨ctx, -, h⟩ := Option.bind_eq_some_iff.mp h
      obtain ⟨rest, hrest, h⟩ := Option.bind_eq_some_iff.mp h
      cases h
      rcases List.mem_cons.mp hkl with rfl | hkl
      · exact List.mem_cons_self
      · exact List.mem_cons_of_mem _ (ih hrest hkl)
    · exact List.mem_cons_of_mem _ (ih h hkl)

/-! ### Containers -/

theorem restores_list {type : String} {contexts : List Context} (hbuilt : ∀ ctx ∈ contexts, ctx.Built p) :
    (Context.list type contexts).Restores p ↔ ∀ ctx ∈ contexts, ctx.Reaches p ctx := by
  have hentries : ∀ kv ∈ contexts.map fun ctx => ("", ctx), kv.2.Built p :=
    List.forall_mem_map.mpr hbuilt
  have hself := loadItems_self_iff hentries
  rw [List.forall_mem_map] at hself
  rw [← hself]
  constructor
  · rintro ⟨root, hsave, hload⟩
    rw [save_list] at hsave
    obtain ⟨items, hitems, rfl⟩ := Option.map_eq_some_iff.mp hsave
    rw [fresh, load_list] at hload
    obtain ⟨loaded, hloaded, heq⟩ := Option.map_eq_some_iff.mp hload
    have hvalues : loaded.map Prod.snd = contexts := by simpa using heq
    have hkeys := map_fst_of_forall₂ (r := Reaches p) ((loadItems_iff hentries).mp ⟨items, hitems, hloaded⟩)
    have hall : loaded = contexts.map fun ctx => ("", ctx) :=
      eq_of_keys_of_values hkeys.symm (by simpa using hvalues)
    exact ⟨items, hitems, hall ▸ hloaded⟩
  · rintro ⟨items, hitems, hloaded⟩
    refine ⟨containerTree type (.node "" items), by rw [save_list, hitems]; rfl, ?_⟩
    rw [fresh, load_list, PTree.children_node, hloaded]
    simp

theorem restores_grouped {entries : List (String × Context)}
    (hsorted : entries.Pairwise (fun a b => a.1 < b.1)) (hbuilt : ∀ kv ∈ entries, kv.2.Built p) :
    (Context.grouped entries).Restores p ↔
      (∀ kv ∈ entries, Clean kv.1) ∧ ∀ kv ∈ entries, kv.2.Reaches p kv.2 := by
  rw [← loadItems_self_iff hbuilt]
  have hplain : (∀ kv ∈ entries, Clean kv.1) → ∀ items, saveEntries p entries = some items →
      PTree.empty.addAll items = some (.node "" items) := by
    intro hclean items hitems
    refine PTree.addAll_of_plain ?_ PTree.empty
    rw [keys_saveEntries hitems, List.forall_mem_map]
    exact fun kv hkv => (hclean kv hkv).1
  constructor
  · rintro ⟨root, hsave, hload⟩
    rw [save_grouped] at hsave
    obtain ⟨items, hitems, hsave⟩ := Option.bind_eq_some_iff.mp hsave
    obtain ⟨pitems, hpitems, rfl⟩ := Option.map_eq_some_iff.mp hsave
    rw [fresh, load_grouped] at hload
    obtain ⟨loaded, hloaded, heq⟩ := Option.map_eq_some_iff.mp hload
    have hoverlay : overlay [] loaded = entries := by simpa using heq
    have hclean : ∀ kv ∈ entries, Clean kv.1 := by
      intro kv hkv
      have hne : kv.1 ≠ "" := ne_empty_of_addAll hpitems (by
        rw [keys_saveEntries hitems]
        exact List.mem_map_of_mem hkv)
      rcases mem_overlay (hoverlay ▸ hkv) with hnil | ⟨kl, hkl, hkey⟩
      · exact absurd hnil List.not_mem_nil
      · obtain ⟨hdot, hnul⟩ := notMem_of_read hpitems (mem_keys_of_loadItems hloaded hkl)
        rw [← hkey] at hdot hnul
        exact ⟨⟨hne, hdot⟩, hnul⟩
    rw [hplain hclean items hitems, Option.some.injEq] at hpitems
    subst hpitems
    have hkeys := map_fst_of_forall₂ (r := Reaches p) ((loadItems_iff hbuilt).mp ⟨items, hitems, hloaded⟩)
    have hall : loaded = entries := by
      rw [← hoverlay, overlay_nil]
      · rw [← List.forall_mem_map (f := Prod.fst), ← hkeys, List.forall_mem_map]
        exact hclean
      · rw [← List.pairwise_map, ← hkeys, List.pairwise_map]
        exact hsorted
    exact ⟨hclean, items, hitems, hall ▸ hloaded⟩
  · rintro ⟨hclean, items, hitems, hloaded⟩
    refine ⟨containerTree "GroupedCtx" (.node "" items), ?_, ?_⟩
    · rw [save_grouped, hitems, Option.bind_some, hplain hclean items hitems]
      rfl
    · rw [fresh, load_grouped, PTree.children_node, hloaded, Option.map_some, overlay_nil hclean hsorted]

/-! ### Whole trees -/

theorem not_reaches_propertySet (set : PropertySet) (loaded : Context) :
    ¬ (Context.propertySet set).Reaches p loaded := by
  rintro ⟨root, hsave, htype, -⟩
  rw [get?_type_propertySet hsave] at htype
  cases htype

theorem not_reaches_refs (actions contexts : List (String × String))
    (workflows : List (String × List (String × String))) (loaded : Context) :
    ¬ (Context.refs actions contexts workflows).Reaches p loaded := by
  rintro ⟨root, hsave, htype, -⟩
  rw [get?_type_refs hsave] at htype
  cases htype

/-- A container writes its type. -/
theorem reaches_self_iff {ctx : Context} (hcontainer : ctx.IsContainer) :
    ctx.Reaches p ctx ↔ ctx.Restores p := by
  refine ⟨fun ⟨root, hsave, _, hload⟩ => ⟨root, hsave, hload⟩, fun ⟨root, hsave, hload⟩ => ?_⟩
  refine ⟨root, hsave, ?_, hload⟩
  match ctx with
  | .list type contexts =>
    rw [save_list] at hsave
    obtain ⟨items, -, rfl⟩ := Option.map_eq_some_iff.mp hsave
    exact get?_containerTree type _
  | .grouped entries =>
    rw [save_grouped] at hsave
    obtain ⟨items, -, hsave⟩ := Option.bind_eq_some_iff.mp hsave
    obtain ⟨pitems, -, rfl⟩ := Option.map_eq_some_iff.mp hsave
    exact get?_containerTree "GroupedCtx" _

/-- What a container gets back of an item is the item, if and only if the item is storable. -/
theorem Built.reaches_iff {ctx : Context} (hctx : ctx.Built p) : ctx.Reaches p ctx ↔ ctx.Storable := by
  induction hctx with
  | base hcreate =>
    have hsave : (Context.leaf "Context" "").save p = some (.node "" [("type", .leaf "Context")]) := by
      rw [save, if_pos rfl, put_type]
    refine iff_of_true ⟨_, hsave, rfl, ?_⟩ (.leaf "Context" "")
    rw [fresh, load, if_pos rfl]
  | skip hcreate =>
    refine iff_of_true ⟨_, put_type "SkipCtx", rfl, ?_⟩ .skip
    rw [fresh, load]
  | @list type contexts hcreate hitems ih =>
    have hcontainer : (Context.list type contexts).IsContainer := trivial
    rw [reaches_self_iff hcontainer, restores_list hitems]
    constructor
    · intro h
      exact .list fun ctx hmem => (ih ctx hmem).mp (h ctx hmem)
    · rintro (_ | _ | hstorable) ctx hmem
      exact (ih ctx hmem).mpr (hstorable ctx hmem)
  | @grouped entries hcreate hsorted hitems ih =>
    have hcontainer : (Context.grouped entries).IsContainer := trivial
    rw [reaches_self_iff hcontainer, restores_grouped hsorted hitems]
    constructor
    · rintro ⟨hclean, h⟩
      exact .grouped hclean fun kv hmem => (ih kv hmem).mp (h kv hmem)
    · intro h
      cases h with
      | grouped hclean hstorable => exact ⟨hclean, fun kv hmem => (ih kv hmem).mpr (hstorable kv hmem)⟩
  | propertySet set hcreate => exact iff_of_false (not_reaches_propertySet set _) (by rintro ⟨⟩)
  | refs actions contexts workflows hcreate =>
    exact iff_of_false (not_reaches_refs actions contexts workflows _) (by rintro ⟨⟩)

/-- A container of contexts of the library is restored from what it saves if and only if nothing in it
is a `PropertySet` or a `RefsStorageCtx` and all keys in it are clean. -/
theorem Built.restores_iff {ctx : Context} (hctx : ctx.Built p) (hcontainer : ctx.IsContainer) :
    ctx.Restores p ↔ ctx.Storable := by
  rw [← reaches_self_iff hcontainer]
  exact hctx.reaches_iff

end Context

namespace Sample

def assorted : Context :=
  .grouped [("items", .list "SampleList" [.skip, .leaf "Context" "", .grouped [("inner", .skip)]]),
    ("other", .leaf "Context" ""), ("skip", .skip)]

theorem assorted_built : assorted.Built platform := by
  have hitems : ∀ ctx ∈ [Context.skip, .leaf "Context" "", .grouped [("inner", .skip)]], ctx.Built platform := by
    simp only [List.forall_mem_cons]
    refine ⟨.skip rfl, .base rfl, .grouped rfl (List.pairwise_singleton _ _) fun kv hkv => ?_, by simp⟩
    rw [List.mem_singleton.mp hkv]
    exact .skip rfl
  refine .grouped rfl (by decide) ?_
  simp only [List.forall_mem_cons]
  exact ⟨.list rfl hitems, .base rfl, .skip rfl, by simp⟩

theorem assorted_storable : assorted.Storable := by
  have hitems : ∀ ctx ∈ [Context.skip, .leaf "Context" "", .grouped [("inner", .skip)]], ctx.Storable := by
    simp only [List.forall_mem_cons]
    refine ⟨.skip, .leaf _ _, .grouped (by decide) fun kv hkv => ?_, by simp⟩
    rw [List.mem_singleton.mp hkv]
    exact .skip
  refine .grouped (by decide) ?_
  simp only [List.forall_mem_cons]
  exact ⟨.list hitems, .leaf _ _, .skip, by simp⟩

theorem assorted_restored : assorted.Restores platform :=
  (assorted_built.restores_iff trivial).mpr assorted_storable

def settings : Context := .grouped [("settings", .propertySet PropertySet.new)]

/-- Registered as its class is, the property set does not come back. -/
theorem settings_not_restored :
    settings.Built platform ∧ settings.IsContainer ∧ ¬ settings.Restores platform := by
  have hitems : ∀ kv ∈ [("settings", Context.propertySet PropertySet.new)], kv.2.Built platform :=
    fun kv hkv => by rw [List.mem_singleton.mp hkv]; exact .propertySet _ rfl
  refine ⟨.grouped rfl (List.pairwise_singleton _ _) hitems, trivial, fun h => ?_⟩
  obtain ⟨-, hreaches⟩ := (Context.restores_grouped (List.pairwise_singleton _ _) hitems).mp h
  exact Context.not_reaches_propertySet _ _ (hreaches _ List.mem_cons_self)

end Sample

end LibWorkflow
