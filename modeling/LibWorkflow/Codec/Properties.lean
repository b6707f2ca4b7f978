import LibWorkflow.Core.Jsonable

/-!
# What a property set gets back

A property set is loaded over the values that are there already, the defaults of its class. So a store
of properties is kept if its keys are read back as they were written, if it has every key the defaults
have, and if each value is what is read back of it (`Overlays`). Doubles are not always read back, and
contexts never are, since `Property<ContextPtr>::load` drops what it loads.
-/

namespace LibWorkflow

open Ordered PropertyTree

variable {p : Platform}

/-! ### The tree of a property set -/

def PropertySet.tree (guarded : String) (uints doubles strings bools customs : PTree) : PTree :=
  .node "" [("guarded", .leaf guarded), ("uint_values", uints), ("double_values", doubles),
    ("string_values", strings), ("bool_values", bools), ("custom_values", customs)]

theorem PropertySetOf.saveWith_eq_some_iff {κ : Type} {set : PropertySetOf κ}
    {items : List (String × PTree)} {root : PTree} :
    set.saveWith p items = some root ↔ ∃ uints doubles strings bools customs,
      saveProperties (Property.save p p.uint32.write) set.uintValues = some uints ∧
      saveProperties (Property.save p p.writeDouble) set.doubleValues = some doubles ∧
      saveProperties (Property.save p id) set.stringValues = some strings ∧
      saveProperties (Property.save p p.bool.write) set.boolValues = some bools ∧
      PTree.empty.addAll items = some customs ∧
      root = PropertySet.tree (p.bool.write set.guarded) uints doubles strings bools customs := by
  have hput : PTree.empty.put "guarded" (p.bool.write set.guarded) =
      some (.node "" [("guarded", .leaf (p.bool.write set.guarded))]) :=
    PTree.put_of_plain (by decide) _ (by decide)
  have hadd : ∀ uints doubles strings bools customs : PTree,
      (PTree.node "" [("guarded", .leaf (p.bool.write set.guarded))]).addAll
          [("uint_values", uints), ("double_values", doubles), ("string_values", strings),
            ("bool_values", bools), ("custom_values", customs)] =
        some (PropertySet.tree (p.bool.write set.guarded) uints doubles strings bools customs) := by
    intro uints doubles strings bools customs
    refine PTree.addAll_of_plain ?_ _
    show ∀ k ∈ ["uint_values", "double_values", "string_values", "bool_values", "custom_values"], Plain k
    decide
  simp only [PropertySetOf.saveWith, hput, Option.bind_eq_bind, Option.bind_some, Option.bind_eq_some_iff,
    hadd, Option.some.injEq]
  constructor
  · rintro ⟨uints, huints, doubles, hdoubles, strings, hstrings, bools, hbools, customs, hcustoms, rfl⟩
    exact ⟨uints, doubles, strings, bools, customs, huints, hdoubles, hstrings, hbools, hcustoms, rfl⟩
  · rintro ⟨uints, doubles, strings, bools, customs, huints, hdoubles, hstrings, hbools, hcustoms, rfl⟩
    exact ⟨uints, huints, doubles, hdoubles, strings, hstrings, bools, hbools, customs, hcustoms, rfl⟩

/-! ### Stores of one type -/

section Store

variable {α : Type}

/-- The value under a key, as the getters of a property set find it. -/
def storedValue (store : List (String × Property α)) (key : String) : Option α :=
  (lookupEntry key store).map Property.value

/-- What a store must be to come back over defaults, if `back` is what is read of a value. -/
structure Overlays (back : α → α) (defaults store : List (String × Property α)) : Prop where
  clean : ∀ kv ∈ store, Clean kv.1
  covers : ∀ key ∈ defaults.map Prod.fst, key ∈ store.map Prod.fst
  readable : ∀ kv ∈ store, back kv.2.value = kv.2.value

theorem Overlays.nil (back : α → α) : Overlays back [] [] :=
  ⟨List.forall_mem_nil _, List.forall_mem_nil _, List.forall_mem_nil _⟩

def Property.readBack (back : α → α) (prop : Property α) : Property α := { prop with value := back prop.value }

variable {save : Property α → Option PTree} {load : PTree → Property α} {back : α → α}
  {defaults store : List (String × Property α)}

theorem saveProperties_of_clean (hclean : ∀ kv ∈ store, Clean kv.1) {t : PTree} :
    saveProperties save store = some t ↔ ∃ items, PTree.Saves save store items ∧ t = .node "" items :=
  PTree.ofEntries_of_plain (List.forall_mem_map.mpr fun kv hkv => (hclean kv hkv).1)

theorem exists_saveProperties (hclean : ∀ kv ∈ store, Clean kv.1)
    (hsave : ∀ kv ∈ store, ∃ child, save kv.2 = some child) : ∃ t, saveProperties save store = some t := by
  obtain ⟨items, hitems⟩ := PTree.exists_saves hsave
  exact ⟨_, (saveProperties_of_clean hclean).mpr ⟨items, hitems, rfl⟩⟩

variable (hload : ∀ prop root, save prop = some root → load root = prop.readBack back)
  (hsorted : store.Pairwise (fun a b => a.1 < b.1))
include hload hsorted

theorem lookupEntry_of_clean {t : PTree} (ht : saveProperties save store = some t)
    (hclean : ∀ kv ∈ store, Clean kv.1) (key : String) :
    lookupEntry key (overlay defaults (t.children.map fun kv => (kv.1, load kv.2))) =
      ((lookupEntry key store).map (Property.readBack back)).or (lookupEntry key defaults) := by
  obtain ⟨items, hsaves, rfl⟩ := (saveProperties_of_clean hclean).mp ht
  rw [PTree.children_node, hsaves.map_load hload, lookupEntry_overlay, lookupEntry_map]
  · exact List.forall_mem_map.mpr hclean
  · exact List.pairwise_map.mpr hsorted

theorem storedValue_of_clean {t : PTree} (ht : saveProperties save store = some t)
    (hclean : ∀ kv ∈ store, Clean kv.1) (key : String) :
    storedValue (overlay defaults (t.children.map fun kv => (kv.1, load kv.2))) key =
      ((storedValue store key).map back).or (storedValue defaults key) := by
  unfold storedValue
  rw [lookupEntry_of_clean hload hsorted ht hclean]
  cases lookupEntry key store <;> rfl

theorem Overlays.storedValue_eq (h : Overlays back defaults store) {t : PTree}
    (ht : saveProperties save store = some t) (key : String) :
    storedValue (overlay defaults (t.children.map fun kv => (kv.1, load kv.2))) key = storedValue store key := by
  rw [storedValue_of_clean hload hsorted ht h.clean]
  unfold storedValue
  cases hstore : lookupEntry key store with
  | some prop =>
    have hread := h.readable _ (mem_of_lookupEntry hstore)
    simp [hread]
  | none =>
    have hnone : lookupEntry key defaults = none :=
      lookupEntry_eq_none_iff.mpr fun hmem => lookupEntry_eq_none_iff.mp hstore (h.covers key hmem)
    simp [hnone]

/-- Over defaults with clean keys, nothing else comes back. -/
theorem overlays_of_storedValue_eq (hdefaults : ∀ kv ∈ defaults, Clean kv.1) {t : PTree}
    (ht : saveProperties save store = some t)
    (h : ∀ key, storedValue (overlay defaults (t.children.map fun kv => (kv.1, load kv.2))) key =
      storedValue store key) : Overlays back defaults store := by
  have hstored : ∀ kv ∈ store, storedValue store kv.1 = some kv.2.value := fun kv hkv => by
    rw [storedValue, lookupEntry_of_mem hsorted hkv, Option.map_some]
  have hclean : ∀ kv ∈ store, Clean kv.1 := by
    intro kv hkv
    obtain ⟨prop, hprop, -⟩ := Option.map_eq_some_iff.mp ((h kv.1).trans (hstored kv hkv))
    rcases mem_overlay (mem_of_lookupEntry hprop) with hmem | ⟨item, hitem, hkey⟩
    · exact hdefaults (kv.1, prop) hmem
    · obtain ⟨items, hsaves, hall⟩ := PTree.ofEntries_eq_some_iff.mp ht
      have hne : kv.1 ≠ "" := ne_empty_of_addAll hall (hsaves.keys_eq ▸ List.mem_map_of_mem hkv)
      obtain ⟨child, hchild, rfl⟩ := List.mem_map.mp hitem
      obtain ⟨hdot, hnul⟩ := notMem_of_read hall (List.mem_map_of_mem hchild)
      exact ⟨⟨hne, by rw [hkey]; exact hdot⟩, by rw [hkey]; exact hnul⟩
  have hback : ∀ key, ((storedValue store key).map back).or (storedValue defaults key) = storedValue store key :=
    fun key => (storedValue_of_clean hload hsorted ht hclean key).symm.trans (h key)
  refine ⟨hclean, fun key hkey => ?_, fun kv hkv => ?_⟩
  · obtain ⟨prop, hprop⟩ := exists_lookupEntry_iff.mpr hkey
    by_contra hnone
    have hstore : storedValue store key = none := Option.map_eq_none_iff.mpr (lookupEntry_eq_none_iff.mpr hnone)
    have hlost := hback key
    rw [hstore, storedValue, hprop] at hlost
    cases hlost
  · have hread := hback kv.1
    rw [hstored kv hkv] at hread
    simpa using hread

end Store

/-! ### Properties -/

theorem Property.save_eq {α : Type} (prop : Property α) (write : α → String) :
    prop.save p write = some (.node "" [("key", .leaf prop.key), ("value", .leaf (write prop.value)),
      ("description", .leaf prop.description), ("exposed", .leaf (p.bool.write prop.exposed))]) := by
  refine PTree.putAll_of_plain ?_ _ ?_
  · show ∀ k ∈ ["key", "value", "description", "exposed"], Plain k
    decide
  · show ["key", "value", "description", "exposed"].Nodup
    decide

theorem Property.load_of_save {α : Type} {write : α → String} {read : String → Option α} {garbage : α}
    (prop : Property α) (root : PTree) (h : prop.save p write = some root) :
    Property.load p read garbage root = prop.readBack fun value => (read (write value)).getD garbage := by
  cases (prop.save_eq write).symm.trans h
  simp (disch := decide) [load, readBack, PTree.get?_of_plain, List.lookup_cons]

def Property.customFields {κ : Type} (p : Platform) (prop : Property κ) : List (String × PTree) :=
  [("key", .leaf prop.key), ("description", .leaf prop.description),
    ("exposed", .leaf (p.bool.write prop.exposed))]

theorem Property.saveCustom_eq {κ : Type} (prop : Property κ) (value : Option PTree) :
    prop.saveCustom p value =
      some (.node "" (prop.customFields p ++ value.toList.map fun child => ("value", child))) := by
  have hfields : PTree.empty.putAll [("key", prop.key), ("description", prop.description),
      ("exposed", p.bool.write prop.exposed)] = some (.node "" (prop.customFields p)) := by
    refine PTree.putAll_of_plain ?_ _ ?_
    · show ∀ k ∈ ["key", "description", "exposed"], Plain k
      decide
    · show ["key", "description", "exposed"].Nodup
      decide
  refine Option.bind_eq_some_iff.mpr ⟨_, hfields, ?_⟩
  cases value with
  | none => simp
  | some value => exact PTree.addChild_of_plain (by decide) value _

theorem Property.loadCustom_of_save {κ : Type} (prop : Property (Option κ)) (value : Option PTree)
    (root : PTree) (h : prop.saveCustom p value = some root) :
    Property.loadCustom p root = prop.readBack fun _ => none := by
  cases (prop.saveCustom_eq value).symm.trans h
  simp (disch := decide) [loadCustom, readBack, customFields, PTree.get?_of_plain, List.lookup_cons]

theorem Property.loadValue_customFields {κ : Type} (prop : Property κ) {root : PTree}
    (hroot : root = .node "" (prop.customFields p)) : loadValue p root = some () := by
  have hnone : root.getChild? "value" = none := by
    subst hroot
    simp (disch := decide) [customFields, PTree.getChild?_of_plain, PTree.child?, List.lookup_cons]
  rw [loadValue]
  split
  · next found h => cases hnone.symm.trans h
  · rfl

/-- `Property<ContextPtr>::save`. -/
def Property.saveContext (p : Platform) (prop : Property (Option Context)) : Option PTree :=
  match prop.value with
  | some value => (value.save p).bind fun cmember => prop.saveCustom p (some cmember)
  | none => prop.saveCustom p none

theorem Property.loadCustom_of_saveContext (prop : Property (Option Context)) (root : PTree)
    (h : prop.saveContext p = some root) : Property.loadCustom p root = prop.readBack fun _ => none := by
  unfold saveContext at h
  split at h
  · obtain ⟨cmember, -, h⟩ := Option.bind_eq_some_iff.mp h
    exact prop.loadCustom_of_save _ root h
  · exact prop.loadCustom_of_save none root h

def Platform.rereadDouble (p : Platform) (value : Float) : Float :=
  (p.readDouble (p.writeDouble value)).getD p.garbage.double

namespace PropertySet

theorem saveCustoms_eq_some_iff {customs : List (String × Property (Option Context))}
    {items : List (String × PTree)} :
    saveCustoms p customs = some items ↔ PTree.Saves (Property.saveContext p) customs items := by
  refine PTree.saves_iff_of_cons (f := saveCustoms p) rfl fun key prop rest => ?_
  obtain ⟨k, description, exposed, value⟩ := prop
  cases value with
  | none =>
    simp only [saveCustoms, Property.saveContext, Property.saveCustom_eq]
    cases saveCustoms p rest <;> rfl
  | some value =>
    simp only [saveCustoms, Property.saveContext, Property.saveCustom_eq]
    cases value.save p <;> cases saveCustoms p rest <;> rfl

/-! ### The tree of a whole set -/

theorem save_eq_some_iff {set : PropertySet} {root : PTree} :
    set.save p = some root ↔ ∃ uints doubles strings bools customs,
      saveProperties (Property.save p p.uint32.write) set.uintValues = some uints ∧
      saveProperties (Property.save p p.writeDouble) set.doubleValues = some doubles ∧
      saveProperties (Property.save p id) set.stringValues = some strings ∧
      saveProperties (Property.save p p.bool.write) set.boolValues = some bools ∧
      saveProperties (Property.saveContext p) set.customValues = some customs ∧
      root = tree (p.bool.write set.guarded) uints doubles strings bools customs := by
  rw [save, Context.save]
  constructor
  · intro h
    obtain ⟨items, hitems, h⟩ := Option.bind_eq_some_iff.mp h
    obtain ⟨uints, doubles, strings, bools, customs, huints, hdoubles, hstrings, hbools, hcustoms, rfl⟩ :=
      PropertySetOf.saveWith_eq_some_iff.mp h
    exact ⟨uints, doubles, strings, bools, customs, huints, hdoubles, hstrings, hbools,
      PTree.ofEntries_eq_some_iff.mpr ⟨items, saveCustoms_eq_some_iff.mp hitems, hcustoms⟩, rfl⟩
  · rintro ⟨uints, doubles, strings, bools, customs, huints, hdoubles, hstrings, hbools, hcustoms, rfl⟩
    obtain ⟨items, hsaves, hall⟩ := PTree.ofEntries_eq_some_iff.mp hcustoms
    exact Option.bind_eq_some_iff.mpr ⟨items, saveCustoms_eq_some_iff.mpr hsaves,
      PropertySetOf.saveWith_eq_some_iff.mpr
        ⟨uints, doubles, strings, bools, customs, huints, hdoubles, hstrings, hbools, hall, rfl⟩⟩

theorem loadCustoms_eq_some_iff {items : List (String × PTree)}
    {customs : List (String × Property (Option Context))} :
    loadCustoms p items = some customs ↔ (∀ item ∈ items, Property.loadValue p item.2 = some ()) ∧
      customs = items.map fun item => (item.1, Property.loadCustom p item.2) := by
  induction items generalizing customs with
  | nil =>
    rw [loadCustoms]
    simp [eq_comm]
  | cons item items ih =>
    rw [loadCustoms, List.forall_mem_cons]
    constructor
    · intro h
      obtain ⟨⟨⟩, hvalue, h⟩ := Option.bind_eq_some_iff.mp h
      obtain ⟨rest, hrest, h⟩ := Option.bind_eq_some_iff.mp h
      cases h
      obtain ⟨hvalues, rfl⟩ := ih.mp hrest
      exact ⟨⟨hvalue, hvalues⟩, rfl⟩
    · rintro ⟨⟨hvalue, hvalues⟩, rfl⟩
      exact Option.bind_eq_some_iff.mpr ⟨(), hvalue, Option.bind_eq_some_iff.mpr ⟨_, ih.mpr ⟨hvalues, rfl⟩, rfl⟩⟩

theorem loadWith_tree (defaults : PropertySet) (guarded : String) (uints doubles strings bools customs : PTree)
    (items : List (String × Property (Option Context))) :
    defaults.loadWith p (tree guarded uints doubles strings bools customs) items = {
      guarded := (p.bool.read guarded).getD defaults.guarded
      uintValues := overlay defaults.uintValues (uints.children.map fun kv =>
        (kv.1, Property.load p p.uint32.read p.garbage.uint32 kv.2))
      doubleValues := overlay defaults.doubleValues (doubles.children.map fun kv =>
        (kv.1, Property.load p p.readDouble p.garbage.double kv.2))
      boolValues := overlay defaults.boolValues (bools.children.map fun kv =>
        (kv.1, Property.load p p.bool.read p.garbage.bool kv.2))
      stringValues := overlay defaults.stringValues (strings.children.map fun kv =>
        (kv.1, Property.load p some "" kv.2))
      customValues := overlay defaults.customValues items } := by
  simp (disch := decide) [PropertySetOf.loadWith, loadProperties, tree, PTree.get?_of_plain,
    PTree.getChild?_of_plain, PTree.child?, List.lookup_cons]

/-- The load fails if the value of a custom property cannot be loaded, which is then dropped anyway. -/
theorem load_tree_eq_some_iff {defaults loaded : PropertySet} {guarded : String}
    {uints doubles strings bools customs : PTree} :
    defaults.load p (tree guarded uints doubles strings bools customs) = some loaded ↔
      (∀ item ∈ customs.children, Property.loadValue p item.2 = some ()) ∧
      loaded = defaults.loadWith p (tree guarded uints doubles strings bools customs)
        (customs.children.map fun kv => (kv.1, Property.loadCustom p kv.2)) := by
  have hcustoms : (tree guarded uints doubles strings bools customs).getChild? "custom_values" = some customs := by
    simp (disch := decide) [tree, PTree.getChild?_of_plain, PTree.child?, List.lookup_cons]
  rw [load]
  split
  · next cmap hcmap =>
    cases hcustoms.symm.trans hcmap
    constructor
    · intro h
      obtain ⟨items, hitems, rfl⟩ := Option.map_eq_some_iff.mp h
      obtain ⟨hvalues, rfl⟩ := loadCustoms_eq_some_iff.mp hitems
      exact ⟨hvalues, rfl⟩
    · rintro ⟨hvalues, rfl⟩
      exact Option.map_eq_some_iff.mpr ⟨_, loadCustoms_eq_some_iff.mpr ⟨hvalues, rfl⟩, rfl⟩
  · next hnone => cases hcustoms.symm.trans hnone

/-! ### Whole sets -/

/-- Each store is a map: its entries stand in the order of their keys. -/
structure Sorted (set : PropertySet) : Prop where
  uints : set.uintValues.Pairwise (fun a b => a.1 < b.1)
  doubles : set.doubleValues.Pairwise (fun a b => a.1 < b.1)
  bools : set.boolValues.Pairwise (fun a b => a.1 < b.1)
  strings : set.stringValues.Pairwise (fun a b => a.1 < b.1)
  customs : set.customValues.Pairwise (fun a b => a.1 < b.1)

/-- The same values under the same keys. -/
structure SameValues (a b : PropertySet) : Prop where
  uints : ∀ key, storedValue a.uintValues key = storedValue b.uintValues key
  doubles : ∀ key, storedValue a.doubleValues key = storedValue b.doubleValues key
  bools : ∀ key, storedValue a.boolValues key = storedValue b.boolValues key
  strings : ∀ key, storedValue a.stringValues key = storedValue b.stringValues key
  customs : ∀ key, storedValue a.customValues key = storedValue b.customValues key

def keys (set : PropertySet) : List String :=
  set.uintValues.map Prod.fst ++ set.doubleValues.map Prod.fst ++ set.boolValues.map Prod.fst ++
    set.stringValues.map Prod.fst ++ set.customValues.map Prod.fst

/-- What a property set must be to come back over defaults: each store `Overlays` the one of the
defaults, and custom properties are null. -/
structure Survives (p : Platform) (set defaults : PropertySet) : Prop where
  uints : Overlays id defaults.uintValues set.uintValues
  doubles : Overlays p.rereadDouble defaults.doubleValues set.doubleValues
  bools : Overlays id defaults.boolValues set.boolValues
  strings : Overlays id defaults.stringValues set.stringValues
  customs : Overlays (fun _ => none) defaults.customValues set.customValues

variable {set defaults loaded : PropertySet}

theorem load_uint (prop : Property UInt32) (root : PTree) (h : prop.save p p.uint32.write = some root) :
    Property.load p p.uint32.read p.garbage.uint32 root = prop.readBack id := by
  rw [Property.load_of_save prop root h]
  simp [Property.readBack]

theorem load_bool (prop : Property Bool) (root : PTree) (h : prop.save p p.bool.write = some root) :
    Property.load p p.bool.read p.garbage.bool root = prop.readBack id := by
  rw [Property.load_of_save prop root h]
  simp [Property.readBack]

theorem load_string (prop : Property String) (root : PTree) (h : prop.save p id = some root) :
    Property.load p some "" root = prop.readBack id := by
  rw [Property.load_of_save prop root h]
  simp [Property.readBack]

def guardedTree (p : Platform) : PTree := tree (p.bool.write true) .empty .empty .empty .empty .empty

theorem save_guarded : save p { new with guarded := true } = some (guardedTree p) :=
  save_eq_some_iff.mpr ⟨.empty, .empty, .empty, .empty, .empty, rfl, rfl, rfl, rfl, rfl, rfl⟩

/-- An empty set changes no value of the set that loads it. -/
theorem load_guarded : defaults.load p (guardedTree p) = some { defaults with guarded := true } := by
  refine load_tree_eq_some_iff.mpr ⟨fun item hitem => absurd hitem List.not_mem_nil, ?_⟩
  rw [loadWith_tree]
  simp [overlay, PTree.empty]

/-- Keys that are read back as they were written, but for those of the doubles, which only have to name a
child, and null custom properties. -/
structure Recoverable (set : PropertySet) : Prop where
  uints : ∀ kv ∈ set.uintValues, Clean kv.1
  doubles : ∀ kv ∈ set.doubleValues, PropertyTree.key kv.1 ≠ ""
  bools : ∀ kv ∈ set.boolValues, Clean kv.1
  strings : ∀ kv ∈ set.stringValues, Clean kv.1
  customs : ∀ kv ∈ set.customValues, Clean kv.1
  null : ∀ kv ∈ set.customValues, kv.2.value = none

theorem recoverable_of_clean (hkeys : ∀ key ∈ set.keys, Clean key)
    (hcustom : ∀ kv ∈ set.customValues, kv.2.value = none) : set.Recoverable := by
  simp only [keys, List.forall_mem_append, List.forall_mem_map] at hkeys
  obtain ⟨⟨⟨⟨kuints, kdoubles⟩, kbools⟩, kstrings⟩, kcustoms⟩ := hkeys
  have hdoubles : ∀ kv ∈ set.doubleValues, PropertyTree.key kv.1 ≠ "" := fun kv hkv => by
    rw [(kdoubles kv hkv).1.key_eq]
    exact (kdoubles kv hkv).1.1
  exact ⟨kuints, hdoubles, kbools, kstrings, kcustoms, hcustom⟩

theorem Recoverable.exists_load (h : set.Recoverable) (defaults : PropertySet) :
    ∃ root loaded, set.save p = some root ∧ defaults.load p root = some loaded := by
  have hnull : ∀ kv ∈ set.customValues, kv.2.saveContext p = some (.node "" (kv.2.customFields p)) := by
    intro kv hkv
    rw [Property.saveContext, h.null kv hkv]
    simpa using kv.2.saveCustom_eq (p := p) none
  obtain ⟨uints, huints⟩ := exists_saveProperties h.uints fun kv _ => ⟨_, kv.2.save_eq p.uint32.write⟩
  obtain ⟨items, hitems⟩ : ∃ items, PTree.Saves (Property.save p p.writeDouble) set.doubleValues items :=
    PTree.exists_saves fun kv _ => ⟨_, kv.2.save_eq p.writeDouble⟩
  have hkeys : ∀ k ∈ items.map Prod.fst, PropertyTree.key k ≠ "" := by
    rw [hitems.keys_eq]
    exact List.forall_mem_map.mpr h.doubles
  obtain ⟨doubles, hall⟩ := exists_addAll_iff (t := PTree.empty).mpr hkeys
  have hdoubles := PTree.ofEntries_eq_some_iff.mpr ⟨items, hitems, hall⟩
  obtain ⟨strings, hstrings⟩ := exists_saveProperties h.strings fun kv _ => ⟨_, kv.2.save_eq (p := p) id⟩
  obtain ⟨bools, hbools⟩ := exists_saveProperties h.bools fun kv _ => ⟨_, kv.2.save_eq p.bool.write⟩
  obtain ⟨customs, hcustoms⟩ := exists_saveProperties h.customs fun kv hkv => ⟨_, hnull kv hkv⟩
  refine ⟨_, _, save_eq_some_iff.mpr ⟨uints, doubles, strings, bools, customs, huints, hdoubles, hstrings,
    hbools, hcustoms, rfl⟩, load_tree_eq_some_iff.mpr ⟨?_, rfl⟩⟩
  obtain ⟨items, hsaves, rfl⟩ := (saveProperties_of_clean h.customs).mp hcustoms
  intro item hitem
  obtain ⟨kv, hkv, -, hsave⟩ := hsaves.exists_of_mem hitem
  exact Property.loadValue_customFields kv.2 (Option.some.inj (hsave.symm.trans (hnull kv hkv)))

theorem exists_load (hkeys : ∀ key ∈ set.keys, Clean key) (hcustom : ∀ kv ∈ set.customValues, kv.2.value = none)
    (defaults : PropertySet) : ∃ root loaded, set.save p = some root ∧ defaults.load p root = some loaded :=
  (recoverable_of_clean hkeys hcustom).exists_load defaults

theorem Survives.sameValues (h : set.Survives p defaults) (hsorted : set.Sorted) {root : PTree}
    (hsave : set.save p = some root) (hload : defaults.load p root = some loaded) : loaded.SameValues set := by
  obtain ⟨uints, doubles, strings, bools, customs, huints, hdoubles, hstrings, hbools, hcustoms, rfl⟩ :=
    save_eq_some_iff.mp hsave
  obtain ⟨-, rfl⟩ := load_tree_eq_some_iff.mp hload
  rw [loadWith_tree]
  exact {
    uints := h.uints.storedValue_eq load_uint hsorted.uints huints
    doubles := h.doubles.storedValue_eq Property.load_of_save hsorted.doubles hdoubles
    bools := h.bools.storedValue_eq load_bool hsorted.bools hbools
    strings := h.strings.storedValue_eq load_string hsorted.strings hstrings
    customs := h.customs.storedValue_eq Property.loadCustom_of_saveContext hsorted.customs hcustoms }

theorem Survives.clean_keys (h : set.Survives p defaults) : ∀ key ∈ set.keys, Clean key := by
  simp only [keys, List.forall_mem_append, List.forall_mem_map]
  exact ⟨⟨⟨⟨h.uints.clean, h.doubles.clean⟩, h.bools.clean⟩, h.strings.clean⟩, h.customs.clean⟩

/-- A set whose stores overlay those of the defaults comes back over them. -/
theorem Survives.restored (h : set.Survives p defaults) (hsorted : set.Sorted) :
    ∃ root loaded, set.save p = some root ∧ defaults.load p root = some loaded ∧ loaded.SameValues set := by
  have hcustom : ∀ kv ∈ set.customValues, kv.2.value = none := fun kv hkv => (h.customs.readable kv hkv).symm
  obtain ⟨root, loaded, hsave, hload⟩ := exists_load h.clean_keys hcustom defaults
  exact ⟨root, loaded, hsave, hload, h.sameValues hsorted hsave hload⟩

/-- Over defaults with clean keys, no other set comes back. -/
theorem survives_of_sameValues (hsorted : set.Sorted) (hdefaults : ∀ key ∈ defaults.keys, Clean key)
    {root : PTree} (hsave : set.save p = some root) (hload : defaults.load p root = some loaded)
    (hsame : loaded.SameValues set) : set.Survives p defaults := by
  obtain ⟨uints, doubles, strings, bools, customs, huints, hdoubles, hstrings, hbools, hcustoms, rfl⟩ :=
    save_eq_some_iff.mp hsave
  obtain ⟨-, rfl⟩ := load_tree_eq_some_iff.mp hload
  rw [loadWith_tree] at hsame
  simp only [keys, List.forall_mem_append, List.forall_mem_map] at hdefaults
  obtain ⟨⟨⟨⟨duints, ddoubles⟩, dbools⟩, dstrings⟩, dcustoms⟩ := hdefaults
  exact {
    uints := overlays_of_storedValue_eq load_uint hsorted.uints duints huints hsame.uints
    doubles := overlays_of_storedValue_eq Property.load_of_save hsorted.doubles ddoubles hdoubles hsame.doubles
    bools := overlays_of_storedValue_eq load_bool hsorted.bools dbools hbools hsame.bools
    strings := overlays_of_storedValue_eq load_string hsorted.strings dstrings hstrings hsame.strings
    customs := overlays_of_storedValue_eq Property.loadCustom_of_saveContext hsorted.customs dcustoms hcustoms
      hsame.customs }

end PropertySet

end LibWorkflow
