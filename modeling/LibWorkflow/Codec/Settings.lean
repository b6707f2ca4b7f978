import LibWorkflow.Codec.Contexts

/-!
# What a new property set gets back

`PropertySet::save` loaded into an empty set: the guarded flag, and under each key the value, the
description and the exposed flag. The double properties are left out of it, but their keys are not: they
are paths like the others.
-/

namespace LibWorkflow

open Ordered PropertyTree

variable {p : Platform}

def storedProperty {α : Type} (store : List (String × Property α)) (key : String) : Option (α × String × Bool) :=
  (lookupEntry key store).map fun prop => (prop.value, prop.description, prop.exposed)

theorem storedValue_eq_of_storedProperty_eq {α : Type} {store store' : List (String × Property α)}
    (h : ∀ key, storedProperty store' key = storedProperty store key) (key : String) :
    storedValue store' key = storedValue store key := by
  have hvalue : ∀ l : List (String × Property α), storedValue l key = (storedProperty l key).map Prod.fst := by
    intro l
    simp [storedValue, storedProperty, Function.comp_def]
  rw [hvalue, hvalue, h]

theorem Property.readBack_eq {α : Type} {back : α → α} {prop : Property α} (h : back prop.value = prop.value) :
    prop.readBack back = prop := by
  rw [readBack, h]

theorem storedProperty_of_clean {α : Type} {save : Property α → Option PTree} {load : PTree → Property α}
    {back : α → α} {store : List (String × Property α)}
    (hload : ∀ prop root, save prop = some root → load root = prop.readBack back)
    (hsorted : store.Pairwise (fun a b => a.1 < b.1)) {t : PTree} (ht : saveProperties save store = some t)
    (hclean : ∀ kv ∈ store, Clean kv.1) (hread : ∀ kv ∈ store, back kv.2.value = kv.2.value) (key : String) :
    storedProperty (overlay [] (t.children.map fun kv => (kv.1, load kv.2))) key = storedProperty store key := by
  unfold storedProperty
  rw [lookupEntry_of_clean hload hsorted ht hclean]
  cases hstore : lookupEntry key store with
  | none => rfl
  | some prop => simp [Property.readBack_eq (hread _ (mem_of_lookupEntry hstore))]

namespace PropertySet

variable {set loaded : PropertySet}

/-- What a loaded set has of the one that was saved. -/
structure Recovers (set loaded : PropertySet) : Prop where
  guarded : loaded.guarded = set.guarded
  uints : ∀ key, storedProperty loaded.uintValues key = storedProperty set.uintValues key
  bools : ∀ key, storedProperty loaded.boolValues key = storedProperty set.boolValues key
  strings : ∀ key, storedProperty loaded.stringValues key = storedProperty set.stringValues key
  customs : ∀ key, storedProperty loaded.customValues key = storedProperty set.customValues key

/-- What a new set makes of the tree of a recoverable one. -/
theorem Recoverable.recovers (h : set.Recoverable) (hsorted : set.Sorted) {root : PTree}
    (hsave : set.save p = some root) (hload : new.load p root = some loaded) : set.Recovers loaded := by
  obtain ⟨uints, doubles, strings, bools, customs, huints, hdoubles, hstrings, hbools, hcustoms, rfl⟩ :=
    save_eq_some_iff.mp hsave
  obtain ⟨-, rfl⟩ := load_tree_eq_some_iff.mp hload
  rw [loadWith_tree]
  have hnull : ∀ kv ∈ set.customValues, none = kv.2.value := fun kv hkv => (h.null kv hkv).symm
  exact {
    guarded := by simp
    uints := storedProperty_of_clean load_uint hsorted.uints huints h.uints fun _ _ => rfl
    bools := storedProperty_of_clean load_bool hsorted.bools hbools h.bools fun _ _ => rfl
    strings := storedProperty_of_clean load_string hsorted.strings hstrings h.strings fun _ _ => rfl
    customs := storedProperty_of_clean Property.loadCustom_of_saveContext hsorted.customs hcustoms h.customs hnull }

/-- No other set is recovered. -/
theorem recoverable_of_recovers (hsorted : set.Sorted) {root : PTree} (hsave : set.save p = some root)
    (hload : new.load p root = some loaded) (h : set.Recovers loaded) : set.Recoverable := by
  obtain ⟨uints, doubles, strings, bools, customs, huints, hdoubles, hstrings, hbools, hcustoms, rfl⟩ :=
    save_eq_some_iff.mp hsave
  obtain ⟨-, rfl⟩ := load_tree_eq_some_iff.mp hload
  rw [loadWith_tree] at h
  have ouints := overlays_of_storedValue_eq load_uint hsorted.uints (List.forall_mem_nil _) huints
    (storedValue_eq_of_storedProperty_eq h.uints)
  have obools := overlays_of_storedValue_eq load_bool hsorted.bools (List.forall_mem_nil _) hbools
    (storedValue_eq_of_storedProperty_eq h.bools)
  have ostrings := overlays_of_storedValue_eq load_string hsorted.strings (List.forall_mem_nil _) hstrings
    (storedValue_eq_of_storedProperty_eq h.strings)
  have ocustoms := overlays_of_storedValue_eq Property.loadCustom_of_saveContext hsorted.customs
    (List.forall_mem_nil _) hcustoms (storedValue_eq_of_storedProperty_eq h.customs)
  obtain ⟨items, hsaves, hall⟩ := PTree.ofEntries_eq_some_iff.mp hdoubles
  have hkeys : ∀ k ∈ items.map Prod.fst, PropertyTree.key k ≠ "" := exists_addAll_iff.mp ⟨doubles, hall⟩
  rw [hsaves.keys_eq] at hkeys
  have hdoubles : ∀ kv ∈ set.doubleValues, PropertyTree.key kv.1 ≠ "" :=
    fun kv hkv => hkeys kv.1 (List.mem_map_of_mem hkv)
  exact {
    uints := ouints.clean
    doubles := hdoubles
    bools := obools.clean
    strings := ostrings.clean
    customs := ocustoms.clean
    null := fun kv hkv => (ocustoms.readable kv hkv).symm }

/-- A new set that loads what a set has saved recovers it, if and only if the set is recoverable. -/
theorem recovers_iff_recoverable (hsorted : set.Sorted) :
    (∃ root loaded, set.save p = some root ∧ new.load p root = some loaded ∧ set.Recovers loaded) ↔
      set.Recoverable := by
  constructor
  · rintro ⟨root, loaded, hsave, hload, h⟩
    exact recoverable_of_recovers hsorted hsave hload h
  · intro h
    obtain ⟨root, loaded, hsave, hload⟩ := h.exists_load new
    exact ⟨root, loaded, hsave, hload, h.recovers hsorted hsave hload⟩

end PropertySet

namespace Sample

def customised (value : Option Context) : PropertySet :=
  { PropertySet.new with
    uintValues := [("limit", ⟨"limit", "A limit.", false, 1⟩)]
    customValues := [("extra", ⟨"extra", "Anything.", true, value⟩)] }

theorem customised_sorted (value : Option Context) : (customised value).Sorted where
  uints := List.pairwise_singleton _ _
  doubles := .nil
  bools := .nil
  strings := .nil
  customs := List.pairwise_singleton _ _

theorem customised_recovered : ∃ root loaded, (customised none).save platform = some root ∧
    PropertySet.new.load platform root = some loaded ∧ (customised none).Recovers loaded :=
  (PropertySet.recovers_iff_recoverable (customised_sorted none)).mpr {
    uints := by decide
    doubles := by decide
    bools := by decide
    strings := by decide
    customs := by decide
    null := by decide }

/-- The class of the value is registered, and restores it, but the property set does not. -/
theorem customised_not_recovered : (customised (some .skip)).Sorted ∧
    platform.createContext Context.skip.getType = some .skip ∧ Context.skip.Restores platform ∧
      ¬ ∃ root loaded, (customised (some .skip)).save platform = some root ∧
        PropertySet.new.load platform root = some loaded ∧ (customised (some .skip)).Recovers loaded := by
  refine ⟨customised_sorted _, rfl, ?_, ?_⟩
  · have hsave : Context.skip.save platform = some (.node "" [("type", .leaf "SkipCtx")]) := by
      rw [Context.save]
      exact PTree.put_of_plain (by decide) _ (by decide)
    exact ⟨_, hsave, by rw [Context.fresh, Context.load]⟩
  · rintro ⟨root, loaded, hsave, hload, h⟩
    have hnull := (PropertySet.recoverable_of_recovers (customised_sorted _) hsave hload h).null
    cases hnull _ List.mem_cons_self

end Sample

end LibWorkflow
