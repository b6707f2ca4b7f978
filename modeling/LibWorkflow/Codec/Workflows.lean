import LibWorkflow.Codec.Actions
import LibWorkflow.Codec.Samples
import LibWorkflow.Engine.Layout

/-!
# What a workflow becomes on the wire

`save` and `load` of `core/state_machine.cpp`, and what a state machine after `init` is once it has loaded
the tree of another one. Every action is registered again, with its bindings, so the layout is that of the
machine that was saved (`find?_addAll_init`, `bindings_addAll_init`); each action comes back as far as its
properties do, and of the aliases, which are used as paths, only the clean ones come back.
-/

namespace LibWorkflow

open Ordered PropertyTree

variable {ω : Type} (p : Platform)

/-! ### State machines -/

namespace StateMachine

def saveAliases (aliases : OrdMap String String) : Option PTree := PTree.empty.putAll aliases.entries

/-- `StateMachine::save`. -/
def save (m : StateMachine ω) : Option PTree := do
  let pactions ← PTree.ofEntries (ActionPtr.save p) (p.byId m.actions.entries)
  let poutputs ← PTree.ofEntries (PTree.ofList (OutputBinding.save p)) (p.byId m.outputs.entries)
  let pinputs ← PTree.ofList (InputBinding.save p) m.starters
  let pexposed ← PTree.ofEntries saveAliases (p.byId m.exposedProperties.entries)
  PTree.empty.addAll [("actions", pactions), ("outputs", poutputs), ("inputs", pinputs), ("exposed", pexposed)]

/-- The loop of `StateMachine::load` over the bindings. -/
def loadOutputs (coutputs : PTree) : OrdMap ℤ (List OutputBinding) :=
  OrdMap.collect (fun outputs kvout => outputs ++ [OutputBinding.load p kvout.2]) [] ∅
    (coutputs.children.map fun kv => (p.readInt (cstr kv.1), kv.2.children))

/-- The loop over the actions. `create` is `ActionFactory::create`; an action whose type is not
registered is left out. -/
def loadActions (create : String → Option (Action ω)) (toutputs : OrdMap ℤ (List OutputBinding))
    (m : StateMachine ω) (cactions : List (String × PTree)) : Option (StateMachine ω) :=
  cactions.foldlM (fun m kv =>
    match create ((kv.2.get? "name").getD "") with
    | some act => do
      let act ← act.load p kv.2
      let aid := p.readInt (cstr kv.1)
      return m.addAction aid act ((toutputs.find? aid).getD [])
    | none => some m) m

def loadExposed (cexposed : PTree) : OrdMap ℤ (OrdMap String String) :=
  OrdMap.collect (fun aliases ka => aliases.insert (cstr ka.1) ka.2) ∅ ∅
    (cexposed.children.map fun kv => (p.readInt (cstr kv.1), kv.2.texts))

/-- `StateMachine::load`. -/
def loadTree (create : String → Option (Action ω)) (m : StateMachine ω) (root : PTree) :
    Option (StateMachine ω) := do
  let toutputs := ((root.getChild? "outputs").map (loadOutputs p)).getD ∅
  let m ← (match root.getChild? "actions" with
    | some cactions => loadActions p create toutputs m cactions.children
    | none => some m)
  let starters := ((root.getChild? "inputs").map fun cinputs =>
    cinputs.children.map fun kv => InputBinding.load p kv.2).getD []
  return { m with
    starters := m.starters ++ starters
    exposedProperties := ((root.getChild? "exposed").map (loadExposed p)).getD m.exposedProperties }

def exposedKey (m : StateMachine ω) (id : ℤ) (aliasName : String) : Option String :=
  ((m.exposedProperties.find? id).getD ∅).find? aliasName

/-! ### What it is to come back -/

/-- The same layout, up to what actions do not save. -/
structure SameWorkflow (m n : StateMachine ω) : Prop where
  actions : ∀ id, Option.Rel ActionPtr.Same (m.actions.find? id) (n.actions.find? id)
  bindings : ∀ id, m.bindings id = n.bindings id
  starters : m.starters = n.starters
  exposed : ∀ id aliasName, m.exposedKey id aliasName = n.exposedKey id aliasName

/-- A machine on which only `init` was called becomes the same workflow by loading what is saved. -/
def Restores (create : String → Option (Action ω)) (m : StateMachine ω) : Prop :=
  ∃ root loaded, m.save p = some root ∧ new.init.loadTree p create root = some loaded ∧ loaded.SameWorkflow m

/-- The property values of every action survive, and all aliases are clean. -/
structure Portable (create : String → Option (Action ω)) (m : StateMachine ω) : Prop where
  survives : ∀ {id ptr fresh}, m.actions.find? id = some ptr → create ptr.action.name = some fresh →
    ptr.Survives p fresh
  aliases : ∀ {id aliasName key}, m.exposedKey id aliasName = some key → Clean aliasName

variable {p}

/-! ### What is saved by id -/

section ById

variable {α : Type} {save : α → Option PTree} {m : OrdMap ℤ α} {items : List (String × PTree)}

def readIds (p : Platform) (items : List (String × PTree)) : List (ℤ × PTree) :=
  items.map fun kv => (p.readInt (cstr kv.1), kv.2)

theorem readIds_saves {l : List (ℤ × α)} (h : PTree.Saves save (p.byId l) items) :
    List.Forall₂ (fun kv item => kv.1 = item.1 ∧ save kv.2 = some item.2) l (readIds p items) := by
  rw [readIds, List.forall₂_map_right_iff]
  refine (List.forall₂_map_left_iff.mp h).imp fun kv item hitem => ⟨?_, hitem.2⟩
  rw [← hitem.1, p.readInt_cstr_showInt]

theorem lookup_readIds (h : PTree.Saves save (p.byId m.entries) items) (id : ℤ) :
    Option.Rel (fun value item => save value = some item) (m.find? id) (lookupEntry id (readIds p items)) :=
  lookupEntry_rel (readIds_saves h) id

theorem nodup_readIds (h : PTree.Saves save (p.byId m.entries) items) : ((readIds p items).map Prod.fst).Nodup := by
  rw [← map_fst_of_forall₂ (r := fun value item => save value = some item) (readIds_saves h)]
  exact m.nodup_keys

theorem find?_collect_saves {β γ : Type} (h : PTree.Saves save (p.byId m.entries) items) (f : γ → β → γ) (z : γ)
    (g : PTree → List β) (id : ℤ) :
    ((OrdMap.collect f z ∅ (items.map fun kv => (p.readInt (cstr kv.1), g kv.2))).find? id).getD z =
      (((lookupEntry id (readIds p items)).map g).getD []).foldl f z := by
  have hgroups : (items.map fun kv => (p.readInt (cstr kv.1), g kv.2)) =
      (readIds p items).map fun kv => (kv.1, g kv.2) := by simp [readIds]
  have hnodup : (((readIds p items).map fun kv => (kv.1, g kv.2)).map Prod.fst).Nodup := by
    rw [List.map_map]
    exact nodup_readIds h
  rw [hgroups, OrdMap.find?_collect _ _ hnodup, lookupEntry_map]
  rfl

end ById

/-! ### Bindings -/

theorem loadOutputs_of_saves {m : StateMachine ω} {items : List (String × PTree)}
    (h : PTree.Saves (PTree.ofList (OutputBinding.save p)) (p.byId m.outputs.entries) items) (id : ℤ) :
    ((loadOutputs p (.node "" items)).find? id).getD [] = m.bindings id := by
  have hfold : ∀ l : List (String × PTree),
      l.foldl (fun outputs kvout => outputs ++ [OutputBinding.load p kvout.2]) [] =
        l.map fun kvout => OutputBinding.load p kvout.2 := fun l => by
    rw [List.foldl_append_eq_append, List.nil_append, ← List.flatMap_def, List.map_eq_flatMap]
  rw [loadOutputs, PTree.children_node, find?_collect_saves h, hfold, bindings]
  have hrel := lookup_readIds h id
  cases hfind : m.outputs.find? id with
  | none =>
    rw [hfind] at hrel
    rw [eq_none_of_rel hrel]
    rfl
  | some outputs =>
    rw [hfind] at hrel
    obtain ⟨item, hitem, hsave⟩ := exists_of_rel_some hrel
    rw [PTree.ofList_of_save OutputBinding.save_eq, Option.some.injEq] at hsave
    subst hsave
    rw [hitem]
    simp [Function.comp_def, OutputBinding.load_tree]

/-! ### Aliases -/

theorem exposedKey_eq_some_iff {m : StateMachine ω} {id : ℤ} {aliasName key : String} :
    m.exposedKey id aliasName = some key ↔
      ∃ aliases, m.exposedProperties.find? id = some aliases ∧ aliases.find? aliasName = some key := by
  unfold exposedKey
  cases m.exposedProperties.find? id with
  | none =>
    simp only [Option.getD_none, reduceCtorEq, false_and, exists_false, iff_false]
    exact fun h => nomatch h
  | some aliases => simp

theorem exposedKey_loadExposed {m : StateMachine ω} {items : List (String × PTree)}
    (h : PTree.Saves saveAliases (p.byId m.exposedProperties.entries) items) (id : ℤ) (aliasName : String) :
    (((loadExposed p (.node "" items)).find? id).getD ∅).find? aliasName =
      lookupEntry aliasName (overlay [] (((lookupEntry id (readIds p items)).map PTree.texts).getD [])) := by
  have hfold : ∀ (l : List (String × String)) (aliases : OrdMap String String),
      (l.foldl (fun aliases ka => aliases.insert (cstr ka.1) ka.2) aliases).entries =
        overlay aliases.entries l := by
    intro l
    induction l with
    | nil => exact fun aliases => rfl
    | cons ka l ih => exact fun aliases => ih (aliases.insert (cstr ka.1) ka.2)
  rw [loadExposed, PTree.children_node, find?_collect_saves h]
  exact congrArg (lookupEntry aliasName) (hfold _ ∅)

theorem saveAliases_of_clean {aliases : OrdMap String String} (hclean : ∀ k ∈ aliases.keys, Clean k) :
    saveAliases aliases = some (.node "" (aliases.entries.map fun kv => (kv.1, .leaf kv.2))) := by
  have hplain : ∀ k ∈ aliases.entries.map Prod.fst, Plain k := fun k hk => (hclean k hk).1
  have hnodup : (PTree.empty.keys ++ aliases.entries.map Prod.fst).Nodup := aliases.nodup_keys
  exact PTree.putAll_of_plain hplain _ hnodup

theorem overlay_texts_of_clean {aliases : OrdMap String String} (hclean : ∀ k ∈ aliases.keys, Clean k)
    {t : PTree} (ht : saveAliases aliases = some t) : overlay [] t.texts = aliases.entries := by
  have htexts : t.texts = aliases.entries := by
    cases (saveAliases_of_clean hclean).symm.trans ht
    simp [PTree.texts, Function.comp_def]
  rw [htexts]
  exact overlay_nil (fun entry hentry => hclean _ (List.mem_map_of_mem hentry)) aliases.sorted

theorem clean_of_overlay_texts {aliases : OrdMap String String} {t : PTree} (ht : saveAliases aliases = some t)
    (h : ∀ k ∈ aliases.keys, ∃ v, lookupEntry k (overlay [] t.texts) = some v) :
    ∀ k ∈ aliases.keys, Clean k := by
  -- what is read is what the first piece of an alias is read as
  have hread : ∀ k ∈ aliases.keys, ∃ name ∈ aliases.keys, name ≠ "" ∧ k = cstr (first name) := by
    intro k hk
    obtain ⟨v, hv⟩ := h k hk
    rcases mem_overlay (mem_of_lookupEntry hv) with hnil | ⟨text, htext, hkey⟩
    · exact absurd hnil List.not_mem_nil
    · obtain ⟨child, hchild, rfl⟩ := List.mem_map.mp htext
      rcases PTree.mem_keys_putAll ht (List.mem_map_of_mem hchild) with hnil | ⟨field, hfield, hne, hfirst⟩
      · exact absurd hnil List.not_mem_nil
      · exact ⟨field.1, List.mem_map_of_mem hfield, hne, by rw [← hfirst]; exact hkey⟩
  have hnone : ∀ k ∈ aliases.keys, '.' ∉ k.toList ∧ '\x00' ∉ k.toList := by
    intro k hk
    obtain ⟨name, -, -, rfl⟩ := hread k hk
    exact ⟨dot_notMem_cstr (dot_notMem_first name), nul_notMem_cstr _⟩
  intro k hk
  obtain ⟨name, hname, hne, hkey⟩ := hread k hk
  rw [first_of_notMem (hnone name hname).1, cstr_of_notMem (hnone name hname).2] at hkey
  exact ⟨⟨hkey ▸ hne, (hnone k hk).1⟩, (hnone k hk).2⟩

/-- The aliases of all actions are read as they were written if and only if they are clean. -/
theorem exposedKey_loadExposed_iff {m : StateMachine ω} {items : List (String × PTree)}
    (h : PTree.Saves saveAliases (p.byId m.exposedProperties.entries) items) :
    (∀ id k, (((loadExposed p (.node "" items)).find? id).getD ∅).find? k = m.exposedKey id k) ↔
      ∀ {id k key}, m.exposedKey id k = some key → Clean k := by
  constructor
  · intro hread id k key hkey
    obtain ⟨aliases, hfind, halias⟩ := exposedKey_eq_some_iff.mp hkey
    obtain ⟨t, ht, hsave⟩ := exists_of_rel_some (hfind ▸ lookup_readIds h id)
    refine clean_of_overlay_texts hsave (fun k hk => ?_) k (OrdMap.mem_keys.mpr ⟨key, halias⟩)
    obtain ⟨v, hv⟩ := OrdMap.mem_keys.mp hk
    have hsame := hread id k
    rw [exposedKey_loadExposed h, ht, exposedKey_eq_some_iff.mpr ⟨aliases, hfind, hv⟩] at hsame
    exact ⟨v, hsame⟩
  · intro hclean id k
    have hrel := lookup_readIds h id
    rw [exposedKey_loadExposed h, exposedKey]
    cases hfind : m.exposedProperties.find? id with
    | none =>
      rw [hfind] at hrel
      rw [eq_none_of_rel hrel]
      rfl
    | some aliases =>
      rw [hfind] at hrel
      obtain ⟨t, ht, hsave⟩ := exists_of_rel_some hrel
      have hkeys : ∀ k ∈ aliases.keys, Clean k := fun k hk => by
        obtain ⟨key, hkey⟩ := OrdMap.mem_keys.mp hk
        exact hclean (exposedKey_eq_some_iff.mpr ⟨aliases, hfind, hkey⟩)
      rw [ht, Option.map_some, Option.getD_some, overlay_texts_of_clean hkeys hsave]
      rfl

/-! ### Registrations -/

/-- The actions registered one after the other, with the bindings that were loaded. -/
def addAll (toutputs : OrdMap ℤ (List OutputBinding)) (m : StateMachine ω) (acts : List (ℤ × Action ω)) :
    StateMachine ω :=
  acts.foldl (fun m act => m.addAction act.1 act.2 ((toutputs.find? act.1).getD [])) m

section AddAll

variable {toutputs : OrdMap ℤ (List OutputBinding)} {acts : List (ℤ × Action ω)}

theorem find?_addAll (haccepts : ∀ act ∈ acts, Accepts act.1) (hnodup : (acts.map Prod.fst).Nodup)
    (m : StateMachine ω) (id : ℤ) :
    (addAll toutputs m acts).actions.find? id =
      ((lookupEntry id acts).map fun act => ActionPtr.setActionId ⟨wrapperOf id, act⟩ id).or (m.actions.find? id) := by
  induction acts generalizing m with
  | nil => rfl
  | cons act acts ih =>
    obtain ⟨hhead, haccepts⟩ := List.forall_mem_cons.mp haccepts
    obtain ⟨hnotMem, hnodup⟩ := List.nodup_cons.mp hnodup
    rw [addAll, List.foldl_cons, ← addAll, ih haccepts hnodup, find?_addAction hhead, lookupEntry]
    by_cases hid : act.1 = id
    · subst hid
      simp [lookupEntry_eq_none_iff.mpr hnotMem]
    · simp [hid, Ne.symm hid]

theorem bindings_addAll (haccepts : ∀ act ∈ acts, Accepts act.1) (m : StateMachine ω) (id : ℤ) :
    (addAll toutputs m acts).bindings id =
      if id ∈ acts.map Prod.fst then ((toutputs.find? id).getD []).map (fun ob => { ob with fromActionId := id })
      else m.bindings id := by
  induction acts generalizing m with
  | nil => rfl
  | cons act acts ih =>
    obtain ⟨hhead, haccepts⟩ := List.forall_mem_cons.mp haccepts
    rw [addAll, List.foldl_cons, ← addAll, ih haccepts, bindings_addAction hhead]
    by_cases hid : id = act.1
    · simp [hid]
    · simp only [List.map_cons, List.mem_cons, hid, false_or, if_false]

theorem starters_addAll (haccepts : ∀ act ∈ acts, Accepts act.1) (m : StateMachine ω) :
    (addAll toutputs m acts).starters = m.starters := by
  induction acts generalizing m with
  | nil => rfl
  | cons act acts ih =>
    obtain ⟨hhead, haccepts⟩ := List.forall_mem_cons.mp haccepts
    rw [addAll, List.foldl_cons, ← addAll, ih haccepts]
    obtain ⟨exposed, heq⟩ := addAction_of_accepts hhead m act.2 ((toutputs.find? act.1).getD [])
    rw [heq]

end AddAll

theorem loadActions_eq_some_iff {create : String → Option (Action ω)}
    {toutputs : OrdMap ℤ (List OutputBinding)} {entries : List (ℤ × ActionPtr ω)} {items : List (String × PTree)}
    (hsaves : PTree.Saves (ActionPtr.save p) (p.byId entries) items)
    (hregistered : ∀ kv ∈ entries, ∃ fresh, create kv.2.action.name = some fresh) {m n : StateMachine ω} :
    loadActions p create toutputs m items = some n ↔ ∃ acts,
      List.Forall₂ (fun kv act => kv.1 = act.1 ∧ kv.2.Remade p create act.2) entries acts ∧
        n = addAll toutputs m acts := by
  induction entries generalizing items m with
  | nil =>
    cases hsaves
    constructor
    · intro h
      cases h
      exact ⟨[], .nil, rfl⟩
    · rintro ⟨acts, hacts, rfl⟩
      cases hacts
      rfl
  | cons kv entries ih =>
    obtain ⟨id, ptr⟩ := kv
    obtain ⟨⟨fresh, hfresh⟩, hregistered⟩ := List.forall_mem_cons.mp hregistered
    obtain ⟨item, items', hitem, hrest, rfl⟩ := List.forall₂_cons_left_iff.mp hsaves
    obtain ⟨key, item⟩ := item
    have hkey : p.showInt id = key := hitem.1
    have hsave : ptr.save p = some item := hitem.2
    have hid : p.readInt (cstr key) = id := by
      rw [← hkey, p.readInt_cstr_showInt]
    have hname : item.get? "name" = some ptr.action.name := by
      obtain ⟨pprop, -, rfl⟩ := Option.map_eq_some_iff.mp ((Action.save_eq ptr.own).symm.trans hsave)
      rw [Action.get?_tree, ActionPtr.own_name]
    have hstep : loadActions p create toutputs m ((key, item) :: items') =
        (fresh.load p item).bind fun act =>
          loadActions p create toutputs (m.addAction id act ((toutputs.find? id).getD [])) items' := by
      simp only [loadActions, List.foldlM_cons, hname, Option.getD_some, hfresh, hid]
      cases fresh.load p item <;> rfl
    rw [hstep]
    constructor
    · intro h
      obtain ⟨act, hload, h⟩ := Option.bind_eq_some_iff.mp h
      obtain ⟨acts, hacts, rfl⟩ := (ih hrest hregistered).mp h
      exact ⟨(id, act) :: acts, .cons ⟨rfl, fresh, hfresh, item, hsave, hload⟩ hacts, rfl⟩
    · rintro ⟨acts, hacts, rfl⟩
      obtain ⟨⟨id', act⟩, acts', ⟨hid', fresh', hfresh', root, hsave', hload⟩, hacts', rfl⟩ :=
        List.forall₂_cons_left_iff.mp hacts
      cases hid'
      cases hfresh.symm.trans hfresh'
      cases hsave.symm.trans hsave'
      exact Option.bind_eq_some_iff.mpr ⟨act, hload, (ih hrest hregistered).mpr ⟨acts', hacts', rfl⟩⟩

/-! ### The tree of a machine -/

/-- What `StateMachine::save` writes. -/
def tree (pactions poutputs pinputs pexposed : PTree) : PTree :=
  .node "" [("actions", pactions), ("outputs", poutputs), ("inputs", pinputs), ("exposed", pexposed)]

theorem save_eq_some_iff {m : StateMachine ω} {root : PTree} :
    m.save p = some root ↔ ∃ pactions poutputs pexposed,
      PTree.Saves (ActionPtr.save p) (p.byId m.actions.entries) pactions ∧
      PTree.Saves (PTree.ofList (OutputBinding.save p)) (p.byId m.outputs.entries) poutputs ∧
      PTree.Saves saveAliases (p.byId m.exposedProperties.entries) pexposed ∧
      root = tree (.node "" pactions) (.node "" poutputs)
        (.node "" (m.starters.map fun input => ("", input.tree p))) (.node "" pexposed) := by
  have hadd : ∀ pactions poutputs pinputs pexposed : PTree,
      PTree.empty.addAll [("actions", pactions), ("outputs", poutputs), ("inputs", pinputs),
        ("exposed", pexposed)] = some (tree pactions poutputs pinputs pexposed) := by
    intro pactions poutputs pinputs pexposed
    refine PTree.addAll_of_plain ?_ _
    show ∀ k ∈ ["actions", "outputs", "inputs", "exposed"], Plain k
    decide
  simp only [save, Option.bind_eq_bind, Option.bind_eq_some_iff, Platform.ofEntries_byId,
    PTree.ofList_of_save InputBinding.save_eq, hadd, Option.some.injEq]
  constructor
  · rintro ⟨_, ⟨pactions, hactions, rfl⟩, _, ⟨poutputs, houtputs, rfl⟩, _, rfl, _, ⟨pexposed, hexposed, rfl⟩, rfl⟩
    exact ⟨pactions, poutputs, pexposed, hactions, houtputs, hexposed, rfl⟩
  · rintro ⟨pactions, poutputs, pexposed, hactions, houtputs, hexposed, rfl⟩
    exact ⟨_, ⟨pactions, hactions, rfl⟩, _, ⟨poutputs, houtputs, rfl⟩, _, rfl, _, ⟨pexposed, hexposed, rfl⟩, rfl⟩

theorem loadTree_tree (create : String → Option (Action ω)) (m : StateMachine ω)
    (pactions poutputs pinputs pexposed : PTree) :
    m.loadTree p create (tree pactions poutputs pinputs pexposed) =
      (loadActions p create (loadOutputs p poutputs) m pactions.children).map fun m => { m with
        starters := m.starters ++ pinputs.children.map fun kv => InputBinding.load p kv.2
        exposedProperties := loadExposed p pexposed } := by
  have hactions : (tree pactions poutputs pinputs pexposed).getChild? "actions" = some pactions := by
    simp (disch := decide) [tree, PTree.getChild?_of_plain, PTree.child?]
  have houtputs : (tree pactions poutputs pinputs pexposed).getChild? "outputs" = some poutputs := by
    simp (disch := decide) [tree, PTree.getChild?_of_plain, PTree.child?, List.lookup_cons]
  have hinputs : (tree pactions poutputs pinputs pexposed).getChild? "inputs" = some pinputs := by
    simp (disch := decide) [tree, PTree.getChild?_of_plain, PTree.child?, List.lookup_cons]
  have hexposed : (tree pactions poutputs pinputs pexposed).getChild? "exposed" = some pexposed := by
    simp (disch := decide) [tree, PTree.getChild?_of_plain, PTree.child?, List.lookup_cons]
  simp only [loadTree, hactions, houtputs, hinputs, hexposed, Option.map_some, Option.getD_some]
  cases loadActions p create (loadOutputs p poutputs) m pactions.children <;> rfl

/-! ### Whole machines -/

section Machine

variable {toutputs : OrdMap ℤ (List OutputBinding)} {acts : List (ℤ × Action ω)} {m : StateMachine ω}
  {r : ActionPtr ω → Action ω → Prop}
  (hacts : List.Forall₂ (fun kv act => kv.1 = act.1 ∧ r kv.2 act.2) m.actions.entries acts)
include hacts

theorem accepts_of_forall₂ (hm : m.Laid) : ∀ act ∈ acts, Accepts act.1 := by
  intro act hact
  have hkey : act.1 ∈ m.actions.keys := by
    rw [OrdMap.keys, map_fst_of_forall₂ hacts]
    exact List.mem_map_of_mem hact
  exact hm.allowed (OrdMap.mem_keys.mp hkey)

/-- What is registered after all actions of `m` have been registered again after `init`. -/
theorem find?_addAll_init (hm : m.Initialised) (toutputs : OrdMap ℤ (List OutputBinding)) (id : ℤ) :
    Option.Rel (fun ptr again => ∃ act, r ptr act ∧ again = ActionPtr.setActionId ⟨wrapperOf id, act⟩ id)
      (m.actions.find? id) ((addAll toutputs new.init acts).actions.find? id) := by
  have hnodup : (acts.map Prod.fst).Nodup := by
    rw [← map_fst_of_forall₂ hacts]
    exact m.actions.nodup_keys
  have hrel : Option.Rel r (m.actions.find? id) (lookupEntry id acts) := lookupEntry_rel hacts id
  have hinit : m.actions.find? id = none → (new.init : StateMachine ω).actions.find? id = none := by
    intro hnone
    by_contra hsome
    obtain ⟨ptr, hptr⟩ := Extends.registered hm (Option.ne_none_iff_exists'.mp hsome)
    cases hnone.symm.trans hptr
  rw [find?_addAll (accepts_of_forall₂ hacts hm.laid) hnodup]
  cases hfind : m.actions.find? id with
  | none =>
    rw [hfind] at hrel
    rw [eq_none_of_rel hrel, hinit hfind]
    exact .none
  | some ptr =>
    rw [hfind] at hrel
    obtain ⟨act, hact, hptr⟩ := exists_of_rel_some hrel
    rw [hact]
    exact .some ⟨act, hptr, rfl⟩

theorem bindings_addAll_init (hm : m.Initialised) (htoutputs : ∀ id, (toutputs.find? id).getD [] = m.bindings id)
    (id : ℤ) : (addAll toutputs new.init acts).bindings id = m.bindings id := by
  have hkeys : id ∈ acts.map Prod.fst ↔ m.Registered id := by
    rw [← map_fst_of_forall₂ hacts]
    exact OrdMap.mem_keys
  rw [bindings_addAll (accepts_of_forall₂ hacts hm.laid), htoutputs]
  split_ifs with hid
  · have hown : m.OwnBindings := (Extends.laidOut hm.constructed laidOut_new).ownBindings
    refine (List.map_congr_left fun output houtput => ?_).trans (List.map_id _)
    rw [← hown id output houtput]
    rfl
  · have hnot : ¬m.Registered id := fun h => hid (hkeys.mpr h)
    have hinit : (new.init : StateMachine ω).Laid := Initialised.laid .refl
    rw [hm.laid.bindings_of_not_registered hnot,
      hinit.bindings_of_not_registered fun h => hnot (Extends.registered hm h)]

end Machine

variable {create : String → Option (Action ω)} {m : StateMachine ω}

theorem same_addAll_init {toutputs : OrdMap ℤ (List OutputBinding)} {acts : List (ℤ × Action ω)} (hm : m.Initialised)
    (hacts : List.Forall₂ (fun kv act => kv.1 = act.1 ∧ kv.2.Returns p create act.2) m.actions.entries acts) (id : ℤ) :
    Option.Rel ActionPtr.Same ((addAll toutputs new.init acts).actions.find? id) (m.actions.find? id) := by
  have hrel := find?_addAll_init (r := ActionPtr.Returns p create) hacts hm toutputs id
  cases hfind : m.actions.find? id with
  | none =>
    rw [hfind] at hrel
    rw [eq_none_of_rel hrel]
    exact .none
  | some ptr =>
    rw [hfind] at hrel
    obtain ⟨again, hagain, act, hact, rfl⟩ := exists_of_rel_some hrel
    rw [hagain]
    exact .some {
      wrapper := (hm.laid.wrapper hfind).symm
      name := hact.1.name_eq
      actionId := (hm.laid.own hfind).symm
      values := hact.2 }

/-- A machine whose actions all return, and whose aliases are all clean, is restored. -/
theorem restores_of_returns (hm : m.Initialised)
    (hreturns : ∀ {id ptr}, m.actions.find? id = some ptr → ∃ act, ptr.Returns p create act)
    (hclean : ∀ {id k key}, m.exposedKey id k = some key → Clean k) : m.Restores p create := by
  have hentries : ∀ kv ∈ m.actions.entries, ∃ act, kv.2.Returns p create act := fun kv hkv =>
    hreturns (OrdMap.find?_eq_some_iff.mpr hkv)
  have hregistered : ∀ kv ∈ m.actions.entries, ∃ fresh, create kv.2.action.name = some fresh := by
    intro kv hkv
    obtain ⟨act, ⟨fresh, hfresh, -⟩, -⟩ := hentries kv hkv
    exact ⟨fresh, hfresh⟩
  have hsaved : ∀ entry ∈ p.byId m.actions.entries, ∃ child, ActionPtr.save p entry.2 = some child := by
    refine List.forall_mem_map.mpr fun kv hkv => ?_
    obtain ⟨act, ⟨fresh, -, root, hsave, -⟩, -⟩ := hentries kv hkv
    exact ⟨root, hsave⟩
  have hbound : ∀ entry ∈ p.byId m.outputs.entries,
      ∃ child, PTree.ofList (OutputBinding.save p) entry.2 = some child :=
    fun entry _ => ⟨_, PTree.ofList_of_save OutputBinding.save_eq entry.2⟩
  have hexposable : ∀ entry ∈ p.byId m.exposedProperties.entries, ∃ child, saveAliases entry.2 = some child := by
    refine List.forall_mem_map.mpr fun kv hkv => ⟨_, saveAliases_of_clean fun k hk => ?_⟩
    obtain ⟨key, hkey⟩ := OrdMap.mem_keys.mp hk
    exact hclean (exposedKey_eq_some_iff.mpr ⟨kv.2, OrdMap.find?_eq_some_iff.mpr hkv, hkey⟩)
  obtain ⟨acts, hacts⟩ := exists_forall₂ (r := ActionPtr.Returns p create) hentries
  obtain ⟨pactions, hactions⟩ := PTree.exists_saves hsaved
  obtain ⟨poutputs, houtputs⟩ := PTree.exists_saves hbound
  obtain ⟨pexposed, hexposed⟩ := PTree.exists_saves hexposable
  have hloaded := (loadActions_eq_some_iff (n := addAll (loadOutputs p (.node "" poutputs)) new.init acts)
    hactions hregistered).mpr ⟨acts, hacts.imp fun kv act h => ⟨h.1, h.2.1⟩, rfl⟩
  refine ⟨_, _, save_eq_some_iff.mpr ⟨pactions, poutputs, pexposed, hactions, houtputs, hexposed, rfl⟩,
    (loadTree_tree ..).trans (Option.map_eq_some_iff.mpr ⟨_, hloaded, rfl⟩), ?_, ?_, ?_, ?_⟩
  · exact same_addAll_init hm hacts
  · exact bindings_addAll_init hacts hm (loadOutputs_of_saves houtputs)
  · rw [starters_addAll (accepts_of_forall₂ (r := ActionPtr.Returns p create) hacts hm.laid)]
    have hinit : (new.init : StateMachine ω).starters = [] := rfl
    simp [hinit, Function.comp_def, InputBinding.load_tree]
  · exact (exposedKey_loadExposed_iff hexposed).mpr hclean

/-- The types of the actions being registered, no other machine is. -/
theorem Restores.returns (h : m.Restores p create) (hm : m.Initialised)
    (hregistered : ∀ {id ptr}, m.actions.find? id = some ptr → ∃ fresh, create ptr.action.name = some fresh) :
    (∀ {id ptr}, m.actions.find? id = some ptr → ∃ act, ptr.Returns p create act) ∧
      ∀ {id k key}, m.exposedKey id k = some key → Clean k := by
  obtain ⟨root, loaded, hsave, hload, hsame⟩ := h
  obtain ⟨pactions, poutputs, pexposed, hactions, houtputs, hexposed, rfl⟩ := save_eq_some_iff.mp hsave
  rw [loadTree_tree] at hload
  obtain ⟨registered, hloaded, rfl⟩ := Option.map_eq_some_iff.mp hload
  obtain ⟨acts, hacts, rfl⟩ := (loadActions_eq_some_iff hactions fun kv hkv =>
    hregistered (OrdMap.find?_eq_some_iff.mpr hkv)).mp hloaded
  refine ⟨fun {id ptr} hptr => ?_, (exposedKey_loadExposed_iff hexposed).mp hsame.exposed⟩
  have hvalues := hsame.actions id
  obtain ⟨again, hagain, act, hact, rfl⟩ := exists_of_rel_some (hptr ▸ find?_addAll_init hacts hm _ id)
  rw [hagain, hptr] at hvalues
  cases hvalues with
  | some hvalues => exact ⟨act, hact, hvalues.values⟩

section Portable

variable (hm : m.Initialised)
  (hregistered : ∀ {id ptr}, m.actions.find? id = some ptr → ∃ fresh, create ptr.action.name = some fresh)
  (hsorted : ∀ {id ptr}, m.actions.find? id = some ptr → ptr.action.properties.Sorted)
include hm hregistered hsorted

theorem Portable.restores (h : m.Portable p create) : m.Restores p create := by
  refine restores_of_returns hm (fun hptr => ?_) h.aliases
  obtain ⟨fresh, hfresh⟩ := hregistered hptr
  obtain ⟨act, hreloads, hsame⟩ := (h.survives hptr hfresh).reloads (hsorted hptr)
  exact ⟨act, ⟨fresh, hfresh, hreloads⟩, hsame⟩

theorem Restores.portable (h : m.Restores p create)
    (hdefaults : ∀ {id ptr fresh}, m.actions.find? id = some ptr → create ptr.action.name = some fresh →
      ∀ key ∈ fresh.properties.keys, Clean key) : m.Portable p create := by
  obtain ⟨hreturns, hclean⟩ := h.returns hm hregistered
  refine ⟨fun {id ptr fresh} hptr hfresh => ?_, hclean⟩
  obtain ⟨act, ⟨fresh', hfresh', hreloads⟩, hsame⟩ := hreturns hptr
  cases hfresh.symm.trans hfresh'
  exact ActionPtr.survives_of_reloads hreloads hsame (hsorted hptr) (hdefaults hptr hfresh)

/-- A machine laid out after `init`, whose types of actions are all registered, is restored if it is
portable, and, over defaults with clean keys, only then. -/
theorem restores_if_portable_and_conversely :
    (m.Portable p create → m.Restores p create) ∧
      ((∀ {id ptr fresh}, m.actions.find? id = some ptr → create ptr.action.name = some fresh →
        ∀ key ∈ fresh.properties.keys, Clean key) → m.Restores p create → m.Portable p create) :=
  ⟨fun h => h.restores hm hregistered hsorted, fun hdefaults h => h.portable hm hregistered hsorted hdefaults⟩

end Portable

end StateMachine

namespace Sample

def limited (limit : UInt32) : Action Unit :=
  { Action.ofPerform "Limited" ∅ ∅ fun id env s => .ofResult env s ⟨id, .done, none⟩ with
    properties := { PropertySet.new with
      guarded := true
      uintValues := [("limit", ⟨"limit", "", true, limit⟩)] } }

def registry (type : String) : Option (Action Unit) :=
  if type = "Action" then some (.unimplemented Unit)
  else if type = "Next" then some (.defaultNext Unit)
  else if type = "Limited" then some (limited 0)
  else none

open StateMachine

def noProperties : PropertySet := { PropertySet.new with guarded := true }

theorem registered_cases {id : ℤ} {bs : List OutputBinding} {a : ℤ} {ptr : ActionPtr Unit}
    (h : (new.init.addAction id (limited 1) bs).actions.find? a = some ptr) :
    (ptr.wrapper = wrapperOf id ∧ ptr.action.name = "Limited" ∧ ptr.action.properties = (limited 1).properties) ∨
      (ptr.action.name = "Action" ∨ ptr.action.name = "Next") ∧ ptr.action.properties = noProperties := by
  refine forall_addAction (P := fun _ ptr => (ptr.wrapper = wrapperOf id ∧ ptr.action.name = "Limited" ∧
    ptr.action.properties = (limited 1).properties) ∨ (ptr.action.name = "Action" ∨ ptr.action.name = "Next") ∧
      ptr.action.properties = noProperties) ?_ (.inl ⟨rfl, rfl, rfl⟩) bs a ptr h
  refine forall_addAction (forall_addAction (forall_addAction (forall_addAction
    (fun _ _ h => nomatch h) ?_ _) ?_ _) ?_ _) ?_ _
  · exact .inr ⟨.inl rfl, rfl⟩
  · exact .inr ⟨.inr rfl, rfl⟩
  · exact .inr ⟨.inr rfl, rfl⟩
  · exact .inr ⟨.inr rfl, rfl⟩

theorem exists_registry {id : ℤ} {bs : List OutputBinding} {a : ℤ} {ptr : ActionPtr Unit}
    (h : (new.init.addAction id (limited 1) bs).actions.find? a = some ptr) :
    ∃ fresh, registry ptr.action.name = some fresh := by
  rcases registered_cases h with ⟨-, hname, -⟩ | ⟨hname | hname, -⟩
  · exact ⟨limited 0, by rw [hname]; rfl⟩
  · exact ⟨.unimplemented Unit, by rw [hname]; rfl⟩
  · exact ⟨.defaultNext Unit, by rw [hname]; rfl⟩

theorem properties_sorted {id : ℤ} {bs : List OutputBinding} {a : ℤ} {ptr : ActionPtr Unit}
    (h : (new.init.addAction id (limited 1) bs).actions.find? a = some ptr) : ptr.action.properties.Sorted := by
  rcases registered_cases h with ⟨-, -, hproperties⟩ | ⟨-, hproperties⟩ <;> rw [hproperties]
  · exact ⟨List.pairwise_singleton _ _, .nil, .nil, .nil, .nil⟩
  · exact ⟨.nil, .nil, .nil, .nil, .nil⟩

def stored : StateMachine Unit :=
  ((new.init.addAction 1 (limited 1) [bindingTo 1 "" Step.finish.id ""]).addInput ⟨"", 1, ""⟩).expose
    1 "limit" "max"

theorem stored_portable : stored.Portable platform registry := by
  constructor
  · intro a ptr fresh hptr hfresh
    rcases registered_cases hptr with ⟨hwrapper, hname, hproperties⟩ | ⟨hname, hproperties⟩
    · rw [hname] at hfresh
      cases hfresh
      have hnone : ptr.wrapper = none := hwrapper.trans (by decide)
      rw [ActionPtr.Survives, if_pos hnone, hproperties]
      have huints : Overlays id (limited 0).properties.uintValues (limited 1).properties.uintValues :=
        ⟨by decide, by decide, fun _ _ => rfl⟩
      exact ⟨huints, .nil _, .nil _, .nil _, .nil _⟩
    · have hdefault : fresh.properties = noProperties := by
        rcases hname with hname | hname <;> rw [hname] at hfresh <;> cases hfresh <;> rfl
      rw [ActionPtr.Survives, hdefault, hproperties]
      split_ifs
      · exact ⟨.nil _, .nil _, .nil _, .nil _, .nil _⟩
      · exact ⟨fun _ => rfl, fun _ => rfl, fun _ => rfl, fun _ => rfl, fun _ => rfl⟩
  · intro a aliasName key hkey
    have hentries : ∀ entry ∈ stored.exposedProperties.entries, ∀ k ∈ entry.2.keys, Clean k := by decide
    obtain ⟨aliases, hfind, halias⟩ := exposedKey_eq_some_iff.mp hkey
    exact hentries _ (OrdMap.find?_eq_some_iff.mp hfind) aliasName (OrdMap.mem_keys.mpr ⟨key, halias⟩)

theorem stored_restored : stored.Restores platform registry :=
  (restores_if_portable_and_conversely (.expose (.addInput (.addAction .refl _ _ _) _) _ _ _)
    exists_registry properties_sorted).1 stored_portable

def interrupting : StateMachine Unit := new.init.addAction Step.interrupt.id (limited 1) []

/-- The property is back at its default. -/
theorem interrupting_not_restored : interrupting.Initialised ∧
    (∀ {id ptr}, interrupting.actions.find? id = some ptr → ∃ fresh, registry ptr.action.name = some fresh) ∧
    (∀ {id ptr}, interrupting.actions.find? id = some ptr → ptr.action.properties.Sorted) ∧
    ¬ interrupting.Restores platform registry := by
  refine ⟨.addAction .refl _ _ _, exists_registry, properties_sorted, fun h => ?_⟩
  obtain ⟨hreturns, -⟩ := h.returns (.addAction .refl _ _ _) exists_registry
  have hptr : interrupting.actions.find? Step.interrupt.id =
      some (ActionPtr.setActionId ⟨some .interrupt, limited 1⟩ Step.interrupt.id) := rfl
  obtain ⟨act, ⟨fresh, hfresh, hreloads⟩, hsame⟩ := hreturns hptr
  cases hfresh
  cases (ActionPtr.reloads_iff_of_wrapper (by decide)).mp hreloads
  exact absurd (hsame.uints "limit") (by decide)

end Sample

end LibWorkflow
