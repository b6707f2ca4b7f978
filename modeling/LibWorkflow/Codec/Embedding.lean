import LibWorkflow.Codec.Loading
import LibWorkflow.Codec.Workflows

/-!
# Workflows out of a text

A request may carry the text of the workflow that is to execute it. `Workflow("")` is made of it by
`str_load`, which loads in place and whose result nobody looks at: a text that cannot be read leaves the
default layout, and one that breaks off on the way leaves what was registered so far. Either way the
machine is laid out after `init` (`initialised_update`).
-/

namespace LibWorkflow

open Ordered PropertyTree InPlace

variable {ω : Type} (p : Platform)

/-- What a process finds outside the sources to load workflows with: the platform, `ActionFactory::create`
and `read_json`. -/
structure Host (ω : Type) where
  platform : Platform
  create : String → Option (Action ω)
  readJson : String → Option PTree

/-- A workflow that is made of a text: its name and its machine. -/
structure ProvidedWorkflow (ω : Type) where
  name : String
  stateMachine : StateMachine ω
  initialised : stateMachine.Initialised

namespace StateMachine

/-- One turn of the loop of `StateMachine::load` over the actions. -/
def updateAction (create : String → Option (Action ω)) (toutputs : OrdMap ℤ (List OutputBinding))
    (item : String × PTree) : Update (StateMachine ω) :=
  match create ((item.2.get? "name").getD "") with
  | some act => .attempt (act.load p item.2) fun act m =>
      let aid := p.readInt (cstr item.1)
      m.addAction aid act ((toutputs.find? aid).getD [])
  | none => .assign id

/-- `StateMachine::load`: only an action can throw. -/
def update (create : String → Option (Action ω)) (root : PTree) : Update (StateMachine ω) :=
  let toutputs := ((root.getChild? "outputs").map (loadOutputs p)).getD ∅
  .all [
    childUpdate root "actions" fun cactions _ => .all (cactions.children.map (updateAction p create toutputs)),
    childUpdate root "inputs" fun cinputs _ => .assign fun m =>
      (cinputs.children.map fun kv => InputBinding.load p kv.2).foldl addInput m,
    childUpdate root "exposed" fun cexposed _ => .assign fun m =>
      { m with exposedProperties := loadExposed p cexposed }]

/-- `Workflow::load`, of the name and the machine. -/
def updateNamed (create : String → Option (Action ω)) (root : PTree) : Update (String × StateMachine ω) :=
  .all [
    .assign fun wkf => ((root.get? "name").getD wkf.1, wkf.2),
    .onField (update p create root) ⟨Prod.snd, fun m wkf => (wkf.1, m), fun _ _ => rfl, fun _ => rfl⟩]

variable {p}

/-! ### The codec is what loads in place -/

theorem result_updateAction {create : String → Option (Action ω)} {toutputs : OrdMap ℤ (List OutputBinding)}
    (items : List (String × PTree)) (m : StateMachine ω) :
    (Update.all (items.map (updateAction p create toutputs))).result m =
      loadActions p create toutputs m items := by
  induction items generalizing m with
  | nil => rfl
  | cons item items ih =>
    rw [List.map_cons, Update.result_all_cons, loadActions, List.foldlM_cons, updateAction]
    cases create ((item.2.get? "name").getD "") with
    | none => exact ih m
    | some act =>
      simp only [Update.result_attempt]
      cases act.load p item.2 with
      | none => rfl
      | some act => exact ih _

theorem foldl_addInput (starters : List InputBinding) (m : StateMachine ω) :
    starters.foldl addInput m = { m with starters := m.starters ++ starters } := by
  induction starters generalizing m with
  | nil => rw [List.foldl_nil, List.append_nil]
  | cons input starters ih =>
    rw [List.foldl_cons, ih]
    simp [addInput]

theorem result_childAssign {σ : Type} (root : PTree) (key : String) (f : PTree → σ → σ) (s : σ) :
    (childUpdate root key fun child _ => .assign (f child)).result s =
      some (((root.getChild? key).map (f · s)).getD s) := by
  rcases Option.eq_none_or_eq_some (root.getChild? key) with h | ⟨child, h⟩
  · rw [result_childUpdate_of_none _ h, h]
    rfl
  · rw [result_childUpdate _ h, h]
    rfl

theorem result_update (create : String → Option (Action ω)) (root : PTree) (m : StateMachine ω) :
    (update p create root).result m = m.loadTree p create root := by
  have hactions : ∀ toutputs, (childUpdate root "actions" fun cactions _ =>
      Update.all (cactions.children.map (updateAction p create toutputs))).result m =
        ((root.getChild? "actions").map fun cactions =>
          loadActions p create toutputs m cactions.children).getD (some m) := by
    intro toutputs
    rcases Option.eq_none_or_eq_some (root.getChild? "actions") with h | ⟨cactions, h⟩
    · rw [result_childUpdate_of_none _ h, h]
      rfl
    · rw [result_childUpdate _ h, h]
      exact result_updateAction cactions.children m
  simp only [update, loadTree, Update.result_all_cons, Update.result_all_nil, hactions, Option.bind_eq_bind]
  congr 1
  · cases root.getChild? "actions" <;> rfl
  · funext m
    simp only [result_childAssign, Option.bind_some, foldl_addInput]
    cases root.getChild? "inputs" <;> cases root.getChild? "exposed" <;> simp

/-! ### The machine is laid out after `init` -/

theorem Extends.foldl {α : Type} {m n : StateMachine ω} {f : StateMachine ω → α → StateMachine ω} (l : List α)
    (hf : ∀ n a, Extends m n → Extends m (f n a)) (h : Extends m n) : Extends m (l.foldl f n) := by
  induction l generalizing n with
  | nil => exact h
  | cons a l ih => exact ih (hf n a h)

theorem Extends.collectExposed {m n : StateMachine ω} (groups : List (ℤ × List (String × String)))
    (h : Extends m n) : Extends m { n with
      exposedProperties :=
        n.exposedProperties.collect (fun aliases ka => aliases.insert (cstr ka.1) ka.2) ∅ groups } := by
  have hgroup : ∀ (id : ℤ) (aliases : List (String × String)) {n : StateMachine ω}, Extends m n →
      Extends m { n with
        exposedProperties := aliases.foldl (fun exposed ka =>
          exposed.insert id (((exposed.find? id).getD ∅).insert (cstr ka.1) ka.2)) n.exposedProperties } := by
    intro id aliases
    induction aliases with
    | nil => exact fun h => h
    | cons ka aliases ih => exact fun h => ih (h.expose id ka.2 (cstr ka.1))
  induction groups generalizing n with
  | nil => exact h
  | cons group groups ih => exact ih (hgroup group.1 group.2 h)

theorem foldl_unexpose (ids : List ℤ) (m : StateMachine ω) :
    ids.foldl unexpose m = { m with exposedProperties := ids.foldl OrdMap.erase m.exposedProperties } := by
  induction ids generalizing m with
  | nil => rfl
  | cons id ids ih =>
    rw [List.foldl_cons, ih]
    rfl

theorem foldl_erase_keys (exposed : OrdMap ℤ (OrdMap String String)) :
    exposed.keys.foldl OrdMap.erase exposed = ∅ := by
  have hfold : ∀ (ids : List ℤ) (exposed : OrdMap ℤ (OrdMap String String)) (id : ℤ),
      (ids.foldl OrdMap.erase exposed).find? id = if id ∈ ids then none else exposed.find? id := by
    intro ids
    induction ids with
    | nil => exact fun exposed id => by simp
    | cons a ids ih =>
      intro exposed id
      rw [List.foldl_cons, ih, OrdMap.find?_erase]
      by_cases hid : id = a <;> simp [hid]
  refine OrdMap.ext_find? fun id => ?_
  rw [hfold]
  split_ifs with hid
  · rfl
  · cases hfind : exposed.find? id with
    | none => rfl
    | some aliases => exact absurd (OrdMap.mem_keys.mpr ⟨aliases, hfind⟩) hid

theorem Extends.loadExposed {m n : StateMachine ω} (h : Extends m n) (cexposed : PTree) :
    Extends m { n with exposedProperties := loadExposed p cexposed } := by
  have hempty : Extends m { n with exposedProperties := ∅ } := by
    have hunexposed := Extends.foldl n.exposedProperties.keys (fun _ id h => Extends.unexpose h id) h
    rw [foldl_unexpose, foldl_erase_keys] at hunexposed
    exact hunexposed
  exact hempty.collectExposed _

theorem initialised_all {us : List (Update (StateMachine ω))} {m : StateMachine ω} (hm : m.Initialised)
    (hus : ∀ u ∈ us, ∀ m, m.Initialised → (u.apply m).Initialised) : ((Update.all us).apply m).Initialised := by
  rw [Update.apply_all]
  exact List.foldlRecOn _ _ hm fun m hm u hu => hus u (Update.made_subset us hu) m hm

theorem initialised_childUpdate {root : PTree} {key : String}
    {load : (child : PTree) → root.getChild? key = some child → Update (StateMachine ω)} {m : StateMachine ω}
    (hm : m.Initialised) (hload : ∀ child h, ((load child h).apply m).Initialised) :
    ((childUpdate root key load).apply m).Initialised := by
  unfold childUpdate
  split
  · exact hload _ _
  · exact hm

theorem initialised_updateAction {create : String → Option (Action ω)} {toutputs : OrdMap ℤ (List OutputBinding)}
    (item : String × PTree) {m : StateMachine ω} (hm : m.Initialised) :
    ((updateAction p create toutputs item).apply m).Initialised := by
  unfold updateAction
  cases create ((item.2.get? "name").getD "") with
  | none => exact hm
  | some act =>
    dsimp only
    cases act.load p item.2 with
    | none => exact hm
    | some act => exact hm.addAction _ _ _

theorem initialised_update (create : String → Option (Action ω)) (root : PTree) {m : StateMachine ω}
    (hm : m.Initialised) : ((update p create root).apply m).Initialised := by
  unfold update
  refine initialised_all hm fun u hu m hm => ?_
  simp only [List.mem_cons, List.not_mem_nil, or_false] at hu
  rcases hu with rfl | rfl | rfl
  · refine initialised_childUpdate hm fun cactions _ => initialised_all hm fun u hu m hm => ?_
    obtain ⟨item, -, rfl⟩ := List.mem_map.mp hu
    exact initialised_updateAction item hm
  · exact initialised_childUpdate hm fun cinputs _ => hm.foldl _ fun _ input h => h.addInput input
  · exact initialised_childUpdate hm fun cexposed _ => hm.loadExposed cexposed

theorem initialised_updateNamed (create : String → Option (Action ω)) (root : PTree) {wkf : String × StateMachine ω}
    (hm : wkf.2.Initialised) : ((updateNamed p create root).apply wkf).2.Initialised := by
  have hload := initialised_update (p := p) create root hm
  unfold updateNamed
  simp only [Update.apply_all, Update.made, Update.assign, if_true, Update.onField]
  split_ifs
  · exact hload
  · exact hload

end StateMachine

namespace ProvidedWorkflow

/-- `Workflow("")`. -/
def new (ω : Type) : ProvidedWorkflow ω := ⟨"", StateMachine.new.init, .refl⟩

/-- What `str_load` leaves of a workflow, whatever it returns. -/
def strLoad (host : Host ω) (wkf : ProvidedWorkflow ω) (str : String) : ProvidedWorkflow ω :=
  if str.isEmpty then wkf
  else
    match host.readJson str with
    | some root =>
      let load := StateMachine.updateNamed host.platform host.create root
      ⟨(load.apply (wkf.name, wkf.stateMachine)).1, (load.apply (wkf.name, wkf.stateMachine)).2,
        StateMachine.initialised_updateNamed host.create root wkf.initialised⟩
    | none => wkf

end ProvidedWorkflow

end LibWorkflow
