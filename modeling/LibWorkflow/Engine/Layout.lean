import LibWorkflow.Core.StateMachine

/-!
# Layouts

What holds of every state machine its methods can make (`Constructed.laid`): each registered action
knows its id and carries the wrapper of that id, bindings start at registered actions, and
`inputs_map` lists exactly the predecessors of an action. A machine made after `init` also has its
default steps (`Initialised.registered`).
-/

namespace LibWorkflow

open Ordered

namespace StateMachine

variable {ω : Type}

def Registered (m : StateMachine ω) (id : ℤ) : Prop := ∃ ptr, m.actions.find? id = some ptr

/-- There is a binding from `a` to `b`: `a` is a predecessor of `b`. -/
def Leads (m : StateMachine ω) (a b : ℤ) : Prop := ∃ output ∈ m.bindings a, output.toActionId = b

/-- The layout is in order. -/
structure Laid (m : StateMachine ω) : Prop where
  own : ∀ {id ptr}, m.actions.find? id = some ptr → ptr.getActionId = id
  wrapper : ∀ {id ptr}, m.actions.find? id = some ptr → ptr.wrapper = wrapperOf id
  allowed : ∀ {id}, m.Registered id → wrapperOf id ≠ none ∨ 0 ≤ id
  source : ∀ {a b}, m.Leads a b → m.Registered a
  inputs : ∀ {a b}, a ∈ (m.inputsMap.find? b).getD ∅ ↔ m.Leads a b

/-! ### `addAction` -/

theorem foldl_expose (m : StateMachine ω) (id : ℤ) (keys : List String) :
    ∃ exposed, keys.foldl (fun m key => m.expose id key key) m = { m with exposedProperties := exposed } := by
  induction keys generalizing m with
  | nil => exact ⟨m.exposedProperties, rfl⟩
  | cons key keys ih => exact ih (m.expose id key key)

/-- The id is one `addAction` takes. -/
def Accepts (id : ℤ) : Prop := wrapperOf id ≠ none ∨ 0 ≤ id

instance (id : ℤ) : Decidable (Accepts id) := inferInstanceAs (Decidable (wrapperOf id ≠ none ∨ 0 ≤ id))

theorem addAction_of_not_accepts {m : StateMachine ω} {id : ℤ} (h : ¬Accepts id) (action : Action ω)
    (bindings : List OutputBinding) : m.addAction id action bindings = m := by
  simp only [Accepts, not_or, ne_eq, not_not, not_le] at h
  unfold addAction
  rw [if_pos h]

theorem addAction_of_accepts {id : ℤ} (h : Accepts id) (m : StateMachine ω) (action : Action ω)
    (bindings : List OutputBinding) :
    let outputs := m.outputs.insert id (bindings.map fun ob => { ob with fromActionId := id })
    ∃ exposed, m.addAction id action bindings =
      { actions := m.actions.insert id (ActionPtr.setActionId ⟨wrapperOf id, action⟩ id)
        outputs := outputs
        inputsMap := buildInputsMap outputs
        exposedProperties := exposed
        starters := m.starters } := by
  have hnot : ¬(wrapperOf id = none ∧ id < 0) := by
    rintro ⟨hw, hlt⟩
    rcases h with hw' | hle
    · exact hw' hw
    · omega
  unfold addAction
  rw [if_neg hnot]
  exact foldl_expose _ _ _

theorem mem_addInputsMap {inputsMap : OrdMap ℤ (OrdSet ℤ)} {output : OutputBinding} {a b : ℤ} :
    a ∈ ((addInputsMap inputsMap output).find? b).getD ∅ ↔
      a ∈ (inputsMap.find? b).getD ∅ ∨ output.fromActionId = a ∧ output.toActionId = b := by
  unfold addInputsMap
  rw [OrdMap.find?_insert]
  by_cases hb : b = output.toActionId
  · rw [if_pos hb, Option.getD_some, OrdSet.mem_insert, hb]
    simp only [and_true, eq_comm, or_comm]
  · rw [if_neg hb]
    simp only [Ne.symm hb, and_false, or_false]

theorem mem_foldl_addInputsMap {l : List OutputBinding} {inputsMap : OrdMap ℤ (OrdSet ℤ)} {a b : ℤ} :
    a ∈ ((l.foldl addInputsMap inputsMap).find? b).getD ∅ ↔
      a ∈ (inputsMap.find? b).getD ∅ ∨ ∃ o ∈ l, o.fromActionId = a ∧ o.toActionId = b := by
  induction l generalizing inputsMap with
  | nil => simp
  | cons o l ih =>
    rw [List.foldl_cons, ih, mem_addInputsMap, or_assoc]
    simp only [List.mem_cons, exists_eq_or_imp]

def OwnBindings (m : StateMachine ω) : Prop := ∀ a, ∀ o ∈ m.bindings a, o.fromActionId = a

theorem mem_buildInputsMap {m : StateMachine ω} (hown : m.OwnBindings) {a b : ℤ} :
    a ∈ ((buildInputsMap m.outputs).find? b).getD ∅ ↔ m.Leads a b := by
  rw [buildInputsMap, mem_foldl_addInputsMap]
  have hempty : a ∉ ((∅ : OrdMap ℤ (OrdSet ℤ)).find? b).getD ∅ := by
    intro h
    cases h
  simp only [hempty, false_or, List.mem_flatMap, Prod.exists]
  constructor
  · rintro ⟨o, ⟨id, l, hentry, ho⟩, rfl, rfl⟩
    have hbindings : m.bindings id = l := by
      rw [bindings, OrdMap.find?_eq_some_iff.mpr hentry, Option.getD_some]
    have hfrom : o.fromActionId = id := hown id o (hbindings ▸ ho)
    exact ⟨o, by rw [hfrom, hbindings]; exact ho, rfl⟩
  · rintro ⟨o, ho, rfl⟩
    have hfrom := hown a o ho
    unfold bindings at ho
    cases hl : m.outputs.find? a with
    | none => rw [hl] at ho; cases ho
    | some l =>
      rw [hl, Option.getD_some] at ho
      exact ⟨o, ⟨a, l, OrdMap.find?_eq_some_iff.mp hl, ho⟩, hfrom, rfl⟩

theorem bindings_addAction {m : StateMachine ω} {id : ℤ} (h : Accepts id) (action : Action ω)
    (bs : List OutputBinding) (a : ℤ) :
    (m.addAction id action bs).bindings a =
      if a = id then bs.map (fun ob => { ob with fromActionId := id }) else m.bindings a := by
  obtain ⟨exposed, heq⟩ := addAction_of_accepts h m action bs
  rw [heq]
  simp only [bindings, OrdMap.find?_insert]
  split_ifs <;> rfl

theorem mem_of_bindings {m : StateMachine ω} {a : ℤ} {output : OutputBinding} (h : output ∈ m.bindings a) :
    output ∈ m.outputs.entries.flatMap Prod.snd := by
  unfold bindings at h
  cases hfind : m.outputs.find? a with
  | none =>
    rw [hfind] at h
    cases h
  | some outputs =>
    rw [hfind] at h
    exact List.mem_flatMap.mpr ⟨(a, outputs), OrdMap.find?_eq_some_iff.mp hfind, h⟩

theorem find?_addAction {m : StateMachine ω} {id : ℤ} (h : Accepts id) (action : Action ω)
    (bs : List OutputBinding) (a : ℤ) :
    (m.addAction id action bs).actions.find? a =
      if a = id then some (ActionPtr.setActionId ⟨wrapperOf id, action⟩ id) else m.actions.find? a := by
  obtain ⟨exposed, heq⟩ := addAction_of_accepts h m action bs
  rw [heq, OrdMap.find?_insert]

theorem find?_init (a : ℤ) : (new.init : StateMachine ω).actions.find? a =
    if a = Step.cleanup.id then
      some (ActionPtr.setActionId ⟨wrapperOf Step.cleanup.id, .defaultNext ω⟩ Step.cleanup.id)
    else if a = Step.finish.id then
      some (ActionPtr.setActionId ⟨wrapperOf Step.finish.id, .defaultNext ω⟩ Step.finish.id)
    else if a = Step.error.id then
      some (ActionPtr.setActionId ⟨wrapperOf Step.error.id, .defaultNext ω⟩ Step.error.id)
    else if a = Step.initialisation.id then
      some (ActionPtr.setActionId ⟨wrapperOf Step.initialisation.id, .unimplemented ω⟩ Step.initialisation.id)
    else none := by
  unfold init
  rw [find?_addAction (.inl (by decide)), find?_addAction (.inl (by decide)), find?_addAction (.inl (by decide)),
    find?_addAction (.inr (by decide))]
  rfl

theorem bindings_init (a : ℤ) : (new.init : StateMachine ω).bindings a =
    if a = Step.cleanup.id then [bindingTo Step.cleanup.id "" Step.die.id ""]
    else if a = Step.finish.id then [bindingTo Step.finish.id "" Step.cleanup.id ""]
    else if a = Step.error.id then [bindingTo Step.error.id "" Step.cleanup.id ""]
    else if a = Step.initialisation.id then [bindingTo Step.initialisation.id "" Step.finish.id ""]
    else [] := by
  unfold init
  rw [bindings_addAction (.inl (by decide)), bindings_addAction (.inl (by decide)),
    bindings_addAction (.inl (by decide)), bindings_addAction (.inr (by decide))]
  rfl

/-- What holds of the registered actions and of a new one holds when the new one is added. -/
theorem forall_addAction {m : StateMachine ω} {P : ℤ → ActionPtr ω → Prop}
    (h : ∀ id ptr, m.actions.find? id = some ptr → P id ptr) {id : ℤ} {action : Action ω}
    (hnew : P id (ActionPtr.setActionId ⟨wrapperOf id, action⟩ id)) (bs : List OutputBinding) :
    ∀ a ptr, (m.addAction id action bs).actions.find? a = some ptr → P a ptr := by
  by_cases hid : Accepts id
  · intro a ptr hptr
    rw [find?_addAction hid] at hptr
    split_ifs at hptr with ha
    · cases hptr
      exact ha ▸ hnew
    · exact h a ptr hptr
  · rw [addAction_of_not_accepts hid]
    exact h

theorem registered_addAction {m : StateMachine ω} {id a : ℤ} (action : Action ω)
    (bs : List OutputBinding) (h : m.Registered a) : (m.addAction id action bs).Registered a := by
  by_cases hid : Accepts id
  · unfold Registered
    rw [find?_addAction hid]
    split_ifs
    · exact ⟨_, rfl⟩
    · exact h
  · rw [addAction_of_not_accepts hid]
    exact h

/-! ### Every machine is laid out in order -/

/-- What the induction over the calls keeps: with `OwnBindings`, the order of the layout. -/
structure LaidOut (m : StateMachine ω) : Prop extends Laid m where
  ownBindings : m.OwnBindings

theorem LaidOut.addAction {m : StateMachine ω} (h : m.LaidOut) (id : ℤ) (action : Action ω)
    (bs : List OutputBinding) : (m.addAction id action bs).LaidOut := by
  by_cases hid : Accepts id
  swap
  · rw [addAction_of_not_accepts hid]
    exact h
  have hown : (m.addAction id action bs).OwnBindings := by
    intro a o ho
    rw [bindings_addAction hid] at ho
    by_cases ha : a = id
    · rw [if_pos ha, List.mem_map] at ho
      obtain ⟨o', -, rfl⟩ := ho
      exact ha.symm
    · rw [if_neg ha] at ho
      exact h.ownBindings a o ho
  have hsource : ∀ {a b}, (m.addAction id action bs).Leads a b →
      (m.addAction id action bs).Registered a := by
    rintro a b ⟨o, ho, rfl⟩
    by_cases ha : a = id
    · exact ⟨_, (find?_addAction hid action bs a).trans (if_pos ha)⟩
    · rw [bindings_addAction hid, if_neg ha] at ho
      exact registered_addAction action bs (h.source ⟨o, ho, rfl⟩)
  refine ⟨⟨?_, ?_, ?_, hsource, ?_⟩, hown⟩
  · intro a ptr hptr
    rw [find?_addAction hid] at hptr
    split_ifs at hptr with ha
    · cases hptr; exact ha.symm
    · exact h.own hptr
  · intro a ptr hptr
    rw [find?_addAction hid] at hptr
    split_ifs at hptr with ha
    · cases hptr; rw [ha]; rfl
    · exact h.wrapper hptr
  · rintro a ⟨ptr, hptr⟩
    rw [find?_addAction hid] at hptr
    split_ifs at hptr with ha
    · rw [ha]; exact hid
    · exact h.allowed ⟨ptr, hptr⟩
  · intro a b
    have hmap : (m.addAction id action bs).inputsMap = buildInputsMap (m.addAction id action bs).outputs := by
      obtain ⟨exposed, heq⟩ := addAction_of_accepts hid m action bs
      rw [heq]
    rw [hmap]
    exact mem_buildInputsMap hown

theorem laidOut_new : (new : StateMachine ω).LaidOut where
  own h := nomatch h
  wrapper h := nomatch h
  allowed h := nomatch h
  source h := nomatch h
  inputs := ⟨(nomatch ·), (nomatch ·)⟩
  ownBindings _ _ h := nomatch h

theorem Extends.laidOut {m n : StateMachine ω} (h : Extends m n) (hm : m.LaidOut) : n.LaidOut := by
  induction h with
  | refl => exact hm
  | addAction _ id action bs ih => exact ih.addAction id action bs
  | addInput _ input ih => exact ⟨⟨ih.own, ih.wrapper, ih.allowed, ih.source, ih.inputs⟩, ih.ownBindings⟩
  | expose _ id key name ih => exact ⟨⟨ih.own, ih.wrapper, ih.allowed, ih.source, ih.inputs⟩, ih.ownBindings⟩
  | unexpose _ id ih => exact ⟨⟨ih.own, ih.wrapper, ih.allowed, ih.source, ih.inputs⟩, ih.ownBindings⟩
  | unexposeAlias _ id name ih =>
    exact ⟨⟨ih.own, ih.wrapper, ih.allowed, ih.source, ih.inputs⟩, ih.ownBindings⟩

theorem Extends.trans {m n p : StateMachine ω} (h : Extends m n) (h' : Extends n p) : Extends m p := by
  induction h' with
  | refl => exact h
  | addAction _ id action bs ih => exact ih.addAction id action bs
  | addInput _ input ih => exact ih.addInput input
  | expose _ id key name ih => exact ih.expose id key name
  | unexpose _ id ih => exact ih.unexpose id
  | unexposeAlias _ id name ih => exact ih.unexposeAlias id name

theorem Extends.registered {m n : StateMachine ω} (h : Extends m n) {id : ℤ} (hid : m.Registered id) :
    n.Registered id := by
  induction h with
  | refl => exact hid
  | addAction _ _ action bs ih => exact registered_addAction action bs ih
  | addInput _ _ ih | expose _ _ _ _ ih | unexpose _ _ ih | unexposeAlias _ _ _ ih => exact ih

theorem Constructed.laid {m : StateMachine ω} (h : Constructed m) : m.Laid :=
  (Extends.laidOut h laidOut_new).toLaid

theorem Initialised.constructed {m : StateMachine ω} (h : Initialised m) : Constructed m :=
  Extends.trans (.addAction (.addAction (.addAction (.addAction .refl _ _ _) _ _ _) _ _ _) _ _ _) h

theorem Initialised.laid {m : StateMachine ω} (h : Initialised m) : m.Laid := h.constructed.laid

theorem Ordinary.initialised {m : StateMachine ω} (h : Ordinary m) : Initialised m := by
  induction h with
  | init => exact .refl
  | addAction _ id _ action bs ih => exact .addAction ih id action bs
  | addInput _ input ih => exact .addInput ih input

theorem Initialised.registered {m : StateMachine ω} (h : Initialised m) {step : Step}
    (hstep : step = .initialisation ∨ step = .error ∨ step = .finish ∨ step = .cleanup) :
    m.Registered step.id := by
  apply Extends.registered h
  rcases hstep with rfl | rfl | rfl | rfl <;> exact ⟨_, find?_init _⟩

theorem Laid.bindings_of_not_registered {m : StateMachine ω} (h : m.Laid) {id : ℤ} (hid : ¬m.Registered id) :
    m.bindings id = [] := by
  rw [List.eq_nil_iff_forall_not_mem]
  exact fun output houtput => hid (h.source ⟨output, houtput, rfl⟩)

/-! ### Ids -/

theorem Laid.registered_cases {m : StateMachine ω} (h : m.Laid) {id : ℤ} (hid : m.Registered id) :
    id = Step.interrupt.id ∨ id = Step.error.id ∨ id = Step.finish.id ∨ id = Step.cleanup.id ∨ 0 ≤ id := by
  rcases h.allowed hid with hw | hle
  · unfold wrapperOf at hw
    split_ifs at hw with h₁ h₂ h₃ h₄
    · exact .inl h₁
    · exact .inr (.inl h₂)
    · exact .inr (.inr (.inl h₃))
    · exact .inr (.inr (.inr (.inl h₄)))
    · exact absurd rfl hw
  · exact .inr (.inr (.inr (.inr hle)))

theorem Laid.not_registered {m : StateMachine ω} (h : m.Laid) {id : ℤ}
    (hid : id = -1 ∨ id = Step.die.id ∨ id = Step.status.id) : ¬m.Registered id := by
  intro hreg
  have := h.registered_cases hreg
  simp only [Step.id] at this hid
  omega

theorem Laid.not_special {m : StateMachine ω} (h : m.Laid) {id : ℤ} (hid : m.Registered id) :
    id ≠ Step.die.id ∧ id ≠ -1 :=
  ⟨fun heq => h.not_registered (.inr (.inl heq)) hid, fun heq => h.not_registered (.inl heq) hid⟩

end StateMachine

end LibWorkflow
