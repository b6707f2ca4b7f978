import LibWorkflow.Flow.Graph

/-!
# The default steps

A machine laid out after `init` with ordinary actions only keeps the Error, Finish and Cleanup of `init`.
Each of the three is done at once, sets no output, and is bound to one target: Cleanup, or Die after
Cleanup. Cleanup is skipped only when it holds a `SkipCtx`; `validate` keeps bindings from naming an input
of Cleanup, so that only a starter can give it one that stays (`Clean`).
-/

namespace LibWorkflow

open Ordered Fallible

namespace StateMachine

variable {ω : Type} {m : StateMachine ω}

def IsDefault (id : ℤ) : Prop := id = Step.error.id ∨ id = Step.finish.id ∨ id = Step.cleanup.id

theorem IsDefault.neg {id : ℤ} (h : IsDefault id) : id < 0 := by
  rcases h with rfl | rfl | rfl <;> decide

/-- What `init` registers at the three steps. -/
def defaultPtr (ω : Type) (id : ℤ) : ActionPtr ω := ActionPtr.setActionId ⟨wrapperOf id, .defaultNext ω⟩ id

/-- Where `init` binds them to. -/
def defaultTarget (id : ℤ) : ℤ := if id = Step.cleanup.id then Step.die.id else Step.cleanup.id

theorem Ordinary.default (hm : Ordinary m) {id : ℤ} (hid : IsDefault id) :
    m.actions.find? id = some (defaultPtr ω id) ∧ m.bindings id = [bindingTo id "" (defaultTarget id) ""] := by
  induction hm with
  | init =>
    rw [find?_init, bindings_init]
    rcases hid with rfl | rfl | rfl <;> exact ⟨rfl, rfl⟩
  | addAction _ a ha action bs ih =>
    have hne : id ≠ a := fun heq => absurd hid.neg (not_lt.mpr (heq ▸ ha))
    rw [find?_addAction (.inr ha), bindings_addAction (.inr ha), if_neg hne, if_neg hne]
    exact ih
  | addInput _ _ ih => exact ih

theorem Ordinary.find?_default (hm : Ordinary m) {id : ℤ} (hid : IsDefault id) :
    m.actions.find? id = some (defaultPtr ω id) := (hm.default hid).1

theorem Ordinary.bindings_default (hm : Ordinary m) {id : ℤ} (hid : IsDefault id) :
    m.bindings id = [bindingTo id "" (defaultTarget id) ""] := (hm.default hid).2

theorem Ordinary.leads_default (hm : Ordinary m) {id b : ℤ} (hid : IsDefault id) :
    m.Leads id b ↔ b = defaultTarget id := by
  unfold Leads
  rw [hm.bindings_default hid]
  simp [bindingTo, eq_comm]

theorem Ordinary.not_registered_interrupt (hm : Ordinary m) : ¬m.Registered Step.interrupt.id := by
  induction hm with
  | init =>
    rintro ⟨ptr, hptr⟩
    rw [find?_init] at hptr
    cases hptr
  | addAction _ a ha action bs ih =>
    have hne : Step.interrupt.id ≠ a := fun heq => absurd (heq ▸ ha) (by decide)
    rintro ⟨ptr, hptr⟩
    rw [find?_addAction (.inr ha), if_neg hne] at hptr
    exact ih ⟨ptr, hptr⟩
  | addInput _ _ ih => exact ih

theorem Ordinary.registered_cases (hm : Ordinary m) {id : ℤ} (hid : m.Registered id) :
    IsDefault id ∨ 0 ≤ id := by
  rcases hm.initialised.laid.registered_cases hid with rfl | h | h | h | h
  · exact absurd hid hm.not_registered_interrupt
  · exact .inl (.inl h)
  · exact .inl (.inr (.inl h))
  · exact .inl (.inr (.inr h))
  · exact .inr h

theorem Ordinary.registered_default (hm : Ordinary m) {id : ℤ} (hid : IsDefault id) : m.Registered id :=
  ⟨_, hm.find?_default hid⟩

/-! ### What the default steps do -/

/-- A default step raises the level, replies if it is Error or Finish, and is done. -/
theorem perform_defaultPtr {id : ℤ} (hid : IsDefault id) (expected : List String) (w : World ω) :
    (defaultPtr ω id).perform expected w =
      (⟨w.session.upCurrentExecutionLevel, w.env,
        w.trace ++ .performed id w.session :: (defaultPtr ω id).wrapReplies expected w.session⟩,
        ⟨id, .done, none⟩) := by
  have hwrapper : wrapperOf id ≠ none := by rcases hid with rfl | rfl | rfl <;> decide
  unfold ActionPtr.perform
  rw [ActionPtr.wrapPerform_eq, if_neg (show (defaultPtr ω id).wrapper ≠ none from hwrapper)]
  simp [World.applyOutcome, World.emit, defaultPtr, ActionPtr.setActionId, ActionPtr.getActionId,
    Action.defaultNext, Action.ofPerform, Outcome.ofResult, World.setOutputs]

theorem checkOutputs_defaultPtr (id : ℤ) (env : ω) (s : Session) :
    (defaultPtr ω id).checkOutputs env s = true := rfl

theorem Ordinary.fulfils_default (hm : Ordinary m) {id : ℤ} (hid : IsDefault id) (w : World ω) :
    m.Fulfils w ⟨id, .done, none⟩ := by
  refine ⟨rfl, ?_⟩
  rw [hm.find?_default hid]
  rfl

theorem Ordinary.executeAction_default (hm : Ordinary m) {id : ℤ} (hid : IsDefault id) (w : World ω) :
    m.executeAction w id = .ok
      (⟨(m.beginAction w.session id).upCurrentExecutionLevel, w.env, w.trace ++
        .performed id (m.beginAction w.session id) ::
          (defaultPtr ω id).wrapReplies m.getExpectedOutput (m.beginAction w.session id)⟩,
        some (.actionExecuted ⟨id, .done, none⟩)) := by
  have hdie : id ≠ Step.die.id := by rcases hid with rfl | rfl | rfl <;> decide
  have hneg : id ≠ -1 := by rcases hid with rfl | rfl | rfl <;> decide
  unfold executeAction
  rw [if_neg hdie, if_neg hneg]
  simp only [hm.find?_default hid, perform_defaultPtr hid]

theorem Ordinary.actionExecuted_default (hm : Ordinary m) {id : ℤ} (hid : IsDefault id) (w : World ω) :
    m.actionExecuted w ⟨id, .done, none⟩ =
      m.bindResults w.env (w.session.setStatus id .done) id >>= fun s => m.executeNext { w with session := s } := by
  unfold actionExecuted
  rw [actionAt_eq_ok.mpr (hm.find?_default hid), ok_bind, checkOutputs_defaultPtr]
  rfl

/-! ### What `validate` checks -/

theorem foldl_append_eq_empty {l : List String} {text : String} (h : l.foldl (· ++ ·) text = "") :
    text = "" ∧ ∀ line ∈ l, line = "" := by
  induction l generalizing text with
  | nil => exact ⟨h, fun _ hline => nomatch hline⟩
  | cons line l ih =>
    obtain ⟨hhead, htail⟩ := ih h
    obtain ⟨htext, hline⟩ := String.append_eq_empty_iff.mp hhead
    refine ⟨htext, fun other hmem => ?_⟩
    rcases List.mem_cons.mp hmem with rfl | hmem
    · exact hline
    · exact htail other hmem

theorem lines_of_validate (h : m.validate = none) :
    (∀ input ∈ m.starters, m.validateStarter input = "") ∧
      ∀ a, ∀ output ∈ m.bindings a, m.validateOutput output = "" := by
  have htext : m.validateText = "" := by
    unfold validate at h
    split_ifs at h with hempty
    exact String.isEmpty_iff.mp hempty
  have hlines := (foldl_append_eq_empty htext).2
  refine ⟨fun input hmem => hlines _ ?_, fun a output hmem => hlines _ ?_⟩
  · exact List.mem_append_left _ (List.mem_map_of_mem hmem)
  · exact List.mem_append_right _ (List.mem_map_of_mem (mem_of_bindings hmem))

theorem registered_of_validate (h : m.validate = none) {input : InputBinding} (hmem : input ∈ m.starters) :
    m.Registered input.actionId := by
  have hline := (lines_of_validate h).1 input hmem
  unfold validateStarter at hline
  split_ifs at hline with hcontains
  · exact OrdMap.contains_iff.mp hcontains
  · exact absurd (String.append_eq_empty_iff.mp hline).2 (by decide)

theorem Ordinary.input_of_validate (hm : Ordinary m) (h : m.validate = none) {a : ℤ} {output : OutputBinding}
    (hmem : output ∈ m.bindings a) (hto : output.toActionId = Step.cleanup.id) : output.toActionInput = "" := by
  have hline := (lines_of_validate h).2 a output hmem
  have hlast : ∀ {text : String}, text ++ "\n" ≠ "" := fun htext =>
    absurd (String.append_eq_empty_iff.mp htext).2 (by decide)
  have hcleanup : m.actions.find? Step.cleanup.id = some (defaultPtr ω Step.cleanup.id) :=
    hm.find?_default (.inr (.inr rfl))
  by_contra hne
  -- a wrapper has no inputs of its own
  have hexpect : (defaultPtr ω Step.cleanup.id).expectInput output.toActionInput =
      some (output.toActionInput ++ " is invalid, targeted input doesn't exist") := by
    have hinputs : (defaultPtr ω Step.cleanup.id).getInputs = ∅ := rfl
    have hempty : output.toActionInput.isEmpty = false := by
      rw [← Bool.not_eq_true, String.isEmpty_iff]
      exact hne
    unfold ActionPtr.expectInput
    rw [hinputs, hempty]
    rfl
  have hcontains : m.actions.contains Step.cleanup.id = true := OrdMap.contains_iff.mpr ⟨_, hcleanup⟩
  unfold validateOutput at hline
  cases hfrom : m.actions.find? output.fromActionId with
  | none =>
    rw [hfrom] at hline
    exact absurd (String.append_eq_empty_iff.mp hline).2 (by decide)
  | some source =>
    rw [hfrom, hto] at hline
    simp only [hcontains, hcleanup, hexpect] at hline
    cases hout : source.expectOutput output.fromActionOutput with
    | some message =>
      rw [hout] at hline
      exact hlast hline
    | none =>
      rw [hout] at hline
      exact hlast hline

/-! ### Sessions that can clean up -/

/-- The default steps have no output, and Cleanup holds no `SkipCtx` under a name. -/
structure Clean (s : Session) : Prop where
  inputs : ∀ name ctx, name ≠ "" → s.getInput Step.cleanup.id name = some ctx → ctx.isSkip = false
  outputs : ∀ id, IsDefault id → ∀ name, s.getOutput id name = none

theorem Clean.congr {s s' : Session} (h : Clean s) (hinputs : s'.inputs = s.inputs)
    (houtputs : s'.outputs = s.outputs) : Clean s' where
  inputs name ctx := by
    unfold Session.getInput
    rw [hinputs]
    exact h.inputs name ctx
  outputs id hid name := by
    unfold Session.getOutput
    rw [houtputs]
    exact h.outputs id hid name

/-- Binding results keeps a session clean, if no binding names an input of Cleanup. -/
theorem Clean.bindResults {env : ω} {s s' : Session} {id : ℤ} (h : Clean s)
    (hnames : ∀ output ∈ m.bindings id, output.toActionId = Step.cleanup.id → output.toActionInput = "")
    (hbind : m.bindResults env s id = .ok s') : Clean s' := by
  apply foldlM_invariant hbind h
  intro c binding c' hmem hc hstep
  cases bindResult_cases hstep with
  | target _ hplaced =>
    have hset : Clean (c.setInput binding.toActionId binding.toActionInput
        (c.getOutput id binding.fromActionOutput)) := by
      refine ⟨fun name ctx hname hinput => ?_, hc.outputs⟩
      rw [Session.getInput_setInput] at hinput
      split_ifs at hinput with htarget
      · exact absurd (htarget.2.trans (hnames binding hmem htarget.1.symm)) hname
      · exact hc.inputs name ctx hname hinput
    exact hset.congr hplaced.inputs hplaced.reschedules.outputs
  | die => exact hc.congr rfl rfl
  | absent => exact hc

theorem Clean.promotes {s s' : Session} (h : Clean s) (hs : m.Promotes s s') : Clean s' :=
  h.congr hs.inputs hs.reschedules.outputs

theorem getOutput_setOutputs {id j : ℤ} (hne : j ≠ id) (declared : OrdMap String PutDefinition)
    (l : List (String × Option Context)) (s : Session) (name : String) :
    (World.setOutputs id declared s l).getOutput j name = s.getOutput j name := by
  induction l generalizing s with
  | nil => rfl
  | cons entry l ih =>
    obtain ⟨output, ctx⟩ := entry
    rw [World.setOutputs]
    split_ifs
    · rw [ih, Session.getOutput_setOutput, if_neg fun h => hne h.1]
    · exact ih s

theorem Clean.applyOutcome {w : World ω} (h : Clean w.session) {action : Action ω} (hid : 0 ≤ action.actionId)
    (outcome : Outcome ω) : Clean (w.applyOutcome action outcome).session := by
  obtain ⟨outputs, heq⟩ := World.exists_setOutputs action.actionId action.outputs w.session outcome.outputs
  refine ⟨fun name ctx hname hinput => ?_, fun id hdefault name => ?_⟩
  · apply h.inputs name ctx hname
    unfold World.applyOutcome at hinput
    rw [heq] at hinput
    exact hinput
  · have hne : id ≠ action.actionId := fun heq => absurd hdefault.neg (not_lt.mpr (heq ▸ hid))
    exact (getOutput_setOutputs hne action.outputs outcome.outputs w.session name).trans
      (h.outputs id hdefault name)

theorem Clean.perform (hm : Ordinary m) {w : World ω} (h : Clean w.session) {id : ℤ} {ptr : ActionPtr ω}
    (hptr : m.actions.find? id = some ptr) {expected : List String} {w' : World ω} {result : Result}
    (hperform : ptr.perform expected w = (w', result)) : Clean w'.session := by
  have hw' : w' = (ptr.perform expected w).1 := (congrArg Prod.fst hperform).symm
  subst hw'
  rcases hm.registered_cases ⟨ptr, hptr⟩ with hid | hid
  · cases (hm.find?_default hid).symm.trans hptr
    rw [perform_defaultPtr hid]
    exact h.congr rfl rfl
  · have hown : ptr.action.actionId = id := hm.initialised.laid.own hptr
    unfold ActionPtr.perform
    refine Clean.applyOutcome ?_ (hown.symm ▸ hid) _
    rw [ActionPtr.wrapPerform_eq]
    dsimp only
    split_ifs
    · exact h
    · exact h.congr rfl rfl

theorem Clean.replyReceived (hm : m.Laid) {w : World ω} (h : Clean w.session) {id : ℤ} {ptr : ActionPtr ω}
    (hptr : m.actions.find? id = some ptr) (hid : 0 ≤ id) {request : Request} {w' : World ω} {result : Result}
    (hreply : ptr.replyReceived w request = (w', result)) : Clean w'.session := by
  have hw' : w' = (ptr.replyReceived w request).1 := (congrArg Prod.fst hreply).symm
  subst hw'
  have hown : ptr.action.actionId = id := hm.own hptr
  exact Clean.applyOutcome (w := w.emit _) h (hown.symm ▸ hid) _

/-- The result of Error or Finish brings Cleanup in. -/
theorem Clean.active_cleanup (hm : Ordinary m) {env : ω} {s s' : Session} {id : ℤ} (h : Clean s)
    (hid : id = Step.error.id ∨ id = Step.finish.id) (hbind : m.bindResults env s id = .ok s') :
    s'.Active Step.cleanup.id := by
  have hdefault : IsDefault id := hid.elim .inl fun h => .inr (.inl h)
  have htarget : defaultTarget id = Step.cleanup.id := by rcases hid with rfl | rfl <;> rfl
  have hcleanup : m.actions.find? Step.cleanup.id = some (defaultPtr ω Step.cleanup.id) :=
    hm.find?_default (.inr (.inr rfl))
  unfold StateMachine.bindResults at hbind
  rw [hm.bindings_default hdefault, htarget, List.foldlM_cons] at hbind
  obtain ⟨s₁, hstep, hdone⟩ := bind_eq_ok.mp hbind
  cases hdone
  cases bindResult_cases hstep with
  | @target ptr _ hptr hplaced =>
    cases hcleanup.symm.trans hptr
    cases hplaced with
    | skipped hskip =>
      obtain ⟨name, ctx, hinput, hskipped⟩ := Session.hasSkipInput_iff.mp hskip
      rw [Session.getInput_setInput] at hinput
      split_ifs at hinput with hname
      · rw [h.outputs id hdefault] at hinput
        cases hinput
      · have hne : name ≠ "" := fun heq => hname ⟨rfl, heq⟩
        rw [h.inputs name ctx hne hinput] at hskipped
        cases hskipped
    | planned => exact .inl (OrdSet.mem_insert.mpr (.inl rfl))
    | pending => exact .inr (OrdSet.mem_insert.mpr (.inl rfl))
    | unplanned _ _ hpend => exact nomatch hpend
  | die hdie =>
    have hne : Step.cleanup.id ≠ Step.die.id := by decide
    exact absurd hdie hne
  | absent _ hreg => exact absurd ⟨_, hcleanup⟩ hreg

end StateMachine

end LibWorkflow
