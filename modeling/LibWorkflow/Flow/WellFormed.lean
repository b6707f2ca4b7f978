import LibWorkflow.Engine.Samples
import LibWorkflow.Flow.Defaults

/-!
# Well-formed layouts

What `validate` (`core/state_machine.cpp`) is to find out: every starter leads to a registered action, and
every binding leads from a declared output to a declared input. It finds every flaw. But a wrapper inherits
`getInputs` and `getOutputs` and looks at put maps of its own, so what the action at a wrapped step
declares is not seen: `validate` rejects a layout without flaws where a binding names it
(`validate_decides_iff`).
-/

namespace LibWorkflow

open Ordered

namespace StateMachine

variable {ω : Type} {m : StateMachine ω}

/-- The action that was given to `addAction` for this id. -/
def given (m : StateMachine ω) (id : ℤ) : Option (Action ω) := (m.actions.find? id).map ActionPtr.action

theorem given_addAction {id : ℤ} (h : Accepts id) (action : Action ω) (bs : List OutputBinding) (a : ℤ) :
    (m.addAction id action bs).given a = if a = id then some { action with actionId := id } else m.given a := by
  unfold given
  rw [find?_addAction h]
  split_ifs <;> rfl

/-- The layout has no flaw. -/
structure WellFormed (m : StateMachine ω) : Prop where
  starters : ∀ input ∈ m.starters, m.Registered input.actionId
  targets : ∀ a, ∀ output ∈ m.bindings a,
    m.Registered output.toActionId ∨ output.toActionId = Step.die.id
  outputs : ∀ a, ∀ output ∈ m.bindings a, output.fromActionOutput = "" ∨
    ∃ action, m.given a = some action ∧ action.outputs.contains output.fromActionOutput = true
  inputs : ∀ a, ∀ output ∈ m.bindings a, output.toActionId ≠ Step.finish.id → output.toActionId ≠ Step.die.id →
    output.toActionInput = "" ∨
      ∃ action, m.given output.toActionId = some action ∧ action.inputs.contains output.toActionInput = true

/-- The binding names an output of a wrapped step, or an input of one other than Finish. -/
def NamesWrapped (output : OutputBinding) : Prop :=
  (wrapperOf output.fromActionId ≠ none ∧ output.fromActionOutput ≠ "") ∨
    (wrapperOf output.toActionId ≠ none ∧ output.toActionId ≠ Step.finish.id ∧ output.toActionInput ≠ "")

/-! ### What is expected -/

theorem expectInput_eq_none_iff {ptr : ActionPtr ω} {key : String} :
    ptr.expectInput key = none ↔ key = "" ∨ ptr.getInputs.contains key = true := by
  unfold ActionPtr.expectInput
  rw [ite_eq_left_iff, Bool.or_eq_true, String.isEmpty_iff, or_comm]
  simp only [reduceCtorEq, imp_false, not_not]

theorem expectOutput_eq_none_iff {ptr : ActionPtr ω} {key : String} :
    ptr.expectOutput key = none ↔ key = "" ∨ ptr.getOutputs.contains key = true := by
  unfold ActionPtr.expectOutput
  rw [ite_eq_left_iff, Bool.or_eq_true, String.isEmpty_iff, or_comm]
  simp only [reduceCtorEq, imp_false, not_not]

theorem contains_getInputs {ptr : ActionPtr ω} {key : String} :
    ptr.getInputs.contains key = true ↔ ptr.wrapper = none ∧ ptr.action.inputs.contains key = true := by
  unfold ActionPtr.getInputs
  cases ptr.wrapper with
  | none => simp
  | some wrapper =>
    have hempty : (∅ : OrdMap String PutDefinition).find? key = none := rfl
    simp [OrdMap.contains, hempty]

theorem contains_getOutputs {ptr : ActionPtr ω} {key : String} :
    ptr.getOutputs.contains key = true ↔ ptr.wrapper = none ∧ ptr.action.outputs.contains key = true := by
  unfold ActionPtr.getOutputs
  cases ptr.wrapper with
  | none => simp
  | some wrapper =>
    have hempty : (∅ : OrdMap String PutDefinition).find? key = none := rfl
    simp [OrdMap.contains, hempty]

/-! ### The text of `validate` -/

theorem foldl_append_of_empty {l : List String} (h : ∀ line ∈ l, line = "") : l.foldl (· ++ ·) "" = "" := by
  induction l with
  | nil => rfl
  | cons line l ih =>
    rw [List.foldl_cons, h line List.mem_cons_self]
    exact ih fun other hmem => h other (List.mem_cons_of_mem _ hmem)

theorem exists_of_mem_outputs {output : OutputBinding} (h : output ∈ m.outputs.entries.flatMap Prod.snd) :
    ∃ a, output ∈ m.bindings a := by
  obtain ⟨⟨a, outputs⟩, hentry, hmem⟩ := List.mem_flatMap.mp h
  refine ⟨a, ?_⟩
  rw [bindings, OrdMap.find?_eq_some_iff.mpr hentry]
  exact hmem

theorem validate_eq_none_iff : m.validate = none ↔
    (∀ input ∈ m.starters, m.validateStarter input = "") ∧
      ∀ a, ∀ output ∈ m.bindings a, m.validateOutput output = "" := by
  refine ⟨lines_of_validate, fun ⟨hstarters, houtputs⟩ => ?_⟩
  have htext : m.validateText = "" := by
    refine foldl_append_of_empty fun line hline => ?_
    rcases List.mem_append.mp hline with hmem | hmem
    · obtain ⟨input, hinput, rfl⟩ := List.mem_map.mp hmem
      exact hstarters input hinput
    · obtain ⟨output, houtput, rfl⟩ := List.mem_map.mp hmem
      obtain ⟨a, ha⟩ := exists_of_mem_outputs houtput
      exact houtputs a output ha
  unfold validate
  rw [if_pos (String.isEmpty_iff.mpr htext)]

theorem validateStarter_eq_empty_iff {input : InputBinding} :
    m.validateStarter input = "" ↔ m.Registered input.actionId := by
  unfold validateStarter
  split_ifs with h
  · exact ⟨fun _ => OrdMap.contains_iff.mp h, fun _ => rfl⟩
  · refine ⟨fun hline => ?_, fun hreg => absurd (OrdMap.contains_iff.mpr hreg) h⟩
    exact absurd (String.append_eq_empty_iff.mp hline).2 (by decide)

/-- What `validate` asks of a binding, of the actions as they are registered. -/
structure Passes (m : StateMachine ω) (source : ActionPtr ω) (output : OutputBinding) : Prop where
  registered : m.Registered output.toActionId ∨ output.toActionId = Step.die.id
  declared : source.expectOutput output.fromActionOutput = none
  expected : output.toActionId ≠ Step.finish.id → output.toActionId ≠ Step.die.id →
    ∀ target, m.actions.find? output.toActionId = some target → target.expectInput output.toActionInput = none

section Passes

variable {output : OutputBinding} {source : ActionPtr ω}

theorem line_ne_empty {line last : String} (hlast : last ≠ "") : line ++ last ≠ "" :=
  fun h => hlast (String.append_eq_empty_iff.mp h).2

theorem validateOutput_of_die (hsource : m.actions.find? output.fromActionId = some source)
    (hdie : output.toActionId = Step.die.id) : m.validateOutput output = "" ↔ m.Passes source output := by
  have hpasses : m.Passes source output ↔ source.expectOutput output.fromActionOutput = none :=
    ⟨Passes.declared, fun h => ⟨Or.inr hdie, h, fun _ hne => absurd hdie hne⟩⟩
  rw [hpasses]
  unfold validateOutput
  simp only [hsource, hdie, ne_eq, not_true_eq_false, decide_false, Bool.and_false, Bool.false_eq_true, if_false,
    true_or, if_true]
  cases source.expectOutput output.fromActionOutput with
  | some message => simp
  | none => simp

theorem validateOutput_of_missing (hsource : m.actions.find? output.fromActionId = some source)
    (hdie : output.toActionId ≠ Step.die.id) (hto : m.actions.find? output.toActionId = none) :
    m.validateOutput output ≠ "" ∧ ¬m.Passes source output := by
  constructor
  · have hcontains : m.actions.contains output.toActionId = false := OrdMap.contains_eq_false_iff.mpr hto
    unfold validateOutput
    simp only [hsource, hcontains, hdie, ne_eq, not_false_eq_true, decide_true, Bool.not_false, Bool.and_self,
      if_true]
    exact line_ne_empty (by decide)
  · intro h
    rcases h.registered with ⟨ptr, hptr⟩ | heq
    · rw [hto] at hptr
      cases hptr
    · exact hdie heq

theorem validateOutput_of_registered {target : ActionPtr ω}
    (hsource : m.actions.find? output.fromActionId = some source) (hdie : output.toActionId ≠ Step.die.id)
    (hto : m.actions.find? output.toActionId = some target) :
    m.validateOutput output = "" ↔ m.Passes source output := by
  have hpasses : m.Passes source output ↔ source.expectOutput output.fromActionOutput = none ∧
      (output.toActionId ≠ Step.finish.id → target.expectInput output.toActionInput = none) := by
    refine ⟨fun h => ⟨h.declared, fun hfinish => h.expected hfinish hdie target hto⟩, fun ⟨hout, hin⟩ => ?_⟩
    refine ⟨Or.inl ⟨target, hto⟩, hout, fun hfinish _ target' htarget' => ?_⟩
    rw [hto] at htarget'
    cases htarget'
    exact hin hfinish
  have hcontains : m.actions.contains output.toActionId = true := OrdMap.contains_iff.mpr ⟨target, hto⟩
  rw [hpasses]
  unfold validateOutput
  simp only [hsource, hcontains, hto, hdie, Bool.not_true, Bool.false_and, Bool.false_eq_true, if_false, false_or]
  cases source.expectOutput output.fromActionOutput with
  | some message => simp
  | none =>
    by_cases hfinish : output.toActionId = Step.finish.id
    · simp [hfinish]
    · simp only [true_and, ne_eq, hfinish, not_false_eq_true, true_implies]
      cases target.expectInput output.toActionInput with
      | some message => simp
      | none => simp

theorem validateOutput_eq_empty_iff (hsource : m.actions.find? output.fromActionId = some source) :
    m.validateOutput output = "" ↔ m.Passes source output := by
  by_cases hdie : output.toActionId = Step.die.id
  · exact validateOutput_of_die hsource hdie
  · cases hto : m.actions.find? output.toActionId with
    | some target => exact validateOutput_of_registered hsource hdie hto
    | none =>
      obtain ⟨hline, hnot⟩ := validateOutput_of_missing hsource hdie hto
      exact iff_of_false hline hnot

end Passes

/-! ### Layouts that were made -/

theorem OwnBindings.of_constructed (hm : Constructed m) : m.OwnBindings := (Extends.laidOut hm laidOut_new).ownBindings

/-- `validate` accepts a layout if and only if every starter and every binding passes. -/
theorem validate_iff_passes (hm : Constructed m) : m.validate = none ↔
    (∀ input ∈ m.starters, m.Registered input.actionId) ∧
      ∀ a source, m.actions.find? a = some source → ∀ output ∈ m.bindings a, m.Passes source output := by
  rw [validate_eq_none_iff]
  refine and_congr (forall₂_congr fun input _ => validateStarter_eq_empty_iff) ?_
  refine ⟨fun h a source hsource output hmem => ?_, fun h a output hmem => ?_⟩
  · have hfrom := OwnBindings.of_constructed hm a output hmem
    exact (validateOutput_eq_empty_iff (hfrom ▸ hsource)).mp (h a output hmem)
  · have hfrom := OwnBindings.of_constructed hm a output hmem
    obtain ⟨source, hsource⟩ := hm.laid.source ⟨output, hmem, rfl⟩
    exact (validateOutput_eq_empty_iff (hfrom ▸ hsource)).mpr (h a source hsource output hmem)

theorem given_of_find? {a : ℤ} {ptr : ActionPtr ω} (h : m.actions.find? a = some ptr) :
    m.given a = some ptr.action := by
  unfold given
  rw [h]
  rfl

theorem WellFormed.of_validate (hm : Constructed m) (h : m.validate = none) : m.WellFormed := by
  obtain ⟨hstarters, hpasses⟩ := (validate_iff_passes hm).mp h
  refine ⟨hstarters, fun a output hmem => ?_, fun a output hmem => ?_, fun a output hmem hfinish hdie => ?_⟩
  all_goals
    obtain ⟨source, hsource⟩ := hm.laid.source ⟨output, hmem, rfl⟩
    have hpass := hpasses a source hsource output hmem
  · exact hpass.registered
  · rcases expectOutput_eq_none_iff.mp hpass.declared with hname | hdeclared
    · exact Or.inl hname
    · exact Or.inr ⟨source.action, given_of_find? hsource, (contains_getOutputs.mp hdeclared).2⟩
  · obtain ⟨target, htarget⟩ := hpass.registered.resolve_right hdie
    rcases expectInput_eq_none_iff.mp (hpass.expected hfinish hdie target htarget) with hname | hdeclared
    · exact Or.inl hname
    · exact Or.inr ⟨target.action, given_of_find? htarget, (contains_getInputs.mp hdeclared).2⟩

/-- A binding without flaws passes, unless it names a put of a wrapped step. -/
theorem WellFormed.passes_iff (hm : Constructed m) (h : m.WellFormed) {a : ℤ} {source : ActionPtr ω}
    (hsource : m.actions.find? a = some source) {output : OutputBinding} (hmem : output ∈ m.bindings a) :
    m.Passes source output ↔ ¬NamesWrapped output := by
  have hfrom : output.fromActionId = a := OwnBindings.of_constructed hm a output hmem
  have hdeclared : source.expectOutput output.fromActionOutput = none ↔
      wrapperOf output.fromActionId = none ∨ output.fromActionOutput = "" := by
    rw [expectOutput_eq_none_iff, contains_getOutputs, hm.laid.wrapper hsource, hfrom]
    rcases h.outputs a output hmem with hname | ⟨action, haction, hcontains⟩
    · simp [hname]
    · rw [given_of_find? hsource, Option.some_inj] at haction
      rw [haction, hcontains, and_iff_left rfl, or_comm]
  have hexpected : ∀ target, m.actions.find? output.toActionId = some target →
      output.toActionId ≠ Step.finish.id → output.toActionId ≠ Step.die.id →
      (target.expectInput output.toActionInput = none ↔
        wrapperOf output.toActionId = none ∨ output.toActionInput = "") := by
    intro target htarget hfinish hdie
    rw [expectInput_eq_none_iff, contains_getInputs, hm.laid.wrapper htarget]
    rcases h.inputs a output hmem hfinish hdie with hname | ⟨action, haction, hcontains⟩
    · simp [hname]
    · rw [given_of_find? htarget, Option.some_inj] at haction
      rw [haction, hcontains, and_iff_left rfl, or_comm]
  constructor
  · rintro hpass (⟨hwrapped, hname⟩ | ⟨hwrapped, hfinish, hname⟩)
    · exact (hdeclared.mp hpass.declared).elim hwrapped hname
    · rcases h.targets a output hmem with ⟨target, htarget⟩ | hdie
      · have hdie := (hm.laid.not_special ⟨target, htarget⟩).1
        exact ((hexpected target htarget hfinish hdie).mp (hpass.expected hfinish hdie target htarget)).elim hwrapped
          hname
      · rw [hdie] at hwrapped
        exact hwrapped rfl
  · intro hplain
    simp only [NamesWrapped, ne_eq, not_or, not_and, not_not] at hplain
    refine ⟨h.targets a output hmem, hdeclared.mpr ?_, fun hfinish hdie target htarget => ?_⟩
    · exact or_iff_not_imp_left.mpr hplain.1
    · exact (hexpected target htarget hfinish hdie).mpr
        (or_iff_not_imp_left.mpr fun hwrapped => hplain.2 hwrapped hfinish)

/-- `validate` decides whether a layout is without flaws, exactly where no binding of a layout without flaws
names an output of a wrapped step, or an input of one other than Finish. -/
theorem validate_decides_iff (hm : Constructed m) : (m.validate = none ↔ m.WellFormed) ↔
    (m.WellFormed → ∀ a, ∀ output ∈ m.bindings a, ¬NamesWrapped output) := by
  constructor
  · intro hdecides hwell a output hmem
    obtain ⟨source, hsource⟩ := hm.laid.source ⟨output, hmem, rfl⟩
    have hpass := ((validate_iff_passes hm).mp (hdecides.mpr hwell)).2 a source hsource output hmem
    exact (hwell.passes_iff hm hsource hmem).mp hpass
  · intro hplain
    refine ⟨WellFormed.of_validate hm, fun hwell => (validate_iff_passes hm).mpr ⟨hwell.starters, ?_⟩⟩
    intro a source hsource output hmem
    exact (hwell.passes_iff hm hsource hmem).mpr (hplain hwell a output hmem)

/-- The step Error skips Cleanup: its action declares the output that is bound. -/
def recovering : StateMachine Unit :=
  new.init.addAction Step.error.id Sample.skipping [bindingTo Step.error.id "skip" Step.cleanup.id ""]

theorem recovering_constructed : Constructed recovering :=
  Initialised.constructed (.addAction .refl _ _ _)

theorem recovering_decides : (recovering.validate = none ↔ recovering.WellFormed) ↔
    (recovering.WellFormed → ∀ a, ∀ output ∈ recovering.bindings a, ¬NamesWrapped output) :=
  validate_decides_iff recovering_constructed

theorem recovering_registered {step : Step}
    (hstep : step = .initialisation ∨ step = .error ∨ step = .finish ∨ step = .cleanup) :
    recovering.Registered step.id :=
  Initialised.registered (.addAction .refl _ _ _) hstep

theorem recovering_bindings {a : ℤ} {output : OutputBinding} (h : output ∈ recovering.bindings a) :
    (a = Step.error.id ∧ output = bindingTo Step.error.id "skip" Step.cleanup.id "") ∨
      (output.fromActionOutput = "" ∧ output.toActionInput = "" ∧
        (output.toActionId = Step.finish.id ∨ output.toActionId = Step.cleanup.id ∨
          output.toActionId = Step.die.id)) := by
  unfold recovering at h
  rw [bindings_addAction (.inl (by decide)), bindings_init] at h
  split_ifs at h with herror <;> simp [bindingTo] at h <;> subst h <;> simp_all [bindingTo]

/-- A layout without flaws that is rejected. -/
theorem flawless_rejected : Constructed recovering ∧ recovering.WellFormed ∧ recovering.validate ≠ none := by
  refine ⟨Initialised.constructed (.addAction .refl _ _ _), ⟨?_, ?_, ?_, ?_⟩, by decide +kernel⟩
  · intro input hmem
    exact absurd hmem List.not_mem_nil
  · intro a output hmem
    rcases recovering_bindings hmem with ⟨-, rfl⟩ | ⟨-, -, hto | hto | hto⟩
    · exact Or.inl (recovering_registered (.inr (.inr (.inr rfl))))
    · exact Or.inl (hto ▸ recovering_registered (.inr (.inr (.inl rfl))))
    · exact Or.inl (hto ▸ recovering_registered (.inr (.inr (.inr rfl))))
    · exact Or.inr hto
  · intro a output hmem
    rcases recovering_bindings hmem with ⟨rfl, rfl⟩ | ⟨hname, -⟩
    · exact Or.inr ⟨{ Sample.skipping with actionId := Step.error.id }, rfl, rfl⟩
    · exact Or.inl hname
  · intro a output hmem _ _
    rcases recovering_bindings hmem with ⟨rfl, rfl⟩ | ⟨-, hname, -⟩
    · exact Or.inl rfl
    · exact Or.inl hname

end StateMachine

end LibWorkflow
