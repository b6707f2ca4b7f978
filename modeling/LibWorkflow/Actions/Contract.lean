import LibWorkflow.Engine.Samples

/-!
# The contract of an action

`Action::checkInputs` and `Action::checkOutputs` (`core/action.cpp`) go through the declared puts in the
order of their names and compare each with what the session holds for it. The verdict on the inputs is
right, but an empty list is refused without a word (`inputs_checked_iff`). The loop over the outputs
returns at the first output that was provided and accepted, whatever comes after it
(`outputs_checked_iff`).
-/

namespace LibWorkflow

open Ordered

/-- `ErrorReport::setError`. -/
def ErrorReportOf.setError {ρ : Type} (er : ErrorReportOf ρ) (errk errm : String) : ErrorReportOf ρ :=
  { er with errorMessage := errm, errorKey := errk }

theorem ErrorReportOf.isSet_setError {ρ : Type} (er : ErrorReportOf ρ) (errk errm : String)
    (hkey : errk.isEmpty = false) : (er.setError errk errm).isSet = true := by
  simp [isSet, setError, hkey]

namespace PutDefinition

/-- What a definition asks of the context an input is given, if any. -/
def AcceptsInput (put : PutDefinition) (ctx : Option Context) : Prop :=
  (ctx = none ∧ put.mandatory = false) ∨
    ∃ c, ctx = some c ∧ put.check c = true ∧ ¬(put.ignoreEmpty = true ∧ c.isEmptyList = true)

/-- The input is an empty list of the right type, which the definition asks to ignore. -/
def IgnoresInput (put : PutDefinition) (ctx : Option Context) : Prop :=
  ∃ c, ctx = some c ∧ put.check c = true ∧ put.ignoreEmpty = true ∧ c.isEmptyList = true

/-- What a definition asks of the context stored as an output, if any. -/
def AcceptsOutput (put : PutDefinition) (ctx : Option Context) : Prop :=
  (ctx = none ∧ put.mandatory = false) ∨ (∃ c, ctx = some c ∧ put.check c = true) ∨
    ∃ c, ctx = some c ∧ c.isSkip = true ∧ put.allowSkip = true

def ChecksOutput (put : PutDefinition) (ctx : Option Context) : Prop := ∃ c, ctx = some c ∧ put.check c = true

end PutDefinition

namespace Contract

variable {ω : Type}

def First {α : Type} (p : α → Prop) (l : List α) (a : α) : Prop :=
  ∃ pre post, l = pre ++ a :: post ∧ p a ∧ ∀ b ∈ pre, ¬p b

theorem not_first_nil {α : Type} {p : α → Prop} {a : α} : ¬First p [] a := by
  rintro ⟨pre, post, heq, -⟩
  simp at heq

theorem first_cons_of_pos {α : Type} {p : α → Prop} {a b : α} {l : List α} (h : p a) :
    First p (a :: l) b ↔ b = a := by
  constructor
  · rintro ⟨pre, post, heq, -, hpre⟩
    cases pre with
    | nil => exact (List.cons.inj heq).1.symm
    | cons c pre =>
      obtain ⟨rfl, -⟩ := List.cons.inj heq
      exact absurd h (hpre a List.mem_cons_self)
  · rintro rfl
    exact ⟨[], l, rfl, h, fun c hc => absurd hc List.not_mem_nil⟩

theorem first_cons_of_neg {α : Type} {p : α → Prop} {a b : α} {l : List α} (h : ¬p a) :
    First p (a :: l) b ↔ First p l b := by
  constructor
  · rintro ⟨pre, post, heq, hb, hpre⟩
    cases pre with
    | nil =>
      obtain ⟨rfl, -⟩ := List.cons.inj heq
      exact absurd hb h
    | cons c pre =>
      obtain ⟨rfl, rfl⟩ := List.cons.inj heq
      exact ⟨pre, post, rfl, hb, fun d hd => hpre d (List.mem_cons_of_mem _ hd)⟩
  · rintro ⟨pre, post, rfl, hb, hpre⟩
    exact ⟨a :: pre, post, rfl, hb, List.forall_mem_cons.mpr ⟨h, hpre⟩⟩

/-- The text for a put that is missing, after `fingerprint(session)`. -/
def nilMessage (fingerprint kind : String) (put : PutDefinition) : String :=
  fingerprint ++ " No context provided for " ++ kind ++ " " ++ put.putName

def invalidMessage (fingerprint kind : String) (put : PutDefinition) (ctx : Context) : String :=
  fingerprint ++ " Invalid context provided for " ++ kind ++ " " ++ put.putName ++ " (provided: " ++
    ctx.getType ++ ", expected: " ++ put.type ++ ")"

/-! ### Inputs -/

/-- The loop of `Action::checkInputs` over the declared inputs that are left: what it returns, and the
report it was given. -/
def checkInputsFrom (fingerprint : String) (id : ℤ) (s : Session) (er : ErrorReport) :
    List (String × PutDefinition) → Bool × ErrorReport
  | [] => (true, er)
  | (_, put) :: rest =>
    match s.getInput id put.putName with
    | none =>
      if put.mandatory then (false, er.setError "action.input.nil" (nilMessage fingerprint "input" put))
      else checkInputsFrom fingerprint id s er rest
    | some ctx =>
      if put.check ctx then
        -- refused, and nothing is said about it
        if put.ignoreEmpty && ctx.isEmptyList then (false, er)
        else checkInputsFrom fingerprint id s er rest
      else (false, er.setError "action.input.invalid" (invalidMessage fingerprint "input" put ctx))

/-- `Action::checkInputs`. -/
def checkInputs (fingerprint : String) (action : Action ω) (s : Session) (er : ErrorReport) :
    Bool × ErrorReport :=
  checkInputsFrom fingerprint action.actionId s er action.inputs.entries

def InputMet (id : ℤ) (s : Session) (entry : String × PutDefinition) : Prop :=
  entry.2.AcceptsInput (s.getInput id entry.2.putName)

def InputIgnored (id : ℤ) (s : Session) (entry : String × PutDefinition) : Prop :=
  entry.2.IgnoresInput (s.getInput id entry.2.putName)

section Inputs

variable {fingerprint : String} {id : ℤ} {s : Session} {er : ErrorReport} {entry : String × PutDefinition}
  {entries : List (String × PutDefinition)}

/-- An input that is met: the loop goes on. -/
theorem checkInputsFrom_of_met (h : InputMet id s entry) :
    checkInputsFrom fingerprint id s er (entry :: entries) = checkInputsFrom fingerprint id s er entries := by
  rcases h with ⟨hnone, hmandatory⟩ | ⟨ctx, hctx, hcheck, hempty⟩
  · simp [checkInputsFrom, hnone, hmandatory]
  · rw [← Bool.and_eq_true, Bool.not_eq_true] at hempty
    simp [checkInputsFrom, hctx, hcheck, hempty]

/-- An input that is not met: the loop ends, and says why unless the input is an empty list. -/
theorem checkInputsFrom_of_not_met (h : ¬InputMet id s entry) :
    (checkInputsFrom fingerprint id s er (entry :: entries)).1 = false ∧
      ((checkInputsFrom fingerprint id s er (entry :: entries)).2.isSet = true ↔
        er.isSet = true ∨ ¬InputIgnored id s entry) := by
  obtain ⟨key, put⟩ := entry
  unfold InputMet PutDefinition.AcceptsInput at h
  unfold InputIgnored PutDefinition.IgnoresInput checkInputsFrom
  cases hctx : s.getInput id put.putName with
  | none =>
    have hmandatory : put.mandatory = true := by simpa [hctx] using h
    simp [hmandatory, er.isSet_setError "action.input.nil" _ (by decide)]
  | some ctx =>
    cases hcheck : put.check ctx with
    | false => simp [hcheck, er.isSet_setError "action.input.invalid" _ (by decide)]
    | true =>
      have hempty : put.ignoreEmpty = true ∧ ctx.isEmptyList = true := by simpa [hctx, hcheck] using h
      simp [hcheck, hempty.1, hempty.2]

theorem checkInputsFrom_eq_true_iff :
    (checkInputsFrom fingerprint id s er entries).1 = true ↔ ∀ entry ∈ entries, InputMet id s entry := by
  induction entries with
  | nil => simp [checkInputsFrom]
  | cons entry rest ih =>
    by_cases h : InputMet id s entry
    · rw [checkInputsFrom_of_met h, ih, List.forall_mem_cons, and_iff_right h]
    · rw [(checkInputsFrom_of_not_met h).1, List.forall_mem_cons]
      simp [h]

/-- A refusal is reported unless the first input that is not met is an empty list. -/
theorem checkInputsFrom_reports_iff :
    ((checkInputsFrom fingerprint id s er entries).1 = false →
        (checkInputsFrom fingerprint id s er entries).2.isSet = true) ↔
      er.isSet = true ∨ ∀ entry, First (fun e => ¬InputMet id s e) entries entry → ¬InputIgnored id s entry := by
  induction entries with
  | nil => simp [checkInputsFrom, not_first_nil]
  | cons entry rest ih =>
    by_cases h : InputMet id s entry
    · simp only [checkInputsFrom_of_met h, ih, first_cons_of_neg (p := fun e => ¬InputMet id s e) (not_not.mpr h)]
    · simp only [(checkInputsFrom_of_not_met h).1, (checkInputsFrom_of_not_met h).2, true_implies,
        first_cons_of_pos (p := fun e => ¬InputMet id s e) h, forall_eq]

/-- The member an action has unless its class overrides it. -/
theorem checkInputsFrom_eq_declared (inputs : OrdMap String PutDefinition) :
    (checkInputsFrom fingerprint id s er inputs.entries).1 = Action.checkDeclaredInputs inputs id s := by
  rw [Bool.eq_iff_iff, checkInputsFrom_eq_true_iff, Action.checkDeclaredInputs, List.all_eq_true]
  refine forall₂_congr fun entry _ => ?_
  unfold InputMet PutDefinition.AcceptsInput
  cases s.getInput id entry.2.putName with
  | none => simp
  | some ctx => simp [or_iff_not_imp_left]

end Inputs

/-- `checkInputs` returns true if and only if every declared input is met, and says why it returns false,
exactly where the report it is given is set already or the first input that is not met is no empty list
that is to be ignored. -/
theorem inputs_checked_iff (fingerprint : String) (action : Action ω) (s : Session) (er : ErrorReport) :
    (((checkInputs fingerprint action s er).1 = true ↔
          ∀ entry ∈ action.inputs.entries, InputMet action.actionId s entry) ∧
        ((checkInputs fingerprint action s er).1 = false → (checkInputs fingerprint action s er).2.isSet = true)) ↔
      er.isSet = true ∨ ∀ entry, First (fun e => ¬InputMet action.actionId s e) action.inputs.entries entry →
        ¬InputIgnored action.actionId s entry := by
  unfold checkInputs
  rw [and_iff_right checkInputsFrom_eq_true_iff]
  exact checkInputsFrom_reports_iff

def listing : Action Unit :=
  .ofPerform "Listing" ((∅ : OrdMap String PutDefinition).insert "items"
    ⟨"items", "", "List", fun ctx => ctx.getType = "List", true, true, false⟩) ∅
    fun id env s => .ofResult env s ⟨id, .done, none⟩

def emptied : Session :=
  (Session.ofRequest (Sample.request .defaultAction 0 0)).setInput 0 "items" (some (.list "List" []))

def blank : ErrorReport := .ofError (Sample.target .defaultAction 0 0) "" ""

/-- The empty list is refused, and the report stays unset. -/
theorem empty_list_unreported : (checkInputs "" listing emptied blank).1 = false ∧
    (checkInputs "" listing emptied blank).2.isSet = false := by
  constructor <;> decide +kernel

/-! ### Outputs -/

/-- The loop of `Action::checkOutputs`. -/
def checkOutputsFrom (fingerprint : String) (id : ℤ) (s : Session) (er : ErrorReport) :
    List (String × PutDefinition) → Bool × ErrorReport
  | [] => (true, er)
  | (_, put) :: rest =>
    match s.getOutput id put.putName with
    | none =>
      if put.mandatory then (false, er.setError "action.output.nil" (nilMessage fingerprint "output" put))
      else checkOutputsFrom fingerprint id s er rest
    | some ctx =>
      -- the outputs that are left are not looked at
      if put.check ctx then (true, er)
      else if ctx.isSkip && put.allowSkip then checkOutputsFrom fingerprint id s er rest
      else (false, er.setError "action.output.invalid" (invalidMessage fingerprint "output" put ctx))

/-- `Action::checkOutputs`. -/
def checkOutputs (fingerprint : String) (action : Action ω) (s : Session) (er : ErrorReport) :
    Bool × ErrorReport :=
  checkOutputsFrom fingerprint action.actionId s er action.outputs.entries

def OutputMet (id : ℤ) (s : Session) (entry : String × PutDefinition) : Prop :=
  entry.2.AcceptsOutput (s.getOutput id entry.2.putName)

def OutputChecked (id : ℤ) (s : Session) (entry : String × PutDefinition) : Prop :=
  entry.2.ChecksOutput (s.getOutput id entry.2.putName)

section Outputs

variable {fingerprint : String} {id : ℤ} {s : Session} {er : ErrorReport} {entry : String × PutDefinition}
  {entries : List (String × PutDefinition)}

theorem checkOutputsFrom_of_checked (h : OutputChecked id s entry) :
    checkOutputsFrom fingerprint id s er (entry :: entries) = (true, er) := by
  obtain ⟨ctx, hctx, hcheck⟩ := h
  simp [checkOutputsFrom, hctx, hcheck]

theorem checkOutputsFrom_of_met (h : OutputMet id s entry) (hnot : ¬OutputChecked id s entry) :
    checkOutputsFrom fingerprint id s er (entry :: entries) = checkOutputsFrom fingerprint id s er entries := by
  rcases h with ⟨hnone, hmandatory⟩ | hchecked | ⟨ctx, hctx, hskip, hallow⟩
  · simp [checkOutputsFrom, hnone, hmandatory]
  · exact absurd hchecked hnot
  · have hcheck : entry.2.check ctx = false := by
      by_contra hcheck
      exact hnot ⟨ctx, hctx, by simpa using hcheck⟩
    simp [checkOutputsFrom, hctx, hcheck, hskip, hallow]

theorem checkOutputsFrom_of_not_met (h : ¬OutputMet id s entry) :
    (checkOutputsFrom fingerprint id s er (entry :: entries)).1 = false ∧
      (checkOutputsFrom fingerprint id s er (entry :: entries)).2.isSet = true := by
  obtain ⟨key, put⟩ := entry
  unfold OutputMet PutDefinition.AcceptsOutput at h
  unfold checkOutputsFrom
  cases hctx : s.getOutput id put.putName with
  | none =>
    have hmandatory : put.mandatory = true := by simpa [hctx] using h
    simp [hmandatory, er.isSet_setError "action.output.nil" _ (by decide)]
  | some ctx =>
    have hrefused : put.check ctx = false ∧ (ctx.isSkip && put.allowSkip) = false := by
      simpa [hctx] using h
    simp [hrefused, er.isSet_setError "action.output.invalid" _ (by decide)]

theorem checkOutputsFrom_reports (h : (checkOutputsFrom fingerprint id s er entries).1 = false) :
    (checkOutputsFrom fingerprint id s er entries).2.isSet = true := by
  induction entries with
  | nil => simp [checkOutputsFrom] at h
  | cons entry rest ih =>
    by_cases hmet : OutputMet id s entry
    · by_cases hchecked : OutputChecked id s entry
      · simp [checkOutputsFrom_of_checked hchecked] at h
      · rw [checkOutputsFrom_of_met hmet hchecked] at h ⊢
        exact ih h
    · exact (checkOutputsFrom_of_not_met hmet).2

def OutputDecides (id : ℤ) (s : Session) (entry : String × PutDefinition) : Prop :=
  OutputChecked id s entry ∨ ¬OutputMet id s entry

/-- The verdict is false exactly where the loop ends at an output that is not met. -/
theorem checkOutputsFrom_eq_false_iff :
    (checkOutputsFrom fingerprint id s er entries).1 = false ↔
      ∃ entry, First (OutputDecides id s) entries entry ∧ ¬OutputMet id s entry := by
  induction entries with
  | nil => simp [checkOutputsFrom, not_first_nil]
  | cons entry rest ih =>
    by_cases hmet : OutputMet id s entry
    · by_cases hchecked : OutputChecked id s entry
      · simp [checkOutputsFrom_of_checked hchecked, first_cons_of_pos (p := OutputDecides id s) (Or.inl hchecked),
          hmet]
      · have hgoes : ¬OutputDecides id s entry := by simp [OutputDecides, hchecked, hmet]
        simp only [checkOutputsFrom_of_met hmet hchecked, ih, first_cons_of_neg hgoes]
    · simp [(checkOutputsFrom_of_not_met hmet).1, first_cons_of_pos (p := OutputDecides id s) (Or.inr hmet), hmet]

theorem checkOutputsFrom_eq_declared :
    (checkOutputsFrom fingerprint id s er entries).1 = Action.checkDeclaredOutputs id s entries := by
  induction entries with
  | nil => rfl
  | cons entry rest ih =>
    obtain ⟨key, put⟩ := entry
    unfold checkOutputsFrom Action.checkDeclaredOutputs
    cases s.getOutput id put.putName with
    | none =>
      simp only
      split_ifs
      · rfl
      · exact ih
    | some ctx =>
      simp only
      split_ifs
      · rfl
      · exact ih
      · rfl

end Outputs

/-- `checkOutputs` returns true if and only if every declared output is met, and says why it returns false,
exactly where every output is met or the first one at which the loop ends is not. -/
theorem outputs_checked_iff (fingerprint : String) (action : Action ω) (s : Session) (er : ErrorReport) :
    (((checkOutputs fingerprint action s er).1 = true ↔
          ∀ entry ∈ action.outputs.entries, OutputMet action.actionId s entry) ∧
        ((checkOutputs fingerprint action s er).1 = false →
          (checkOutputs fingerprint action s er).2.isSet = true)) ↔
      (∀ entry ∈ action.outputs.entries, OutputMet action.actionId s entry) ∨
        ∃ entry, First (OutputDecides action.actionId s) action.outputs.entries entry ∧
          ¬OutputMet action.actionId s entry := by
  unfold checkOutputs
  have hverdict : (checkOutputsFrom fingerprint action.actionId s er action.outputs.entries).1 = false ↔ _ :=
    checkOutputsFrom_eq_false_iff
  rw [and_iff_left checkOutputsFrom_reports, ← hverdict]
  cases hverdict : (checkOutputsFrom fingerprint action.actionId s er action.outputs.entries).1 with
  | true => simp
  | false =>
    obtain ⟨entry, ⟨pre, post, heq, -⟩, hnot⟩ := checkOutputsFrom_eq_false_iff.mp hverdict
    have hmem : entry ∈ action.outputs.entries := by simp [heq]
    simp only [Bool.false_eq_true, false_iff, or_true, iff_true]
    exact fun hall => hnot (hall entry hmem)

def pairing : Action Unit :=
  .ofPerform "Pairing" ∅ (((∅ : OrdMap String PutDefinition).insert "first"
    ⟨"first", "", "Context", fun _ => true, true, false, false⟩).insert "second"
    ⟨"second", "", "Context", fun _ => true, true, false, false⟩)
    fun id env s => .ofResult env s ⟨id, .done, none⟩

def halved : Session :=
  (Session.ofRequest (Sample.request .defaultAction 0 0)).setOutput 0 "first" (some (.leaf "Context" ""))

/-- The second output is mandatory and absent, and the check passes. -/
theorem absent_output_passes : (checkOutputs "" pairing halved blank).1 = true ∧
    ¬∀ entry ∈ pairing.outputs.entries, OutputMet pairing.actionId halved entry := by
  refine ⟨by decide +kernel, fun h => ?_⟩
  have hmet := h ("second", ⟨"second", "", "Context", fun _ => true, true, false, false⟩)
    (OrdMap.find?_eq_some_iff.mp rfl)
  have hnone : halved.getOutput pairing.actionId "second" = none := rfl
  simp [OutputMet, PutDefinition.AcceptsOutput, hnone] at hmet

end Contract

end LibWorkflow
