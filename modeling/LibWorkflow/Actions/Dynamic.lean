import LibWorkflow.Actions.Interface
import LibWorkflow.Lib.Reactive

/-!
# A dynamic action that sessions share

An `ExecuteWorkflow` with the property `dynamic` prepares itself at every `checkInputs`. What it was prepared
for is kept in the property set that the session has for it, and what it declares in the action: a session
whose own set names its target takes what is declared, whichever session had the action prepared last. So each
call leaves what belongs to the target of the last one that prepared the action, and that is the session's own
where the two have the same interface (`dynamic_declares_selected`).
-/

namespace LibWorkflow

open Ordered Fallible

variable {ω : Type}

def Controllers.named (controllers : Controllers ω) (selected : String × String) : Option (StateMachine ω) :=
  (controllers.find? selected.1).bind (·.find? selected.2)

/-- These are the inputs and the outputs of the selected workflow. -/
def Controllers.Declares (controllers : Controllers ω) (selected : String × String)
    (inputs outputs : OrdMap String PutDefinition) : Prop :=
  (controllers.named selected).map ExecuteWorkflow.interface = some (.ok (inputs, outputs))

namespace ExecuteWorkflow

/-- The controller and the workflow that a session selects, or the action itself. -/
def selected (a : ExecuteWorkflow) (session : Option Session) : String × String :=
  (a.stringProperty session "controller", a.stringProperty session "workflow")

/-- `prepare` returns true. -/
def getsPrepared (controllers : Controllers ω) (a : ExecuteWorkflow) (s : Session) : Bool :=
  ((a.prepare controllers (some s)).toOption.map fun prepared => prepared.2.2).getD false

end ExecuteWorkflow

/-- A call of `checkInputs`: what the session selected, whether it got past `prepare`, and what the action
declares afterwards. -/
structure Check where
  session : UUID
  selected : String × String
  passed : Bool
  inputs : OrdMap String PutDefinition
  outputs : OrdMap String PutDefinition

/-- The action, the sessions that share it, what it was prepared for and the calls so far, the last one
first. -/
structure Sharing where
  action : ExecuteWorkflow
  sessions : OrdMap UUID Session
  configured : List (String × String)
  checks : List Check

inductive Sharing.Input where
  /-- `checkInputs`. -/
  | checkInputs (session : UUID) (er : ErrorReport)
  /-- `expectInput` and `expectOutput`, which prepare the action without a session. -/
  | expectInput (key : String)
  | expectOutput (key : String)
  /-- A session is opened, or something else changes it. -/
  | session (id : UUID) (s : Session)

namespace Sharing

def preparedFor (x : Sharing) : Option (String × String) := x.configured.head?

/-- `checkInputs` of a session. A call that throws ends the process. -/
def check (controllers : Controllers ω) (fingerprint : Session → String) (x : Sharing) (id : UUID)
    (er : ErrorReport) : Option Sharing := do
  let s ← x.sessions.find? id
  let (action, s', _, _) ← (x.action.checkInputs controllers (fingerprint s) s er).toOption
  let passed := x.action.getsPrepared controllers s
  return {
    action := action
    sessions := x.sessions.insert id s'
    configured :=
      if passed && !x.action.stillPrepared (some s) then x.action.selected (some s) :: x.configured
      else x.configured
    checks := ⟨id, x.action.selected (some s), passed, action.inputs, action.outputs⟩ :: x.checks }

/-- `expectInput` or `expectOutput`, with what it returns. -/
def expect (x : Sharing) (expected : Except FailedLookup (ExecuteWorkflow × Option String)) : Option Sharing := do
  let (action, _) ← expected.toOption
  return { x with
    action := action
    configured :=
      if action.prepared && !x.action.prepared then x.action.selected none :: x.configured else x.configured }

def system (controllers : Controllers ω) (fingerprint : Session → String) : Reactive.System Sharing Input where
  next _ := none
  accept x
    | .checkInputs id er => x.check controllers fingerprint id er
    | .expectInput key => x.expect (x.action.expectInput controllers key)
    | .expectOutput key => x.expect (x.action.expectOutput controllers key)
    | .session id s => some { x with sessions := x.sessions.insert id s }

/-- If the action is prepared, and the own set of the session names what the session selects, then the action
was prepared last for this target, or for one of the same interface. -/
def Current (controllers : Controllers ω) (x : Sharing) (s : Session) : Prop :=
  x.action.prepared = true →
    x.action.remembers s (x.action.selected (some s)).1 (x.action.selected (some s)).2 = true →
      (x.preparedFor.bind controllers.named).map ExecuteWorkflow.interface =
        (controllers.named (x.action.selected (some s))).map ExecuteWorkflow.interface

/-- The property `dynamic` is set for a session that calls `checkInputs`. -/
def Dynamic (x : Sharing) : Option Input → Prop
  | some (.checkInputs id _) =>
    ∀ s, x.sessions.find? id = some s → x.action.boolProperty (some s) "dynamic" = true
  | _ => True

def Settled (controllers : Controllers ω) (x : Sharing) : Option Input → Prop
  | some (.checkInputs id _) => ∀ s, x.sessions.find? id = some s → x.Current controllers s
  | _ => True

end Sharing

namespace ExecuteWorkflow

variable {controllers : Controllers ω} {a a' : ExecuteWorkflow} {s : Session}

theorem stillPrepared_iff_of_dynamic (hdynamic : a.boolProperty (some s) "dynamic" = true) :
    a.stillPrepared (some s) = true ↔
      a.prepared = true ∧ a.remembers s (a.selected (some s)).1 (a.selected (some s)).2 = true := by
  unfold stillPrepared selected
  cases hprepared : a.prepared with
  | true => simp [hdynamic]
  | false => simp

/-- What a dynamic action does before it looks at its inputs. -/
theorem prepare_of_checkInputs {fingerprint : String} {er er' : ErrorReport} {s' : Session} {res : Bool}
    (hdynamic : a.boolProperty (some s) "dynamic" = true)
    (h : a.checkInputs controllers fingerprint s er = .ok (a', s', res, er')) :
    ∃ session, a.prepare controllers (some s) = .ok (a', session, a.getsPrepared controllers s) := by
  unfold checkInputs at h
  rw [hdynamic, Bool.true_or, if_pos rfl] at h
  obtain ⟨⟨action, session, prepared⟩, hprepare, hrest⟩ := bind_eq_ok.mp h
  have hgets : a.getsPrepared controllers s = prepared := by
    unfold getsPrepared
    rw [hprepare]
    rfl
  refine ⟨session, ?_⟩
  rw [hprepare, hgets]
  cases prepared with
  | true => cases hrest; rfl
  | false => cases hrest; rfl

/-- The three ways through `prepare`. -/
theorem prepare_cases {session session' : Option Session} {res : Bool}
    (h : a.prepare controllers session = .ok (a', session', res)) :
    (a.stillPrepared session = true ∧ a' = a ∧ res = true) ∨
      (a.stillPrepared session = false ∧ a'.prepared = false ∧ res = false) ∨
      (a.stillPrepared session = false ∧ res = true ∧
        controllers.Declares (a.selected session) a'.inputs a'.outputs) := by
  cases hstill : a.stillPrepared session with
  | true =>
    unfold prepare at h
    rw [if_pos hstill] at h
    cases h
    exact Or.inl ⟨rfl, rfl, rfl⟩
  | false =>
    cases htarget : a.target? controllers session with
    | none =>
      unfold prepare at h
      rw [hstill, if_neg Bool.false_ne_true, htarget] at h
      cases h
      exact Or.inr (Or.inl ⟨rfl, rfl, rfl⟩)
    | some m =>
      have hnot : ¬a.stillPrepared session = true := by simp [hstill]
      have hprepare := h
      rw [prepare_of_target hnot htarget] at hprepare
      obtain ⟨configured, -, hresult⟩ := bind_eq_ok.mp hprepare
      cases hresult
      have hnamed : controllers.named (a.selected session) = some m := htarget
      refine Or.inr (Or.inr ⟨rfl, rfl, ?_⟩)
      unfold Controllers.Declares
      rw [hnamed, Option.map_some, interface_of_prepare hstill htarget h]

theorem prepare_of_expectPut {puts : ExecuteWorkflow → OrdMap String PutDefinition} {key invalid : String}
    {message : Option String} (h : a.expectPut controllers puts key invalid = .ok (a', message)) :
    (a.prepared = true ∧ a' = a) ∨ (a.prepared = false ∧
      ∃ session res, a.prepare controllers none = .ok (a', session, res)) := by
  unfold expectPut at h
  obtain ⟨⟨action, session, res⟩, hprepare, hrest⟩ := bind_eq_ok.mp h
  have hsame : action = a' := by
    dsimp only at hrest
    split_ifs at hrest
    · cases hrest
      rfl
    · cases hrest
      rfl
    · cases hrest
      rfl
  cases hprepared : a.prepared with
  | true =>
    rw [hprepared, if_pos rfl] at hprepare
    cases hprepare
    exact .inl ⟨rfl, hsame.symm⟩
  | false =>
    rw [hprepared, if_neg Bool.false_ne_true] at hprepare
    exact .inr ⟨rfl, session, res, hsame ▸ hprepare⟩

end ExecuteWorkflow

namespace Sharing

variable {controllers : Controllers ω} {fingerprint : Session → String} {x x' : Sharing}

/-- What the action declares belongs to the target it was prepared for last. -/
def Tracks (controllers : Controllers ω) (x : Sharing) : Prop :=
  x.action.prepared = true → (x.preparedFor.bind controllers.named).map ExecuteWorkflow.interface =
    some (.ok (x.action.inputs, x.action.outputs))

/-- A dynamic action that is prepared for the session declares the interface of what the session selects if and
only if it was prepared last for a target of that interface. -/
theorem Tracks.declares_iff (hx : x.Tracks controllers) {s : Session}
    (hdynamic : x.action.boolProperty (some s) "dynamic" = true) {a' : ExecuteWorkflow} {session : Option Session}
    (h : x.action.prepare controllers (some s) = .ok (a', session, true)) :
    controllers.Declares (x.action.selected (some s)) a'.inputs a'.outputs ↔ x.Current controllers s := by
  rcases ExecuteWorkflow.prepare_cases h with ⟨hstill, rfl, -⟩ | ⟨-, -, hres⟩ | ⟨hstill, -, hdeclares⟩
  · obtain ⟨hprepared, hremembers⟩ := (ExecuteWorkflow.stillPrepared_iff_of_dynamic hdynamic).mp hstill
    unfold Current Controllers.Declares
    rw [hx hprepared]
    constructor
    · exact fun hdeclares _ _ => hdeclares.symm
    · exact fun hcurrent => (hcurrent hprepared hremembers).symm
  · cases hres
  · refine iff_of_true hdeclares fun hprepared hremembers => ?_
    have hnow := (ExecuteWorkflow.stillPrepared_iff_of_dynamic hdynamic).mpr ⟨hprepared, hremembers⟩
    rw [hstill] at hnow
    cases hnow

theorem check_eq_some {id : UUID} {er : ErrorReport} (h : x.check controllers fingerprint id er = some x') :
    ∃ s s' res er', x.sessions.find? id = some s ∧
      x.action.checkInputs controllers (fingerprint s) s er = .ok (x'.action, s', res, er') ∧
      x'.configured = (if x.action.getsPrepared controllers s && !x.action.stillPrepared (some s) then
        x.action.selected (some s) :: x.configured else x.configured) ∧
      x'.checks = ⟨id, x.action.selected (some s), x.action.getsPrepared controllers s, x'.action.inputs,
        x'.action.outputs⟩ :: x.checks := by
  unfold check at h
  obtain ⟨s, hfind, h⟩ := Option.bind_eq_some_iff.mp h
  obtain ⟨⟨action, s', res, er'⟩, hcheck, h⟩ := Option.bind_eq_some_iff.mp h
  cases h
  refine ⟨s, s', res, er', hfind, ?_, rfl, rfl⟩
  cases hresult : x.action.checkInputs controllers (fingerprint s) s er with
  | error e =>
    rw [hresult] at hcheck
    cases hcheck
  | ok result =>
    rw [hresult] at hcheck
    cases hcheck
    rfl

theorem Tracks.check (hx : x.Tracks controllers) {id : UUID} {er : ErrorReport}
    (hdynamic : x.Dynamic (some (.checkInputs id er))) (h : x.check controllers fingerprint id er = some x') :
    x'.Tracks controllers := by
  obtain ⟨s, s', res, er', hfind, hcheck, hconfigured, -⟩ := check_eq_some h
  obtain ⟨session, hprepare⟩ := ExecuteWorkflow.prepare_of_checkInputs (hdynamic s hfind) hcheck
  intro hprepared
  unfold preparedFor
  rcases ExecuteWorkflow.prepare_cases hprepare with
    ⟨hstill, haction, -⟩ | ⟨-, hnot, -⟩ | ⟨hstill, hpassed, hdeclares⟩
  · -- the action was prepared, and stays as it was
    rw [hconfigured, if_neg (by simp [hstill])]
    rw [haction] at hprepared ⊢
    exact hx hprepared
  · rw [hnot] at hprepared
    cases hprepared
  · rw [hconfigured, if_pos (by simp [hstill, hpassed])]
    exact hdeclares

/-- So does a preparation without a session. -/
theorem Tracks.expect (hx : x.Tracks controllers) {puts : ExecuteWorkflow → OrdMap String PutDefinition}
    {key invalid : String} (h : x.expect (x.action.expectPut controllers puts key invalid) = some x') :
    x'.Tracks controllers := by
  unfold Sharing.expect at h
  obtain ⟨⟨action, message⟩, hexpect, h⟩ := Option.bind_eq_some_iff.mp h
  cases h
  have hok : x.action.expectPut controllers puts key invalid = .ok (action, message) := by
    revert hexpect
    cases x.action.expectPut controllers puts key invalid with
    | error e => exact fun hexpect => nomatch hexpect
    | ok result => exact fun hexpect => congrArg Except.ok (Option.some.inj hexpect)
  intro hprepared
  unfold preparedFor
  rcases ExecuteWorkflow.prepare_of_expectPut hok with ⟨hbefore, rfl⟩ | ⟨hbefore, session, res, hprepare⟩
  · dsimp only
    rw [if_neg (by simp [hbefore])]
    exact hx hbefore
  · rcases ExecuteWorkflow.prepare_cases hprepare with ⟨hstill, -, -⟩ | ⟨-, hnot, -⟩ | ⟨-, -, hdeclares⟩
    · exact absurd (hbefore.symm.trans hstill) Bool.false_ne_true
    · exact absurd (hnot.symm.trans hprepared) Bool.false_ne_true
    · have hnow : action.prepared = true := hprepared
      dsimp only
      rw [if_pos (by simp [hbefore, hnow])]
      exact hdeclares

theorem Tracks.accept (hx : x.Tracks controllers) {input : Input} (hdynamic : x.Dynamic (some input))
    (h : (system controllers fingerprint).accept x input = some x') : x'.Tracks controllers := by
  cases input with
  | checkInputs id er => exact hx.check hdynamic h
  | expectInput key => exact hx.expect h
  | expectOutput key => exact hx.expect h
  | session id s =>
    cases h
    exact hx

/-- Every call that gets past `prepare` leaves the interface of what its session selects. -/
def Safe (controllers : Controllers ω) (x : Sharing) : Prop :=
  ∀ check ∈ x.checks, check.passed = true → controllers.Declares check.selected check.inputs check.outputs

theorem Safe.check (hsafe : x.Safe controllers) (hx : x.Tracks controllers) {id : UUID} {er : ErrorReport}
    (hdynamic : x.Dynamic (some (.checkInputs id er))) (hsettled : x.Settled controllers (some (.checkInputs id er)))
    (h : x.check controllers fingerprint id er = some x') : x'.Safe controllers := by
  obtain ⟨s, s', res, er', hfind, hcheck, -, hchecks⟩ := check_eq_some h
  obtain ⟨session, hprepare⟩ := ExecuteWorkflow.prepare_of_checkInputs (hdynamic s hfind) hcheck
  unfold Safe
  rw [hchecks]
  refine List.forall_mem_cons.mpr ⟨fun hpassed => ?_, hsafe⟩
  have hgets : x.action.getsPrepared controllers s = true := hpassed
  rw [hgets] at hprepare
  exact (hx.declares_iff (hdynamic s hfind) hprepare).mpr (hsettled s hfind)

theorem Safe.expect (hsafe : x.Safe controllers)
    {expected : Except FailedLookup (ExecuteWorkflow × Option String)} (h : x.expect expected = some x') :
    x'.Safe controllers := by
  unfold Sharing.expect at h
  obtain ⟨⟨action, message⟩, -, h⟩ := Option.bind_eq_some_iff.mp h
  cases h
  exact hsafe

theorem Safe.accept (hsafe : x.Safe controllers) (hx : x.Tracks controllers) {input : Input}
    (hdynamic : x.Dynamic (some input)) (hsettled : x.Settled controllers (some input))
    (h : (system controllers fingerprint).accept x input = some x') : x'.Safe controllers := by
  cases input with
  | checkInputs id er => exact hsafe.check hx hdynamic hsettled h
  | expectInput key => exact hsafe.expect h
  | expectOutput key => exact hsafe.expect h
  | session id s =>
    cases h
    exact hsafe

/-- **Dynamic actions.** In every run of the sessions that share an action which is not prepared at first, if
at each call the session finds what is its own, every call that gets past `prepare` leaves the action with the
inputs and outputs of the workflow its session selects; and wherever the run has come to, the next one does so
if and only if its session finds what is its own. -/
theorem dynamic_declares_selected {start : Sharing} (hnew : start.action.prepared = false)
    (hnone : start.checks = [])
    (hrun : (system controllers fingerprint).Run
      (fun x label => x.Dynamic label ∧ x.Settled controllers label) start x) :
    (∀ check ∈ x.checks, check.passed = true →
        controllers.Declares check.selected check.inputs check.outputs) ∧
      ∀ s a' session, x.action.boolProperty (some s) "dynamic" = true →
        x.action.prepare controllers (some s) = .ok (a', session, true) →
        (controllers.Declares (x.action.selected (some s)) a'.inputs a'.outputs ↔ x.Current controllers s) := by
  have hstart : start.Safe controllers ∧ start.Tracks controllers := by
    constructor
    · unfold Safe
      rw [hnone]
      exact fun _ h => absurd h List.not_mem_nil
    · intro hprepared
      rw [hnew] at hprepared
      cases hprepared
  have hinv : x.Safe controllers ∧ x.Tracks controllers := by
    apply hrun.invariant_cases hstart
    · intro _ _ _ _ h
      cases h
    · rintro y input y' ⟨hsafe, htracks⟩ ⟨hdynamic, hsettled⟩ h
      exact ⟨hsafe.accept htracks hdynamic hsettled h, htracks.accept hdynamic h⟩
  exact ⟨hinv.1, fun s a' session hdynamic h => hinv.2.declares_iff hdynamic h⟩

/-- A workflow whose result has another name than that of `relaying`. -/
def answering : StateMachine Unit :=
  ((StateMachine.new.init.addAction 0 (Sample.returning .done) [Sample.leadTo 2]).addAction 2
    (.ofPerform "Answering" ∅ ((∅ : OrdMap String PutDefinition).insert "answer"
      ⟨"answer", "", "Context", fun _ => true, false, false, false⟩) fun id env s =>
        .ofResult env s ⟨id, .done, none⟩)
    [StateMachine.bindingTo 2 "answer" Step.finish.id "answer"]).addInput ⟨"", 0, ""⟩

def twoTargets : Controllers Unit :=
  (∅ : Controllers Unit).insert "default" (((∅ : OrdMap String (StateMachine Unit)).insert "answering"
    answering).insert "relaying" ExecuteWorkflow.relaying)

def selecting (workflow : String) : Session :=
  { Session.ofRequest (Sample.request .defaultAction 0 0) with
    bypass := PropertySet.new.defineStringProperty "workflow" workflow "" false }

def shared : Sharing :=
  ⟨.new 1, ((∅ : OrdMap UUID Session).insert 1 (selecting "relaying")).insert 2 (selecting "answering"), [], []⟩

/-- A call of `checkInputs`. -/
def call (id : UUID) : Input := .checkInputs id Contract.blank

def afterCalls (calls : List UUID) : Sharing :=
  (system twoTargets fun _ => "").play 0 (calls.map call) shared

def defaulting : Sharing :=
  { shared with
    action := { ExecuteWorkflow.new 1 with
      properties := ((ExecuteWorkflow.new 1).properties.setStringProperty "workflow" "answering").1 } }

/-- The sharing after the action was prepared without a session, and these calls. -/
def afterExpect (calls : List UUID) : Sharing :=
  (system twoTargets fun _ => "").play 0 (.expectInput "" :: calls.map call) defaulting

example : (afterExpect []).action.prepared = true ∧
    (afterExpect []).preparedFor = some ("default", "answering") := by decide +kernel

/-- The action is prepared without a session, each session calls once, and one of them calls again. -/
theorem repeating_declares_selected :
    (∀ check ∈ (afterExpect [1, 2, 2]).checks, check.passed = true →
        twoTargets.Declares check.selected check.inputs check.outputs) ∧
      ∀ s a' session, (afterExpect [1, 2, 2]).action.boolProperty (some s) "dynamic" = true →
        (afterExpect [1, 2, 2]).action.prepare twoTargets (some s) = .ok (a', session, true) →
        (twoTargets.Declares ((afterExpect [1, 2, 2]).action.selected (some s)) a'.inputs a'.outputs ↔
          (afterExpect [1, 2, 2]).Current twoTargets s) := by
  have hexpect : (system twoTargets fun _ => "").Run
      (fun x label => x.Dynamic label ∧ x.Settled twoTargets label) defaulting (afterExpect []) := by
    refine .step .start ⟨?_, ?_⟩ (.input (i := .expectInput "") rfl)
    · trivial
    · trivial
  have hfirst : (system twoTargets fun _ => "").Run
      (fun x label => x.Dynamic label ∧ x.Settled twoTargets label) defaulting (afterExpect [1]) := by
    refine hexpect.step ⟨?_, ?_⟩ (.input (i := call 1) rfl)
    · intro s hs
      cases hs
      decide +kernel
    · intro s hs _ hremembers
      cases hs
      exact absurd hremembers (by decide +kernel)
  have hother : (system twoTargets fun _ => "").Run
      (fun x label => x.Dynamic label ∧ x.Settled twoTargets label) defaulting (afterExpect [1, 2]) := by
    refine hfirst.step ⟨?_, ?_⟩ (.input (i := call 2) rfl)
    · intro s hs
      cases hs
      decide +kernel
    · intro s hs _ hremembers
      cases hs
      exact absurd hremembers (by decide +kernel)
  have hagain : (system twoTargets fun _ => "").Run
      (fun x label => x.Dynamic label ∧ x.Settled twoTargets label) defaulting (afterExpect [1, 2, 2]) := by
    refine hother.step ⟨?_, ?_⟩ (.input (i := call 2) rfl)
    · intro s hs
      cases hs
      decide +kernel
    · intro s hs _ _
      have hlast : (afterExpect [1, 2]).preparedFor = some ((afterExpect [1, 2]).action.selected (some s)) := by
        cases hs
        decide +kernel
      rw [hlast]
      rfl
  exact dynamic_declares_selected (by rfl) (by rfl) hagain

/-- The first session calls again, and gets past `prepare`; what is declared belongs to the other one's
workflow. -/
theorem first_session_again :
    (system twoTargets fun _ => "").Run (fun x label => x.Dynamic label) shared (afterCalls [1, 2, 1]) ∧
      ∃ check ∈ (afterCalls [1, 2, 1]).checks, check.session = 1 ∧ check.passed = true ∧
        check.selected = ("default", "relaying") ∧ check.outputs.contains "answer" = true ∧
        ¬twoTargets.Declares check.selected check.inputs check.outputs := by
  refine ⟨?_, _, List.mem_cons_self, rfl, by decide +kernel, by decide +kernel, by decide +kernel, fun h => ?_⟩
  · have hfirst : (system twoTargets fun _ => "").Run (fun x label => x.Dynamic label) shared (afterCalls [1]) := by
      refine .step .start ?_ (.input (i := call 1) rfl)
      intro s hs
      cases hs
      decide +kernel
    have hother : (system twoTargets fun _ => "").Run (fun x label => x.Dynamic label) shared
        (afterCalls [1, 2]) := by
      refine hfirst.step ?_ (.input (i := call 2) rfl)
      intro s hs
      cases hs
      decide +kernel
    refine hother.step ?_ (.input (i := call 1) rfl)
    intro s hs
    cases hs
    decide +kernel
  · have hnames := congrArg (Option.map fun interface =>
      (Except.toOption interface).map fun puts => puts.2.contains "answer") h
    revert hnames
    decide +kernel

end Sharing

end LibWorkflow
