import LibWorkflow.Actions.Contract
import Mathlib.Data.List.Induction

/-!
# Action objects and their machine

`addAction` (`core/state_machine.cpp`) tells an action its machine and its id. At Interrupt, Error, Finish
and Cleanup it speaks to the `ActionWrapper` it has put around the action of the author:
`setActionId` is virtual and forwarded to that action, `setStateMachine` is not, and writes the member the
wrapper inherits. The members of an action that need the machine (`asyncDone`, `asyncWait`, `asyncError`,
`fingerprint`, and through it the errors of `checkInputs` and `checkOutputs`) use an empty pointer then:
`registered_reaches_iff`.
-/

namespace LibWorkflow.Objects

open Ordered StateMachine

abbrev Address := ℕ

/-! ### The members of `Action` that need the machine -/

/-- `Action`: the members that registration writes. -/
structure ActionObject where
  /-- `state_machine`, as `lock()` gives it. -/
  stateMachine : Option Address
  actionId : ℤ

/-- A call of `actionAsyncFinished`. -/
structure AsyncFinished where
  machine : Address
  session : Session
  result : Result

/-- `Action::logAction`. -/
def logAction (name : String) (id : ℤ) : String :=
  let text :=
    if id = Step.cleanup.id then "C"
    else if id = Step.die.id then "D"
    else if id = Step.error.id then "E"
    else if id = Step.finish.id then "F"
    else if id = Step.interrupt.id then "I"
    else if id = Step.status.id then "S"
    else toString id
  -- `std::setw(2)`, for this text only
  "[" ++ (if text.length < 2 then " " ++ text else text) ++ " " ++ name ++ "]"

namespace ActionObject

/-- `Action::Action`. -/
def new : ActionObject := ⟨none, 0⟩

variable (o : ActionObject)

/-- `getStateMachine().lock()->actionAsyncFinished(session, result)`; none where the pointer is empty. -/
def actionAsyncFinished (s : Session) (result : Result) : Option AsyncFinished := do
  let machine ← o.stateMachine
  return ⟨machine, s, result⟩

def asyncDone (s : Session) : Option AsyncFinished := o.actionAsyncFinished s ⟨o.actionId, .done, none⟩

def asyncWait (s : Session) : Option AsyncFinished := o.actionAsyncFinished s ⟨o.actionId, .wait, none⟩

/-- `asyncError(session, error)`. -/
def asyncErrorReport (s : Session) (error : ErrorReport) : Option AsyncFinished :=
  o.actionAsyncFinished s ⟨o.actionId, .error, some { error with original := some s.request }⟩

/-- `asyncError(session, key, message)`. -/
def asyncError (s : Session) (errKey errorMessage : String) : Option AsyncFinished :=
  o.asyncErrorReport s (.ofError s.request.target errKey errorMessage)

section Texts

/- The texts of `StateMachine::fingerprint`, and the name of the action. -/
variable (machineFingerprint : Address → Session → String) (name : String)

/-- `Action::fingerprint`, of a session that may be null. -/
def fingerprint (session : Option Session) : Option String :=
  match session with
  | some s => do
    let machine ← o.stateMachine
    return machineFingerprint machine s ++ logAction name o.actionId
  | none => some (logAction name o.actionId)

/-- The loop of `Action::checkInputs`, which asks for the fingerprint where it writes an error. -/
def checkInputsFrom (s : Session) (er : ErrorReport) : List (String × PutDefinition) → Option (Bool × ErrorReport)
  | [] => some (true, er)
  | (_, put) :: rest =>
    match s.getInput o.actionId put.putName with
    | none =>
      if put.mandatory then do
        let text ← o.fingerprint machineFingerprint name (some s)
        return (false, er.setError "action.input.nil" (Contract.nilMessage text "input" put))
      else checkInputsFrom s er rest
    | some ctx =>
      if put.check ctx then
        if put.ignoreEmpty && ctx.isEmptyList then some (false, er)
        else checkInputsFrom s er rest
      else do
        let text ← o.fingerprint machineFingerprint name (some s)
        return (false, er.setError "action.input.invalid" (Contract.invalidMessage text "input" put ctx))

/-- The loop of `Action::checkOutputs`, likewise. -/
def checkOutputsFrom (s : Session) (er : ErrorReport) :
    List (String × PutDefinition) → Option (Bool × ErrorReport)
  | [] => some (true, er)
  | (_, put) :: rest =>
    match s.getOutput o.actionId put.putName with
    | none =>
      if put.mandatory then do
        let text ← o.fingerprint machineFingerprint name (some s)
        return (false, er.setError "action.output.nil" (Contract.nilMessage text "output" put))
      else checkOutputsFrom s er rest
    | some ctx =>
      if put.check ctx then some (true, er)
      else if ctx.isSkip && put.allowSkip then checkOutputsFrom s er rest
      else do
        let text ← o.fingerprint machineFingerprint name (some s)
        return (false, er.setError "action.output.invalid" (Contract.invalidMessage text "output" put ctx))

/-- `Action::checkInputs`, of an action with these inputs. -/
def checkInputs (inputs : OrdMap String PutDefinition) (s : Session) (er : ErrorReport) :
    Option (Bool × ErrorReport) := o.checkInputsFrom machineFingerprint name s er inputs.entries

/-- `Action::checkOutputs`. -/
def checkOutputs (outputs : OrdMap String PutDefinition) (s : Session) (er : ErrorReport) :
    Option (Bool × ErrorReport) := o.checkOutputsFrom machineFingerprint name s er outputs.entries

end Texts

/-! ### Reaching the machine -/

section Reaching

variable {o} {machine : Address} (machineFingerprint : Address → Session → String) (name : String)

theorem fingerprint_of_some (h : o.stateMachine = some machine) (s : Session) :
    o.fingerprint machineFingerprint name (some s) =
      some (machineFingerprint machine s ++ logAction name o.actionId) := by
  rw [fingerprint, h]
  rfl

theorem checkInputsFrom_of_some (h : o.stateMachine = some machine) (s : Session) (er : ErrorReport)
    (entries : List (String × PutDefinition)) : o.checkInputsFrom machineFingerprint name s er entries =
      some (Contract.checkInputsFrom (machineFingerprint machine s ++ logAction name o.actionId) o.actionId
        s er entries) := by
  induction entries with
  | nil => rfl
  | cons entry rest ih =>
    rw [checkInputsFrom, Contract.checkInputsFrom, fingerprint_of_some _ _ h]
    cases s.getInput o.actionId entry.2.putName with
    | none =>
      dsimp only
      split_ifs
      · rfl
      · exact ih
    | some ctx =>
      dsimp only
      split_ifs
      · rfl
      · exact ih
      · rfl

theorem checkOutputsFrom_of_some (h : o.stateMachine = some machine) (s : Session) (er : ErrorReport)
    (entries : List (String × PutDefinition)) : o.checkOutputsFrom machineFingerprint name s er entries =
      some (Contract.checkOutputsFrom (machineFingerprint machine s ++ logAction name o.actionId) o.actionId
        s er entries) := by
  induction entries with
  | nil => rfl
  | cons entry rest ih =>
    rw [checkOutputsFrom, Contract.checkOutputsFrom, fingerprint_of_some _ _ h]
    cases s.getOutput o.actionId entry.2.putName with
    | none =>
      dsimp only
      split_ifs
      · rfl
      · exact ih
    | some ctx =>
      dsimp only
      split_ifs
      · rfl
      · exact ih
      · rfl

/-- The object belongs to the machine under the id, and its members reach that machine. -/
structure Reaches (o : ActionObject) (machine : Address) (id : ℤ) : Prop where
  stateMachine : o.stateMachine = some machine
  actionId : o.actionId = id
  asyncDone : ∀ s, o.asyncDone s = some ⟨machine, s, ⟨id, .done, none⟩⟩
  asyncWait : ∀ s, o.asyncWait s = some ⟨machine, s, ⟨id, .wait, none⟩⟩
  asyncError : ∀ s key message, o.asyncError s key message =
    some ⟨machine, s, ⟨id, .error, some { ErrorReportOf.ofError s.request.target key message with
      original := some s.request }⟩⟩
  asyncErrorReport : ∀ s error, o.asyncErrorReport s error =
    some ⟨machine, s, ⟨id, .error, some { error with original := some s.request }⟩⟩
  fingerprint : ∀ machineFingerprint name s, o.fingerprint machineFingerprint name (some s) =
    some (machineFingerprint machine s ++ logAction name id)
  checkInputs : ∀ machineFingerprint name inputs s er, o.checkInputs machineFingerprint name inputs s er =
    some (Contract.checkInputsFrom (machineFingerprint machine s ++ logAction name id) id s er inputs.entries)
  checkOutputs : ∀ machineFingerprint name outputs s er, o.checkOutputs machineFingerprint name outputs s er =
    some (Contract.checkOutputsFrom (machineFingerprint machine s ++ logAction name id) id s er outputs.entries)

/-- The two members decide what all the others do. -/
theorem reaches_iff {id : ℤ} : o.Reaches machine id ↔ o.stateMachine = some machine ∧ o.actionId = id := by
  constructor
  · exact fun h => ⟨h.stateMachine, h.actionId⟩
  · rintro ⟨hmachine, rfl⟩
    exact {
      stateMachine := hmachine
      actionId := rfl
      asyncDone := fun s => by rw [ActionObject.asyncDone, actionAsyncFinished, hmachine]; rfl
      asyncWait := fun s => by rw [ActionObject.asyncWait, actionAsyncFinished, hmachine]; rfl
      asyncError := fun s key message => by
        rw [ActionObject.asyncError, ActionObject.asyncErrorReport, actionAsyncFinished, hmachine]; rfl
      asyncErrorReport := fun s error => by
        rw [ActionObject.asyncErrorReport, actionAsyncFinished, hmachine]; rfl
      fingerprint := fun machineFingerprint name s => fingerprint_of_some machineFingerprint name hmachine s
      checkInputs := fun machineFingerprint name inputs s er =>
        checkInputsFrom_of_some machineFingerprint name hmachine s er inputs.entries
      checkOutputs := fun machineFingerprint name outputs s er =>
        checkOutputsFrom_of_some machineFingerprint name hmachine s er outputs.entries }

end Reaching

end ActionObject

/-! ### Registration -/

/-- `ActionWrapper`: an action with members of its own, and the action it wraps. -/
structure ActionWrapper where
  own : ActionObject
  wrapper : Wrapper
  wrapped : Address

/-- What an entry of `actions` points at: the action that was given, or a wrapper around it. -/
inductive Pointer where
  | action (object : Address)
  | wrapper (w : ActionWrapper)

/-- The actions of the authors, and the map `actions` of each machine. -/
structure Memory where
  objects : Address → ActionObject
  actions : Address → OrdMap ℤ Pointer

def Memory.start : Memory := ⟨fun _ => .new, fun _ => ∅⟩

namespace Memory

variable (mem : Memory)

def write (object : Address) (value : ActionObject) : Memory :=
  { mem with objects := Function.update mem.objects object value }

/-- `Action::setStateMachine`, not virtual: a wrapper writes its own member. -/
def setStateMachine (machine : Address) (ptr : Pointer) : Memory × Pointer :=
  match ptr with
  | .action object => (mem.write object { mem.objects object with stateMachine := some machine }, .action object)
  | .wrapper w => (mem, .wrapper { w with own := { w.own with stateMachine := some machine } })

/-- `setActionId`, which `ActionWrapper` forwards. -/
def setActionId (id : ℤ) (ptr : Pointer) : Memory × Pointer :=
  match ptr with
  | .action object => (mem.write object { mem.objects object with actionId := id }, .action object)
  | .wrapper w => (mem.write w.wrapped { mem.objects w.wrapped with actionId := id }, .wrapper w)

/-- `addAction` of a machine, as far as the objects are concerned. -/
def addAction (machine : Address) (id : ℤ) (object : Address) : Memory :=
  if wrapperOf id = none ∧ id < 0 then mem
  else
    let ptr := match wrapperOf id with
      | some wrapper => Pointer.wrapper ⟨.new, wrapper, object⟩
      | none => Pointer.action object
    let (mem, ptr) := mem.setStateMachine machine ptr
    let (mem, ptr) := mem.setActionId id ptr
    { mem with actions := Function.update mem.actions machine ((mem.actions machine).insert id ptr) }

end Memory

/-- A call of `addAction`. -/
structure Registration where
  machine : Address
  id : ℤ
  object : Address

def register (calls : List Registration) : Memory :=
  calls.foldl (fun mem call => mem.addAction call.machine call.id call.object) .start

/-- The calls that give an object under an id that is not rejected. -/
def given (calls : List Registration) (object : Address) : List Registration :=
  calls.filter fun call => call.object = object ∧ Accepts call.id

def givenUnwrapped (calls : List Registration) (object : Address) : List Registration :=
  (given calls object).filter fun call => wrapperOf call.id = none

/-! ### What the calls leave of an object -/

theorem addAction_of_not_accepts {mem : Memory} {machine object : Address} {id : ℤ} (h : ¬Accepts id) :
    mem.addAction machine id object = mem := by
  simp only [Accepts, not_or, ne_eq, not_not, not_le] at h
  rw [Memory.addAction, if_pos h]

theorem objects_addAction {mem : Memory} {machine object : Address} {id : ℤ} (hw : wrapperOf id = none)
    (hid : 0 ≤ id) : (mem.addAction machine id object).objects =
      Function.update mem.objects object ⟨some machine, id⟩ := by
  have hnot : ¬(wrapperOf id = none ∧ id < 0) := fun h => absurd h.2 (not_lt.mpr hid)
  rw [Memory.addAction, if_neg hnot, hw]
  simp [Memory.setStateMachine, Memory.setActionId, Memory.write]

theorem objects_addAction_wrapped {mem : Memory} {machine object : Address} {id : ℤ}
    (hw : wrapperOf id ≠ none) : (mem.addAction machine id object).objects =
      Function.update mem.objects object { mem.objects object with actionId := id } := by
  obtain ⟨wrapper, hwrapper⟩ := Option.ne_none_iff_exists'.mp hw
  rw [Memory.addAction, if_neg fun h => hw h.1, hwrapper]
  simp [Memory.setStateMachine, Memory.setActionId, Memory.write]

theorem register_append (calls : List Registration) (call : Registration) :
    register (calls ++ [call]) = (register calls).addAction call.machine call.id call.object := by
  rw [register, List.foldl_append]
  rfl

theorem given_append (calls : List Registration) (call : Registration) (object : Address) :
    given (calls ++ [call]) object =
      if call.object = object ∧ Accepts call.id then given calls object ++ [call] else given calls object := by
  rw [given, List.filter_append, given, List.filter_singleton]
  split_ifs with h <;> simp [h]

/-- The last call that gives an object decides its id, the last one under an ordinary id its machine. -/
theorem objects_register (calls : List Registration) (object : Address) :
    (register calls).objects object =
      ⟨((givenUnwrapped calls object).getLast?).map Registration.machine,
        (((given calls object).getLast?).map Registration.id).getD 0⟩ := by
  induction calls using List.reverseRecOn with
  | nil => rfl
  | append_singleton calls call ih =>
    rw [register_append, givenUnwrapped, given_append]
    by_cases haccepts : Accepts call.id
    · by_cases hobject : call.object = object
      · rw [if_pos ⟨hobject, haccepts⟩, List.filter_append, List.filter_singleton]
        cases hw : wrapperOf call.id with
        | none =>
          have hid : 0 ≤ call.id := haccepts.resolve_left fun h => h hw
          rw [objects_addAction hw hid, hobject, Function.update_self]
          simp
        | some wrapper =>
          have hne : wrapperOf call.id ≠ none := by rw [hw]; exact Option.some_ne_none wrapper
          rw [objects_addAction_wrapped hne, hobject, Function.update_self, ih]
          simp [givenUnwrapped]
      · rw [if_neg fun h => hobject h.1]
        have hframe : ((register calls).addAction call.machine call.id call.object).objects object =
            (register calls).objects object := by
          have hne : object ≠ call.object := fun h => hobject h.symm
          cases hw : wrapperOf call.id with
          | none =>
            rw [objects_addAction hw (haccepts.resolve_left fun h => h hw), Function.update_of_ne hne]
          | some wrapper =>
            rw [objects_addAction_wrapped (by rw [hw]; exact Option.some_ne_none wrapper),
              Function.update_of_ne hne]
        rw [hframe, ih, givenUnwrapped]
    · rw [if_neg fun h => haccepts h.2, addAction_of_not_accepts haccepts, ih, givenUnwrapped]

/-! ### The machine's side -/

def Pointer.view : Pointer → Option Wrapper × Address
  | .action object => (none, object)
  | .wrapper w => (some w.wrapper, w.wrapped)

theorem find?_actions_addAction (mem : Memory) {machine object : Address} {id : ℤ} (h : Accepts id)
    (place : Address) (a : ℤ) :
    (((mem.addAction machine id object).actions place).find? a).map Pointer.view =
      if machine = place ∧ a = id then some (wrapperOf id, object)
      else ((mem.actions place).find? a).map Pointer.view := by
  have hnot : ¬(wrapperOf id = none ∧ id < 0) := fun ⟨hw, hlt⟩ => h.elim (fun h => h hw) (not_le.mpr hlt)
  obtain ⟨ptr, hview, hactions⟩ : ∃ ptr : Pointer, ptr.view = (wrapperOf id, object) ∧
      (mem.addAction machine id object).actions =
        Function.update mem.actions machine ((mem.actions machine).insert id ptr) := by
    rw [Memory.addAction, if_neg hnot]
    cases wrapperOf id with
    | none => exact ⟨_, rfl, rfl⟩
    | some wrapper => exact ⟨_, rfl, rfl⟩
  rw [hactions]
  by_cases hplace : machine = place
  · subst hplace
    rw [Function.update_self, OrdMap.find?_insert]
    by_cases ha : a = id
    · rw [if_pos ha, if_pos ⟨rfl, ha⟩, Option.map_some, hview]
    · rw [if_neg ha, if_neg fun h => ha h.2]
  · rw [Function.update_of_ne (Ne.symm hplace), if_neg fun h => hplace h.1]

/-- The machine at an address, built by the calls that name it; `code` and `bindings` are what the calls
give besides. -/
def machineAt {ω : Type} (code : Address → Action ω) (bindings : Registration → List OutputBinding)
    (calls : List Registration) (place : Address) : StateMachine ω :=
  (calls.filter fun call => call.machine = place).foldl
    (fun m call => m.addAction call.id (code call.object) (bindings call)) .new

/-- Under each id the machine has the action that `actions` leads to, in the same wrapper. -/
theorem find?_machineAt {ω : Type} (code : Address → Action ω) (bindings : Registration → List OutputBinding)
    (calls : List Registration) (place : Address) (a : ℤ) :
    (machineAt code bindings calls place).actions.find? a =
      (((register calls).actions place).find? a).map fun ptr =>
        ActionPtr.setActionId ⟨ptr.view.1, code ptr.view.2⟩ a := by
  have hmap : ∀ o : Option Pointer, (o.map fun ptr => ActionPtr.setActionId ⟨ptr.view.1, code ptr.view.2⟩ a) =
      (o.map Pointer.view).map fun v => ActionPtr.setActionId ⟨v.1, code v.2⟩ a := fun o => by
    rw [Option.map_map]
    rfl
  rw [hmap]
  induction calls using List.reverseRecOn with
  | nil => rfl
  | append_singleton calls call ih =>
    have hstep : machineAt code bindings (calls ++ [call]) place =
        if call.machine = place then
          (machineAt code bindings calls place).addAction call.id (code call.object) (bindings call)
        else machineAt code bindings calls place := by
      rw [machineAt, List.filter_append, List.filter_singleton, List.foldl_append, machineAt]
      by_cases hplace : call.machine = place <;> simp [hplace]
    rw [hstep, register_append]
    by_cases haccepts : Accepts call.id
    · rw [find?_actions_addAction _ haccepts]
      by_cases hplace : call.machine = place
      · rw [if_pos hplace, find?_addAction haccepts]
        by_cases ha : a = call.id
        · rw [if_pos ha, if_pos ⟨hplace, ha⟩, ha]
          rfl
        · rw [if_neg ha, if_neg fun h => ha h.2, ih]
      · rw [if_neg hplace, if_neg fun h => hplace h.1, ih]
    · rw [Objects.addAction_of_not_accepts haccepts, StateMachine.addAction_of_not_accepts haccepts, ite_self, ih]

/-- An action reaches its machine under the id of a call exactly where the last call that gave it under an
ordinary id was on that machine, and the last call that gave it had that id. -/
theorem registered_reaches_iff {calls : List Registration} {call : Registration} (hcall : call ∈ calls)
    (haccepts : Accepts call.id) :
    ((register calls).objects call.object).Reaches call.machine call.id ↔
      (∃ last ∈ (givenUnwrapped calls call.object).getLast?, last.machine = call.machine) ∧
        ∃ last ∈ (given calls call.object).getLast?, last.id = call.id := by
  have hmem : call ∈ given calls call.object :=
    List.mem_filter.mpr ⟨hcall, decide_eq_true ⟨rfl, haccepts⟩⟩
  obtain ⟨last, hlast⟩ : ∃ last, (given calls call.object).getLast? = some last :=
    ⟨_, List.getLast?_eq_some_getLast (List.ne_nil_of_mem hmem)⟩
  rw [ActionObject.reaches_iff, objects_register, hlast]
  simp

theorem reaches_iff_of_once {calls : List Registration} {call : Registration} (hcall : call ∈ calls)
    (haccepts : Accepts call.id) (honce : given calls call.object = [call]) :
    ((register calls).objects call.object).Reaches call.machine call.id ↔ wrapperOf call.id = none := by
  rw [registered_reaches_iff hcall haccepts, givenUnwrapped, honce, List.filter_singleton]
  cases wrapperOf call.id <;> simp

/-- Two machines: one action is given to both, one is given at Error, and one at two ids of the second. -/
def several : List Registration := [⟨0, 0, 7⟩, ⟨0, Step.error.id, 8⟩, ⟨1, 0, 7⟩, ⟨1, 1, 9⟩, ⟨1, 2, 9⟩]

/-- The first action reaches the machine it was given to last, and not the other; the second has none; the
third has the last of its ids. -/
theorem several_reach : (((register several).objects 7).Reaches 1 0 ∧ ¬((register several).objects 7).Reaches 0 0) ∧
    ¬((register several).objects 8).Reaches 0 Step.error.id ∧
    (((register several).objects 9).Reaches 1 2 ∧ ¬((register several).objects 9).Reaches 1 1) := by
  refine ⟨⟨?_, fun h => ?_⟩, fun h => ?_, ?_, fun h => ?_⟩
  · exact (@registered_reaches_iff several ⟨1, 0, 7⟩ (by simp [several]) (.inr (by decide))).mpr
      ⟨⟨⟨1, 0, 7⟩, rfl, rfl⟩, ⟨1, 0, 7⟩, rfl, rfl⟩
  · obtain ⟨⟨last, hlast, hmachine⟩, -⟩ :=
      (@registered_reaches_iff several ⟨0, 0, 7⟩ (by simp [several]) (.inr (by decide))).mp h
    cases hlast
    cases hmachine
  · obtain ⟨⟨last, hlast, -⟩, -⟩ :=
      (@registered_reaches_iff several ⟨0, Step.error.id, 8⟩ (by simp [several]) (.inl (by decide))).mp h
    cases hlast
  · exact (@registered_reaches_iff several ⟨1, 2, 9⟩ (by simp [several]) (.inr (by decide))).mpr
      ⟨⟨⟨1, 2, 9⟩, rfl, rfl⟩, ⟨1, 2, 9⟩, rfl, rfl⟩
  · obtain ⟨-, last, hlast, hid⟩ :=
      (@registered_reaches_iff several ⟨1, 1, 9⟩ (by simp [several]) (.inr (by decide))).mp h
    cases hlast
    cases hid

def atError : Registration := ⟨0, Step.error.id, 7⟩

/-- It has its id and no machine: it cannot finish, nor report what is wrong with an input. -/
theorem atError_unreached : Accepts atError.id ∧
    (register [atError]).objects 7 = ⟨none, Step.error.id⟩ ∧
    ¬((register [atError]).objects 7).Reaches 0 Step.error.id ∧
    ∀ s, ((register [atError]).objects 7).asyncDone s = none ∧
      ∀ texts name, ((register [atError]).objects 7).fingerprint texts name (some s) = none := by
  refine ⟨by decide, rfl, fun h => ?_, fun s => ⟨rfl, fun _ _ => rfl⟩⟩
  have hmachine := h.stateMachine
  cases hmachine

end LibWorkflow.Objects
