import LibWorkflow.Lib.Registry
import LibWorkflow.Service.Routing
import LibWorkflow.Sessions.Finished

/-!
# The workflows of a temporary controller

`TemporaryController` of `core/controller.cpp` at work. Requests are given to it, at any time; each thread of
its pool takes one of the calls that were posted, and the workflows it made do what workflows do. A pointer to
a workflow is its position among all that were made: a workflow is there as long as someone holds a pointer
to it, also when the controller has dropped it. What the actions of a workflow read may have been changed by
others, so each step is given its environment.
-/

namespace LibWorkflow

open Ordered

/-- A workflow made of the text of a request: the name it got, and the request as it was posted to it. -/
structure Hosted (ω : Type) where
  name : String
  request : Request
  working : Working ω

/-- What changes the workflows of the controller: a workflow is added, or a request it executed is finished,
and the workflow of that name is dropped. -/
inductive Registration where
  | added (pointer : ℕ) (name : String)
  | died (pointer : ℕ) (name : String)

namespace Registration

def pointer : Registration → ℕ
  | added pointer _ => pointer
  | died pointer _ => pointer

def name : Registration → String
  | added _ name => name
  | died _ name => name

def added? : Registration → Option ℕ
  | added pointer _ => some pointer
  | died _ _ => none

def entry : Registration → Registry.Entry String ℕ
  | added pointer name => .bind name pointer
  | died _ name => .drop name

theorem key_entry (r : Registration) : r.entry.key = r.name := by cases r <;> rfl

def About {ω : Type} (object : Hosted ω) : Registration → Prop
  | added _ name => object.name = name
  | died _ name => object.name = name ∧ ∃ id, object.working.Died id

end Registration

/-- A temporary controller, the workflows it made, the calls that wait for a thread, and what changed its
workflows so far. -/
structure Hosting (ω : Type) where
  controller : Controller ℕ
  objects : List (Hosted ω)
  posted : List (ℕ × Request)
  log : List Registration

/-- What happens to a temporary controller and its workflows. -/
inductive Hosting.Input (ω : Type) where
  /-- `TemporaryController::perform`. -/
  | perform (req : Request) (draws : Draws ℕ) (env : ω)
  /-- A thread makes one of the posted calls of `Workflow::perform`. -/
  | execute (index : ℕ) (flag : Bool) (env : ω)
  /-- A workflow goes on with its innermost call. -/
  | proceed (pointer : ℕ) (env : ω)
  | asyncFinished (pointer : ℕ) (id : UUID) (result : Result) (env : ω)
  /-- `Workflow::requestTimedOut`. -/
  | timedOut (pointer : ℕ) (id identifier : UUID) (flag : Bool) (env : ω)

variable {ω : Type}

/-- The call a dispatch posts. -/
def Dispatch.posted? {α : Type} : Dispatch α → Option (α × Request)
  | posted workflow request => some (workflow, request)
  | _ => none

/-- The request `requestTimedOut` performs, if the session is there. `Request(target)` has a reply target of
its own, of kind NoReply. -/
def Workflow.requestTimedOut (p : Platform) (identifier : UUID) (w : Workflow ω) (id : UUID) : Option Request :=
  (w.sessions.find? id).map fun rsession =>
    .ofTargets { rsession.session.request.target with target := .interrupt }
      { Target.new p identifier with target := .noReply }

/-- The workflow that `TemporaryController::perform` makes of the text of a request, and adds. -/
def TemporaryController.provided? (host : Host ω) (uuid : UUID) (req : Request) : Option (ProvidedWorkflow ω) :=
  if req.workflowJson.isEmpty then none
  else
    let workflow := makeWorkflow host uuid req.workflowJson
    if workflow.stateMachine.validate.isSome then none else some workflow

namespace Hosting

variable (x : Hosting ω)

/-- `TemporaryController::perform`, with a pointer to a new workflow. -/
def perform (host : Host ω) (req : Request) (draws : Draws ℕ) (env : ω) : Hosting ω :=
  let pointer := x.objects.length
  let performed := TemporaryController.perform host { draws with workflow := pointer } x.controller req
  let made := (TemporaryController.provided? host draws.uuid req).toList
  { controller := performed.controller
    objects := x.objects ++ made.map fun workflow =>
      ⟨workflow.name, TemporaryController.retarget req workflow.name,
        Workflow.opened workflow.stateMachine workflow.initialised env⟩
    posted := x.posted ++ performed.dispatches.filterMap Dispatch.posted?
    log := x.log ++ made.map fun workflow => .added pointer workflow.name }

/-- A workflow does something. The controller is told of the requests it finishes. -/
def work (pointer : ℕ) (label : Option Arrival) (env : ω) : Option (Hosting ω) := do
  let object ← x.objects[pointer]?
  let before := { object.working with env := env }
  let working ← (Workflow.system ω).step before label
  let finished := working.finished.drop before.finished.length
  return { x with
    controller := finished.foldl (fun controller entry => controller.requestFinished entry.2) x.controller
    objects := x.objects.set pointer { object with working := working }
    log := x.log ++ finished.map fun entry => .died pointer entry.2.target.workflow }

def system (host : Host ω) : Reactive.System (Hosting ω) (Input ω) where
  next _ := none
  accept x
    | .perform req draws env => some (x.perform host req draws env)
    | .execute index flag env => do
      let (pointer, request) ← x.posted[index]?
      { x with posted := x.posted.eraseIdx index }.work pointer (some (.perform request flag)) env
    | .proceed pointer env => x.work pointer none env
    | .asyncFinished pointer id result env => x.work pointer (some (.asyncFinished id result)) env
    | .timedOut pointer id identifier flag env => do
      let object ← x.objects[pointer]?
      let request ← object.working.workflow.requestTimedOut host.platform identifier id
      x.work pointer (some (.perform request flag)) env

def opened (ω : Type) : Hosting ω := ⟨⟨true, ∅⟩, [], [], []⟩

end Hosting

/-! ### What a request changes -/

section Requests

variable {α : Type} {host : Host ω} {req : Request}

theorem Controller.perform_calls (c : Controller α) (req : Request) : (c.perform req).controller = c ∧
    ∀ call ∈ (c.perform req).dispatches.filterMap Dispatch.posted?,
      call.2 = req ∧ c.workflows.find? req.target.workflow = some call.1 := by
  cases hfind : c.workflows.find? req.target.workflow with
  | none =>
    rw [perform_of_absent hfind]
    exact ⟨rfl, fun _ h => absurd h List.not_mem_nil⟩
  | some workflow =>
    rw [perform_of_find? hfind]
    refine ⟨rfl, fun call hcall => ?_⟩
    rw [List.mem_singleton.mp hcall]
    exact ⟨rfl, rfl⟩

theorem TemporaryController.provided?_eq_some {workflow : ProvidedWorkflow ω} {uuid : UUID}
    (h : provided? host uuid req = some workflow) : req.workflowJson.isEmpty = false ∧
      makeWorkflow host uuid req.workflowJson = workflow ∧ workflow.stateMachine.validate = none := by
  unfold provided? at h
  dsimp only at h
  split_ifs at h with hjson hvalid
  cases h
  exact ⟨Bool.eq_false_of_not_eq_true hjson, rfl, Option.not_isSome_iff_eq_none.mp hvalid⟩

theorem TemporaryController.invalid_of_provided?_eq_none {uuid : UUID} (h : provided? host uuid req = none)
    (hjson : req.workflowJson.isEmpty = false) :
    ∃ report, (makeWorkflow host uuid req.workflowJson).stateMachine.validate = some report := by
  unfold provided? at h
  rw [hjson] at h
  cases hinvalid : (makeWorkflow host uuid req.workflowJson).stateMachine.validate with
  | none => simp [hinvalid] at h
  | some report => exact ⟨report, rfl⟩

/-- A request that adds no workflow is posted to one that is there, or not at all. -/
theorem TemporaryController.perform_calls (draws : Draws α) (c : Controller α)
    (h : provided? host draws.uuid req = none) : (perform host draws c req).controller = c ∧
    ∀ call ∈ (perform host draws c req).dispatches.filterMap Dispatch.posted?,
      c.workflows.find? call.2.target.workflow = some call.1 := by
  have hposted : ∀ r, (c.perform r).controller = c ∧
      ∀ call ∈ (c.perform r).dispatches.filterMap Dispatch.posted?,
        c.workflows.find? call.2.target.workflow = some call.1 := fun r => by
    obtain ⟨hsame, hcalls⟩ := c.perform_calls r
    refine ⟨hsame, fun call hcall => ?_⟩
    obtain ⟨hrequest, hfind⟩ := hcalls call hcall
    rw [hrequest]
    exact hfind
  cases hjson : req.workflowJson.isEmpty with
  | true =>
    by_cases hkind : req.target.target = .reply
    · rw [perform_of_reply hjson hkind]
      exact hposted req
    · rw [perform_of_empty hjson hkind]
      exact ⟨rfl, fun _ h => absurd h List.not_mem_nil⟩
  | false =>
    obtain ⟨report, hinvalid⟩ := invalid_of_provided?_eq_none h hjson
    rw [perform_of_invalid hjson rfl hinvalid]
    exact hposted _

end Requests

namespace Hosting

variable {x x' : Hosting ω} {host : Host ω} {req : Request} {draws : Draws ℕ}

theorem perform_of_none (x : Hosting ω) (env : ω) (h : TemporaryController.provided? host draws.uuid req = none) :
    ∃ calls, x.perform host req draws env = { x with posted := x.posted ++ calls } ∧
      ∀ call ∈ calls, x.controller.workflows.find? call.2.target.workflow = some call.1 := by
  obtain ⟨hsame, hcalls⟩ :=
    TemporaryController.perform_calls { draws with workflow := x.objects.length } x.controller h
  refine ⟨_, ?_, hcalls⟩
  simp only [perform, h, hsame, Option.toList_none, List.map_nil, List.append_nil]

theorem perform_of_some (x : Hosting ω) (env : ω) {workflow : ProvidedWorkflow ω}
    (h : TemporaryController.provided? host draws.uuid req = some workflow) :
    x.perform host req draws env =
      { controller :=
          { x.controller with workflows := x.controller.workflows.insert workflow.name x.objects.length }
        objects := x.objects ++ [⟨workflow.name, TemporaryController.retarget req workflow.name,
          Workflow.opened workflow.stateMachine workflow.initialised env⟩]
        posted := x.posted ++ [(x.objects.length, TemporaryController.retarget req workflow.name)]
        log := x.log ++ [.added x.objects.length workflow.name] } := by
  obtain ⟨hjson, hworkflow, hvalid⟩ := TemporaryController.provided?_eq_some h
  have hperform :
      TemporaryController.perform host { draws with workflow := x.objects.length } x.controller req = _ :=
    TemporaryController.perform_of_valid hjson hworkflow hvalid
  simp only [perform, hperform, h]
  rfl

/-! ### What is kept -/

/-- Each workflow is found where it was, under its name, and what had died before has. -/
def KeepsObjects (objects objects' : List (Hosted ω)) : Prop :=
  ∀ (p : ℕ) (object : Hosted ω), objects[p]? = some object →
    ∃ object', objects'[p]? = some object' ∧ object'.name = object.name ∧
      ∀ id, object.working.Died id → object'.working.Died id

theorem keepsObjects_append (objects made : List (Hosted ω)) : KeepsObjects objects (objects ++ made) := by
  intro p object hobject
  obtain ⟨hlt, -⟩ := List.getElem?_eq_some_iff.mp hobject
  exact ⟨object, (List.getElem?_append_left hlt).trans hobject, rfl, fun _ h => h⟩

theorem keepsObjects_set {objects : List (Hosted ω)} {pointer : ℕ} {object : Hosted ω} {working : Working ω}
    (hobject : objects[pointer]? = some object) (hdied : ∀ id, object.working.Died id → working.Died id) :
    KeepsObjects objects (objects.set pointer { object with working := working }) := by
  obtain ⟨hlt, -⟩ := List.getElem?_eq_some_iff.mp hobject
  intro p o ho
  rw [List.getElem?_set]
  by_cases hp : pointer = p
  · cases hp
    cases hobject.symm.trans ho
    rw [if_pos rfl, if_pos hlt]
    exact ⟨_, rfl, rfl, hdied⟩
  · rw [if_neg hp]
    exact ⟨o, ho, rfl, fun _ h => h⟩

/-- The workflows are those that were added and not dropped since; what is posted to a workflow, and what it
executes, is for a workflow of its name. -/
structure Kept (x : Hosting ω) : Prop where
  temporary : x.controller.temporary = true
  workflows : x.controller.workflows = Registry.replay (x.log.map Registration.entry)
  added : x.log.filterMap Registration.added? = List.range x.objects.length
  known : ∀ r ∈ x.log, ∃ object, x.objects[r.pointer]? = some object ∧ r.About object
  posted : ∀ call ∈ x.posted, ∃ object, x.objects[call.1]? = some object ∧ call.2.target.workflow = object.name
  retained : ∀ object ∈ x.objects, Retained object.working
  serves : ∀ object ∈ x.objects, object.working.Serves fun request => request.target.workflow = object.name

theorem kept_opened : Kept (opened ω) where
  temporary := rfl
  workflows := rfl
  added := rfl
  known := by simp [opened]
  posted := by simp [opened]
  retained := by simp [opened]
  serves := by simp [opened]

/-- What was registered stays true of the workflows. -/
theorem Kept.known_of_keeps (hx : Kept x) {objects : List (Hosted ω)} (h : KeepsObjects x.objects objects) :
    ∀ r ∈ x.log, ∃ object, objects[r.pointer]? = some object ∧ r.About object := by
  intro r hr
  obtain ⟨object, hobject, habout⟩ := hx.known r hr
  obtain ⟨object', hobject', hname, hdied⟩ := h r.pointer object hobject
  refine ⟨object', hobject', ?_⟩
  cases r with
  | added => exact hname.trans habout
  | died => exact ⟨hname.trans habout.1, habout.2.imp hdied⟩

theorem Kept.posted_of_keeps (hx : Kept x) {objects : List (Hosted ω)} (h : KeepsObjects x.objects objects) :
    ∀ call ∈ x.posted, ∃ object, objects[call.1]? = some object ∧ call.2.target.workflow = object.name := by
  intro call hcall
  obtain ⟨object, hobject, hname⟩ := hx.posted call hcall
  obtain ⟨object', hobject', hname', -⟩ := h call.1 object hobject
  exact ⟨object', hobject', hname.trans hname'.symm⟩

/-- A workflow is found under the name it got. -/
theorem Kept.exists_object (hx : Kept x) {name : String} {pointer : ℕ}
    (h : x.controller.workflows.find? name = some pointer) :
    ∃ object, x.objects[pointer]? = some object ∧ object.name = name := by
  rw [hx.workflows, Registry.find?_replay_eq_some_iff] at h
  obtain ⟨before, after, hlog, -⟩ := h
  have hmem : Registry.Entry.bind name pointer ∈ x.log.map Registration.entry := by
    rw [hlog]
    exact List.mem_append_right _ (.head _)
  obtain ⟨r, hr, hentry⟩ := List.mem_map.mp hmem
  obtain ⟨object, hobject, habout⟩ := hx.known r hr
  cases r with
  | died => cases hentry
  | added =>
    cases hentry
    exact ⟨object, hobject, habout⟩

theorem kept_perform (hx : Kept x) (host : Host ω) (req : Request) (draws : Draws ℕ) (env : ω) :
    Kept (x.perform host req draws env) := by
  cases hprovided : TemporaryController.provided? host draws.uuid req with
  | none =>
    obtain ⟨calls, hperform, hcalls⟩ := perform_of_none x env hprovided
    rw [hperform]
    refine { hx with posted := List.forall_mem_append.mpr ⟨hx.posted, fun call hcall => ?_⟩ }
    obtain ⟨object, hobject, hname⟩ := hx.exists_object (hcalls call hcall)
    exact ⟨object, hobject, hname.symm⟩
  | some workflow =>
    rw [perform_of_some x env hprovided]
    have hkeeps := keepsObjects_append x.objects [⟨workflow.name, TemporaryController.retarget req workflow.name,
      Workflow.opened workflow.stateMachine workflow.initialised env⟩]
    constructor
    · exact hx.temporary
    · rw [List.map_append, Registry.replay_append, ← hx.workflows]
      rfl
    · rw [List.filterMap_append, hx.added, List.length_append, List.length_singleton, List.range_succ]
      rfl
    · exact List.forall_mem_append.mpr ⟨hx.known_of_keeps hkeeps,
        List.forall_mem_singleton.mpr ⟨_, List.getElem?_concat_length, rfl⟩⟩
    · exact List.forall_mem_append.mpr ⟨hx.posted_of_keeps hkeeps,
        List.forall_mem_singleton.mpr ⟨_, List.getElem?_concat_length, rfl⟩⟩
    · exact List.forall_mem_append.mpr ⟨hx.retained,
        List.forall_mem_singleton.mpr (Workflow.reachable_retained .start)⟩
    · refine List.forall_mem_append.mpr ⟨hx.serves, List.forall_mem_singleton.mpr ⟨?_, ?_⟩⟩
      · intro _ _ h
        cases h
      · exact fun _ h => absurd h List.not_mem_nil

theorem foldl_requestFinished {c : Controller ℕ} (htemporary : c.temporary = true) (pointer : ℕ)
    (entries : List (UUID × Request)) :
    entries.foldl (fun controller entry => controller.requestFinished entry.2) c =
      { c with workflows := ((entries.map fun entry => Registration.died pointer entry.2.target.workflow).map
          Registration.entry).foldl Registry.Entry.apply c.workflows } := by
  induction entries generalizing c with
  | nil => rfl
  | cons entry entries ih =>
    have hdrop : c.requestFinished entry.2 = c.dropWorkflow entry.2.target.workflow := if_pos htemporary
    rw [List.foldl_cons, hdrop, ih (c := c.dropWorkflow entry.2.target.workflow) htemporary]
    rfl

/-- What `work` leaves, in terms of the workflow's own step. -/
theorem work_eq_some {pointer : ℕ} {label : Option Arrival} {env : ω} (h : x.work pointer label env = some x') :
    ∃ object working l, x.objects[pointer]? = some object ∧
      (Workflow.system ω).Trans { object.working with env := env } label working ∧
      working.finished = object.working.finished ++ l ∧
      x' = { x with
        controller := l.foldl (fun controller entry => controller.requestFinished entry.2) x.controller
        objects := x.objects.set pointer { object with working := working }
        log := x.log ++ l.map fun entry => .died pointer entry.2.target.workflow } := by
  unfold work at h
  obtain ⟨object, hobject, h⟩ := Option.bind_eq_some_iff.mp h
  obtain ⟨working, hstep, h⟩ := Option.bind_eq_some_iff.mp h
  have htrans := Reactive.System.step_eq_some_iff.mp hstep
  obtain ⟨l, hfinished⟩ := Workflow.exists_finished_of_trans htrans
  have hdrop : working.finished.drop object.working.finished.length = l := by
    rw [hfinished]
    exact List.drop_left
  refine ⟨object, working, l, hobject, htrans, hfinished, ?_⟩
  rw [← hdrop]
  exact (Option.some.inj h).symm

theorem Kept.working_of_trans (hx : Kept x) {pointer : ℕ} {object : Hosted ω} {label : Option Arrival} {env : ω}
    {working : Working ω} (hobject : x.objects[pointer]? = some object)
    (hlabel : ∀ request flag, label = some (.perform request flag) → request.target.workflow = object.name)
    (htrans : (Workflow.system ω).Trans { object.working with env := env } label working) :
    Retained working ∧ working.Serves fun request => request.target.workflow = object.name := by
  have hmem : object ∈ x.objects := List.mem_of_getElem? hobject
  obtain ⟨hopened, hlive, hwitnessed⟩ := hx.retained object hmem
  obtain ⟨hsessions, hfinished⟩ := hx.serves object hmem
  have hretained : Retained { object.working with env := env } := ⟨hopened, hlive, hwitnessed⟩
  exact ⟨Workflow.retained_of_moved hretained (Workflow.moved_of_trans htrans),
    Workflow.serves_of_trans hretained ⟨hsessions, hfinished⟩ htrans hlabel⟩

theorem kept_work (hx : Kept x) {pointer : ℕ} {label : Option Arrival} {env : ω}
    (hlabel : ∀ request flag, label = some (.perform request flag) →
      ∃ object, x.objects[pointer]? = some object ∧ request.target.workflow = object.name)
    (h : x.work pointer label env = some x') : Kept x' := by
  obtain ⟨object, working, l, hobject, htrans, hfinished, rfl⟩ := work_eq_some h
  obtain ⟨hlt, -⟩ := List.getElem?_eq_some_iff.mp hobject
  have hnames : ∀ request flag, label = some (.perform request flag) → request.target.workflow = object.name := by
    intro request flag hcall
    obtain ⟨object', hobject', hname⟩ := hlabel request flag hcall
    cases hobject.symm.trans hobject'
    exact hname
  obtain ⟨hretained, hserves⟩ := hx.working_of_trans hobject hnames htrans
  have hdied : ∀ id, object.working.Died id → working.Died id := by
    intro id hid
    obtain ⟨request, hmem⟩ := Working.died_iff.mp hid
    exact Working.died_iff.mpr ⟨request, hfinished ▸ List.mem_append_left l hmem⟩
  have hkeeps := keepsObjects_set hobject hdied
  constructor
  · rw [foldl_requestFinished hx.temporary pointer]
    exact hx.temporary
  · rw [foldl_requestFinished hx.temporary pointer, List.map_append, Registry.replay_append, ← hx.workflows]
  · have hnone : (l.map fun entry => Registration.died pointer entry.2.target.workflow).filterMap
        Registration.added? = [] := by
      rw [List.filterMap_map]
      exact List.filterMap_eq_nil_iff.mpr fun _ _ => rfl
    rw [List.filterMap_append, hx.added, hnone, List.append_nil, List.length_set]
  · refine List.forall_mem_append.mpr ⟨hx.known_of_keeps hkeeps, List.forall_mem_map.mpr fun entry hentry => ?_⟩
    have hnow : entry ∈ working.finished := hfinished ▸ List.mem_append_right _ hentry
    refine ⟨_, List.getElem?_set_self hlt, (hserves.finished entry hnow).symm, entry.1, ?_⟩
    exact Working.died_iff.mpr ⟨entry.2, hnow⟩
  · exact hx.posted_of_keeps hkeeps
  · intro o ho
    rcases List.mem_or_eq_of_mem_set ho with ho | rfl
    · exact hx.retained o ho
    · exact hretained
  · intro o ho
    rcases List.mem_or_eq_of_mem_set ho with ho | rfl
    · exact hx.serves o ho
    · exact hserves

theorem workflow_of_requestTimedOut {p : Platform} {identifier id : UUID} {c : Working ω} {request : Request}
    {name : String} (hserves : c.Serves fun request => request.target.workflow = name)
    (h : c.workflow.requestTimedOut p identifier id = some request) : request.target.workflow = name := by
  obtain ⟨rsession, hfind, rfl⟩ := Option.map_eq_some_iff.mp h
  exact hserves.sessions id rsession hfind

theorem kept_accept (hx : Kept x) {input : Input ω} (h : (system host).accept x input = some x') : Kept x' := by
  cases input with
  | perform req draws env =>
    cases h
    exact kept_perform hx host req draws env
  | execute index flag env =>
    obtain ⟨⟨pointer, request⟩, hcall, h⟩ := Option.bind_eq_some_iff.mp h
    have hrest : Kept { x with posted := x.posted.eraseIdx index } :=
      { hx with posted := fun call hcall => hx.posted call (List.mem_of_mem_eraseIdx hcall) }
    refine kept_work hrest (fun request' flag' hlabel => ?_) h
    cases hlabel
    exact hx.posted _ (List.mem_of_getElem? hcall)
  | proceed pointer env => exact kept_work hx (fun _ _ h => by cases h) h
  | asyncFinished pointer id result env => exact kept_work hx (fun _ _ h => by cases h) h
  | timedOut pointer id identifier flag env =>
    obtain ⟨object, hobject, h⟩ := Option.bind_eq_some_iff.mp h
    obtain ⟨request, hrequest, h⟩ := Option.bind_eq_some_iff.mp h
    refine kept_work hx (fun request' flag' hlabel => ?_) h
    cases hlabel
    exact ⟨object, hobject, workflow_of_requestTimedOut (hx.serves object (List.mem_of_getElem? hobject)) hrequest⟩

/-- **What is kept** is kept in every run. -/
theorem reachable_kept (hrun : (system host).Reachable (opened ω) x) : Kept x :=
  hrun.invariant_cases kept_opened (fun _ _ _ _ h => by cases h) fun _ _ _ hx _ h => kept_accept hx h

end Hosting

end LibWorkflow
