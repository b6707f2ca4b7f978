import LibWorkflow.Lib.Reactive
import Mathlib.Data.List.Infix
import Mathlib.Data.UInt

/-!
# The start of a server

`service/server.h`: a server waits until its controllers are started, then starts its actors, waits for
these, and starts its inputs. Two counters go down as the started callbacks come in, which its one thread
handles one after the other. The end of the first countdown is also to see to the case without actors, but it
looks at the second counter after every controller, so that without actors the second half comes before the
first (`startup_in_order_iff`). The functions and virtual members that a server is given do not add to what it
waits for.
-/

namespace LibWorkflow

/-- What a server does to the objects around it, which are given by their pointers. -/
inductive ServerEffect where
  | startClientManager
  | startController (ctr : ℕ)
  | registerController (ctr : ℕ)
  | defaultPostControllersActions
  | postControllersActions
  | controllersStarted
  | startActor (act : ℕ)
  | addClient (act : ℕ)
  | defaultPostClientsActions
  | postClientsActions
  | clientsStarted
  | startInput (input : ℕ)
  deriving DecidableEq

def ServerEffect.actor? : ServerEffect → Option ℕ
  | .startActor act => some act
  | _ => none

/-- `Server`. Of the two functions it may be given only whether they were. -/
structure Server where
  hasControllersStarted : Bool
  hasClientsStarted : Bool
  controllersExpected : UInt32
  clientsExpected : UInt32
  clientsDone : Bool
  controllersDone : Bool
  actorsToStart : List ℕ
  controllersToAdd : List ℕ
  inputsToStart : List ℕ

namespace Server

/-- `Server::Server`. -/
def new : Server := ⟨false, false, 0, 0, false, false, [], [], []⟩

def addController (s : Server) (ctr : ℕ) : Server :=
  { s with
    controllersExpected := s.controllersExpected + 1
    controllersToAdd := s.controllersToAdd ++ [ctr] }

def addActor (s : Server) (act : ℕ) : Server :=
  { s with
    clientsExpected := s.clientsExpected + 1
    actorsToStart := s.actorsToStart ++ [act] }

def addInput (s : Server) (input : ℕ) : Server := { s with inputsToStart := s.inputsToStart ++ [input] }

/-- `setControllersStartedFunction`, of a function or of none. -/
def setControllersStartedFunction (s : Server) (given : Bool) : Server := { s with hasControllersStarted := given }

def setClientsStartedFunction (s : Server) (given : Bool) : Server := { s with hasClientsStarted := given }

/-- What `startServer` does to the server, which makes the default and the temporary controller. -/
def startServer (s : Server) (default temporary : ℕ) : Server :=
  (s.addController default).addController temporary

/-- `controllersManagerStarted`. -/
def controllersManagerStarted (s : Server) : List ServerEffect :=
  .startClientManager :: s.controllersToAdd.flatMap fun ctr => [.startController ctr, .registerController ctr]

/-- What `controllerStarted` does where it does not return at once. -/
def controllersBody (s : Server) : List ServerEffect :=
  [.defaultPostControllersActions, .postControllersActions] ++
    (if s.hasControllersStarted then [.controllersStarted] else []) ++
    s.actorsToStart.flatMap fun act => [.startActor act, .addClient act]

def controllerStarted (s : Server) : Server × List ServerEffect :=
  if s.controllersDone then (s, []) else ({ s with controllersDone := true }, s.controllersBody)

/-- What `clientsStarted` does where it does not return at once. -/
def clientsBody (s : Server) : List ServerEffect :=
  [.defaultPostClientsActions, .postClientsActions] ++
    (if s.hasClientsStarted then [.clientsStarted] else []) ++ s.inputsToStart.map .startInput

def clientsStarted (s : Server) : Server × List ServerEffect :=
  if s.clientsDone then (s, []) else ({ s with clientsDone := true }, s.clientsBody)

/-- `decreaseControllersCounter`. -/
def decreaseControllersCounter (s : Server) : Server × List ServerEffect :=
  if 0 < s.controllersExpected then
    let s := { s with controllersExpected := s.controllersExpected - 1 }
    let controllers := if s.controllersExpected = 0 then s.controllerStarted else (s, [])
    let s := controllers.1
    -- asked after every controller, not only after the last
    let clients := if s.clientsExpected = 0 && !s.clientsDone then s.clientsStarted else (s, [])
    (clients.1, controllers.2 ++ clients.2)
  else (s, [])

/-- `decreaseClientsCounter`. -/
def decreaseClientsCounter (s : Server) : Server × List ServerEffect :=
  if 0 < s.clientsExpected then
    let s := { s with clientsExpected := s.clientsExpected - 1 }
    if s.clientsExpected = 0 && s.controllersDone && !s.clientsDone then s.clientsStarted else (s, [])
  else (s, [])

/-- The servers before `startServer`. -/
inductive Prepared : Server → Prop
  | new : Prepared new
  | addController {s : Server} (h : Prepared s) (ctr : ℕ) : Prepared (s.addController ctr)
  | addActor {s : Server} (h : Prepared s) (act : ℕ) : Prepared (s.addActor act)
  | addInput {s : Server} (h : Prepared s) (input : ℕ) : Prepared (s.addInput input)
  | setControllersStartedFunction {s : Server} (h : Prepared s) (given : Bool) :
      Prepared (s.setControllersStartedFunction given)
  | setClientsStartedFunction {s : Server} (h : Prepared s) (given : Bool) :
      Prepared (s.setClientsStartedFunction given)

/-! ### The counters and the bodies -/

/-- Before `startServer` the counters count what was added, and nothing is done. -/
theorem Prepared.counts {s : Server} (h : Prepared s) :
    s.controllersExpected.toNat = s.controllersToAdd.length % 2 ^ 32 ∧
      s.clientsExpected.toNat = s.actorsToStart.length % 2 ^ 32 ∧
      s.controllersDone = false ∧ s.clientsDone = false := by
  induction h with
  | new => exact ⟨rfl, rfl, rfl, rfl⟩
  | addController _ ctr ih =>
    refine ⟨?_, ih.2⟩
    simp only [Server.addController, UInt32.toNat_add, UInt32.toNat_one, ih.1, List.length_append,
      List.length_singleton]
    omega
  | addActor _ act ih =>
    refine ⟨ih.1, ?_, ih.2.2⟩
    simp only [Server.addActor, UInt32.toNat_add, UInt32.toNat_one, ih.2.1, List.length_append, List.length_singleton]
    omega
  | addInput _ _ ih | setControllersStartedFunction _ _ ih | setClientsStartedFunction _ _ ih => exact ih

theorem Prepared.startServer {s : Server} (h : Prepared s) (default temporary : ℕ) :
    Prepared (s.startServer default temporary) := .addController (.addController h default) temporary

theorem count_controllersManagerStarted (s : Server) :
    s.controllersManagerStarted.count .defaultPostControllersActions = 0 ∧
      s.controllersManagerStarted.count .defaultPostClientsActions = 0 := by
  constructor <;> simp [controllersManagerStarted, List.count_eq_zero]

theorem count_controllersBody (s : Server) : s.controllersBody.count .defaultPostControllersActions = 1 ∧
    s.controllersBody.count .defaultPostClientsActions = 0 := by
  constructor
  · have hrest : ServerEffect.defaultPostControllersActions ∉ s.controllersBody.tail := by
      simp [controllersBody]
    have hbody : s.controllersBody = .defaultPostControllersActions :: s.controllersBody.tail := rfl
    rw [hbody, List.count_cons_self, List.count_eq_zero.mpr hrest]
  · rw [List.count_eq_zero]
    simp [controllersBody]

theorem clientsBody_eq (s : Server) : ∃ rest, s.clientsBody = .defaultPostClientsActions :: rest ∧
    .defaultPostClientsActions ∉ rest ∧ .defaultPostControllersActions ∉ rest := by
  refine ⟨s.clientsBody.tail, rfl, ?_, ?_⟩ <;> simp [clientsBody]

theorem count_clientsBody (s : Server) : s.clientsBody.count .defaultPostControllersActions = 0 ∧
    s.clientsBody.count .defaultPostClientsActions = 1 := by
  obtain ⟨rest, hbody, hclients, hcontrollers⟩ := s.clientsBody_eq
  constructor
  · simp [hbody, List.count_eq_zero.mpr hcontrollers]
  · simp [hbody, List.count_eq_zero.mpr hclients]

theorem toNat_pred {n : UInt32} (h : 0 < n) : (n - 1).toNat = n.toNat - 1 := by
  refine UInt32.toNat_sub_of_le n 1 ?_
  rw [UInt32.le_iff_toNat_le]
  rw [UInt32.lt_iff_toNat_lt] at h
  exact h

theorem clientsStarted_if_keeps (s : Server) (called : Bool) :
    (if called then s.clientsStarted else (s, [])).1.controllersExpected = s.controllersExpected ∧
      (if called then s.clientsStarted else (s, [])).1.controllersDone = s.controllersDone ∧
      (if called then s.clientsStarted else (s, [])).2.count .defaultPostControllersActions = 0 := by
  unfold clientsStarted
  split_ifs
  · exact ⟨rfl, rfl, List.count_nil⟩
  · exact ⟨rfl, rfl, s.count_clientsBody.1⟩
  · exact ⟨rfl, rfl, List.count_nil⟩

/-- What the callback of a controller does to the first counter, and when the body of `controllerStarted` is
in it. -/
theorem decreaseControllersCounter_spec (s : Server) :
    s.decreaseControllersCounter.1.controllersExpected.toNat = s.controllersExpected.toNat - 1 ∧
      (s.controllersExpected.toNat = 1 → s.controllersDone = false →
        s.decreaseControllersCounter.1.controllersDone = true ∧
          s.decreaseControllersCounter.2.count .defaultPostControllersActions = 1) ∧
      (s.controllersExpected.toNat ≠ 1 → s.decreaseControllersCounter.1.controllersDone = s.controllersDone ∧
        s.decreaseControllersCounter.2.count .defaultPostControllersActions = 0) := by
  unfold decreaseControllersCounter
  by_cases hpos : 0 < s.controllersExpected
  · have hpred := toNat_pred hpos
    have hzero : s.controllersExpected - 1 = 0 ↔ s.controllersExpected.toNat = 1 := by
      rw [UInt32.lt_iff_toNat_lt, UInt32.toNat_zero] at hpos
      rw [← UInt32.toNat_inj, hpred, UInt32.toNat_zero]
      omega
    simp only [if_pos hpos]
    by_cases hlast : s.controllersExpected - 1 = 0
    · rw [if_pos hlast]
      obtain ⟨hexpected, hdone, hcount⟩ := clientsStarted_if_keeps
        (controllerStarted { s with controllersExpected := s.controllersExpected - 1 }).1 _
      refine ⟨?_, fun _ hfresh => ⟨?_, ?_⟩, fun hne => absurd (hzero.mp hlast) hne⟩
      · rw [hexpected, ← hpred]
        unfold controllerStarted
        split_ifs <;> rfl
      · rw [hdone]
        simp [controllerStarted, hfresh]
      · rw [List.count_append, hcount]
        simp only [controllerStarted, hfresh, Bool.false_eq_true, if_false]
        exact (count_controllersBody _).1
    · rw [if_neg hlast]
      obtain ⟨hexpected, hdone, hcount⟩ := clientsStarted_if_keeps
        { s with controllersExpected := s.controllersExpected - 1 } _
      refine ⟨?_, fun hone => absurd (hzero.mpr hone) hlast, fun _ => ⟨hdone, ?_⟩⟩
      · rw [hexpected, hpred]
      · rw [List.count_append, hcount]
        rfl
  · have hzero : s.controllersExpected.toNat = 0 := by
      rw [UInt32.lt_iff_toNat_lt, UInt32.toNat_zero] at hpos
      omega
    rw [if_neg hpos]
    refine ⟨?_, fun hone => ?_, fun _ => ⟨rfl, List.count_nil⟩⟩
    · rw [hzero]
    · omega

end Server

/-- A server that is starting: the controllers and the actors that were started and whose callback was not
handled yet, and what the server did so far, the oldest first. -/
structure Startup where
  server : Server
  managerStarting : Bool
  controllersStarting : List ℕ
  actorsStarting : List ℕ
  log : List ServerEffect

namespace Startup

/-- The next started callback to be handled. -/
inductive Callback where
  | controllersManager
  | controller (index : ℕ)
  | actor (index : ℕ)

/-- After `startServer`. -/
def opened (s : Server) : Startup := ⟨s, true, [], [], []⟩

def handled (w : Startup) (result : Server × List ServerEffect) : Startup :=
  { w with
    server := result.1
    actorsStarting := w.actorsStarting ++ result.2.filterMap ServerEffect.actor?
    log := w.log ++ result.2 }

/-- The callbacks come in any order, each once, those of controllers and actors after they were started. The
controllers that were added are distinct, and so are the actors: an object that was added twice is started twice
and has one callback. -/
def system : Reactive.System Startup Callback where
  next _ := none
  accept w
    | .controllersManager =>
      if w.managerStarting then
        some { w with
          managerStarting := false
          controllersStarting := w.server.controllersToAdd
          log := w.log ++ w.server.controllersManagerStarted }
      else none
    | .controller index =>
      if index < w.controllersStarting.length then
        some { w.handled w.server.decreaseControllersCounter with
          controllersStarting := w.controllersStarting.eraseIdx index }
      else none
    | .actor index =>
      if index < w.actorsStarting.length then
        some ({ w with actorsStarting := w.actorsStarting.eraseIdx index }.handled
          w.server.decreaseClientsCounter)
      else none

def ControllersHandled (w : Startup) : Prop := w.managerStarting = false ∧ w.controllersStarting = []

instance (w : Startup) : Decidable w.ControllersHandled := inferInstanceAs (Decidable (_ ∧ _))

/-- The bodies of `controllerStarted` and `clientsStarted` ran as often as they should and in order. -/
structure InOrder (w : Startup) : Prop where
  once : w.log.count .defaultPostClientsActions ≤ 1
  after : ∀ pre post, w.log = pre ++ .defaultPostClientsActions :: post →
    w.server.controllersBody <:+: pre ∧ w.server.controllersExpected = 0 ∧ w.server.clientsExpected = 0
  controllers : w.log.count .defaultPostControllersActions = if w.ControllersHandled then 1 else 0

/-! ### In order -/

/-- What a server waits for when it is started with as many controllers as it counts, and with a number of
actors it does not take for none. -/
structure Counted (s : Server) : Prop where
  controllers : s.controllersExpected.toNat = s.controllersToAdd.length
  some : s.controllersToAdd ≠ []
  clients : s.clientsExpected ≠ 0
  controllersDone : s.controllersDone = false
  clientsDone : s.clientsDone = false

def counting (s : Server) (expected : UInt32) (controllers : List ℕ) : Startup :=
  ⟨{ s with controllersExpected := expected }, false, controllers, [], s.controllersManagerStarted⟩

def waiting (s : Server) (expected : UInt32) (actors : List ℕ) : Startup :=
  ⟨{ s with controllersExpected := 0, controllersDone := true, clientsExpected := expected }, false, [], actors,
    s.controllersManagerStarted ++ s.controllersBody⟩

/-- The inputs were started. -/
def serving (s : Server) (actors : List ℕ) : Startup :=
  ⟨{ s with controllersExpected := 0, controllersDone := true, clientsExpected := 0, clientsDone := true }, false,
    [], actors, s.controllersManagerStarted ++ s.controllersBody ++ s.clientsBody⟩

/-- How far a server is. -/
inductive Phase (s : Server) : Startup → Prop
  | opened : Phase s (opened s)
  | counting {expected : UInt32} {controllers : List ℕ} (hlength : expected.toNat = controllers.length)
      (hsome : controllers ≠ []) : Phase s (counting s expected controllers)
  | waiting {expected : UInt32} (actors : List ℕ) (hsome : expected ≠ 0) : Phase s (waiting s expected actors)
  | serving (actors : List ℕ) : Phase s (serving s actors)

variable {s : Server} {w w' : Startup}

theorem phase_counting_controller (hs : Counted s) {expected : UInt32} {controllers : List ℕ} {index : ℕ}
    (hlength : expected.toNat = controllers.length) (hindex : index < controllers.length) :
    Phase s { (counting s expected controllers).handled
      (Server.decreaseControllersCounter { s with controllersExpected := expected }) with
      controllersStarting := controllers.eraseIdx index } := by
  have hpos : 0 < expected := by
    rw [UInt32.lt_iff_toNat_lt, hlength]
    exact Nat.lt_of_le_of_lt (Nat.zero_le _) hindex
  have hpred := Server.toNat_pred hpos
  have hrest := List.length_eraseIdx_of_lt hindex
  unfold Server.decreaseControllersCounter
  simp only [if_pos hpos]
  by_cases hlast : expected - 1 = 0
  · have hnil : controllers.eraseIdx index = [] := by
      rw [← List.length_eq_zero_iff, hrest, ← hlength, ← hpred, hlast]
      rfl
    rw [hnil]
    have hphase := Phase.waiting (s := s) (s.controllersBody.filterMap ServerEffect.actor?) hs.clients
    simpa [hlast, Server.controllerStarted, hs.controllersDone, hs.clients, handled, counting, waiting,
      Server.controllersBody] using hphase
  · have hsome : controllers.eraseIdx index ≠ [] := by
      intro hnil
      rw [hnil, List.length_nil] at hrest
      refine hlast (UInt32.toNat_inj.mp ?_)
      rw [hpred, hlength, ← hrest]
      rfl
    have hphase : Phase s (counting s (expected - 1) (controllers.eraseIdx index)) :=
      .counting (hpred.trans (by omega)) hsome
    simpa [hlast, hs.clients, handled, counting] using hphase

theorem phase_waiting_actor {expected : UInt32} {actors : List ℕ} (index : ℕ) (hclients : s.clientsDone = false)
    (hsome : expected ≠ 0) :
    Phase s ({ waiting s expected actors with actorsStarting := actors.eraseIdx index }.handled
      (waiting s expected actors).server.decreaseClientsCounter) := by
  have hpos : 0 < expected := UInt32.pos_iff_ne_zero.mpr hsome
  unfold Server.decreaseClientsCounter
  by_cases hlast : expected - 1 = 0
  · have hphase := Phase.serving (s := s)
      (actors.eraseIdx index ++ s.clientsBody.filterMap ServerEffect.actor?)
    simpa [waiting, hpos, hlast, hclients, Server.clientsStarted, Server.clientsBody, handled, serving] using hphase
  · have hphase := Phase.waiting (s := s) (actors.eraseIdx index) hlast
    simpa [waiting, hpos, hlast, handled] using hphase

theorem phase_serving_actor {actors : List ℕ} (index : ℕ) :
    Phase s ({ serving s actors with actorsStarting := actors.eraseIdx index }.handled
      (serving s actors).server.decreaseClientsCounter) := by
  have hphase := Phase.serving (s := s) (actors.eraseIdx index)
  unfold Server.decreaseClientsCounter
  simpa [serving, handled] using hphase

/-- Every callback takes a server to its phase or to the next. -/
theorem Phase.accept (hs : Counted s) (h : Phase s w) {callback : Callback}
    (haccept : system.accept w callback = some w') : Phase s w' := by
  cases callback with
  | controllersManager =>
    cases h with
    | opened =>
      cases haccept
      exact .counting hs.controllers hs.some
    | counting _ _ => cases haccept
    | waiting _ _ => cases haccept
    | serving _ => cases haccept
  | controller index =>
    simp only [system, Option.ite_none_right_eq_some] at haccept
    obtain ⟨hindex, heq⟩ := haccept
    cases h with
    | counting hlength _ =>
      cases heq
      exact phase_counting_controller hs hlength hindex
    | opened => exact absurd hindex (Nat.not_lt_zero _)
    | waiting _ _ => exact absurd hindex (Nat.not_lt_zero _)
    | serving _ => exact absurd hindex (Nat.not_lt_zero _)
  | actor index =>
    simp only [system, Option.ite_none_right_eq_some] at haccept
    obtain ⟨hindex, heq⟩ := haccept
    cases h with
    | opened => exact absurd hindex (Nat.not_lt_zero _)
    | counting _ _ => exact absurd hindex (Nat.not_lt_zero _)
    | waiting actors hsome =>
      cases heq
      exact phase_waiting_actor index hs.clientsDone hsome
    | serving actors =>
      cases heq
      exact phase_serving_actor index

theorem reachable_phase (hs : Counted s) (h : system.Reachable (opened s) w) : Phase s w := by
  refine h.invariant_cases .opened (fun c c' _ _ hnext => ?_) (fun c i c' hphase _ haccept => ?_)
  · cases hnext
  · exact hphase.accept hs haccept

/-- What was done is in order in every phase. -/
theorem Phase.inOrder (h : Phase s w) : InOrder w := by
  have hmanager := s.count_controllersManagerStarted
  have hbody := s.count_controllersBody
  have hclients := s.count_clientsBody
  cases h with
  | opened =>
    refine ⟨by simp [Startup.opened], fun pre post heq => ?_, by simp [Startup.opened, ControllersHandled]⟩
    simp [Startup.opened] at heq
  | counting hlength hsome =>
    refine ⟨?_, fun pre post heq => ?_, ?_⟩
    · simp only [Startup.counting, hmanager.2, Nat.zero_le]
    · have hcount := congrArg (List.count ServerEffect.defaultPostClientsActions) heq
      simp [Startup.counting, hmanager.2] at hcount
    · simp [Startup.counting, hmanager.1, ControllersHandled, hsome]
  | waiting actors hsome =>
    refine ⟨?_, fun pre post heq => ?_, ?_⟩
    · simp [Startup.waiting, hmanager.2, hbody.2]
    · have hcount := congrArg (List.count ServerEffect.defaultPostClientsActions) heq
      simp [Startup.waiting, hmanager.2, hbody.2] at hcount
    · simp [Startup.waiting, hmanager.1, hbody.1, ControllersHandled]
  | serving actors =>
    refine ⟨?_, fun pre post heq => ⟨?_, rfl, rfl⟩, ?_⟩
    · simp [Startup.serving, hmanager.2, hbody.2, hclients.2]
    · obtain ⟨rest, hrest, hnot, -⟩ := s.clientsBody_eq
      have hpre : .defaultPostClientsActions ∉ s.controllersManagerStarted ++ s.controllersBody := by
        rw [← List.count_eq_zero, List.count_append, hmanager.2, hbody.2]
      simp only [Startup.serving, hrest] at heq
      have hsplit := (List.append_cons_inj_of_notMem hpre hnot).mp heq
      rw [← hsplit.1]
      exact (List.suffix_append _ _).isInfix
    · simp [Startup.serving, hmanager.1, hbody.1, hclients.1, ControllersHandled]

/-! ### Out of order -/

theorem reachable_counting (s : Server) :
    system.Reachable (opened s) (counting s s.controllersExpected s.controllersToAdd) := by
  refine Reactive.System.Run.step .start trivial (.input (i := .controllersManager) ?_)
  rfl

/-- How far the first countdown is after some callbacks of controllers. -/
structure Countdown (s : Server) (done : ℕ) (w : Startup) : Prop where
  manager : w.managerStarting = false
  length : w.controllersStarting.length = s.controllersToAdd.length - done
  expected : w.server.controllersExpected.toNat = s.controllersExpected.toNat - done
  ended : (w.server.controllersDone = false ∧ w.log.count .defaultPostControllersActions = 0 ∧
      (done < s.controllersExpected.toNat ∨ s.controllersExpected.toNat = 0)) ∨
    (w.log.count .defaultPostControllersActions = 1 ∧ 0 < s.controllersExpected.toNat ∧
      s.controllersExpected.toNat ≤ done)

theorem exists_countdown (hfresh : s.controllersDone = false) {done : ℕ}
    (hdone : done ≤ s.controllersToAdd.length) :
    ∃ w, system.Reachable (opened s) w ∧ Countdown s done w := by
  induction done with
  | zero =>
    refine ⟨_, reachable_counting s, rfl, rfl, rfl, Or.inl ⟨hfresh, s.count_controllersManagerStarted.1, ?_⟩⟩
    omega
  | succ done ih =>
    obtain ⟨w, hreach, hw⟩ := ih (by omega)
    have hindex : 0 < w.controllersStarting.length := by
      rw [hw.length]
      omega
    obtain ⟨hexpected, hlast, hmore⟩ := w.server.decreaseControllersCounter_spec
    refine ⟨{ w.handled w.server.decreaseControllersCounter with
      controllersStarting := w.controllersStarting.eraseIdx 0 }, ?_, hw.manager, ?_, ?_, ?_⟩
    · refine hreach.step trivial (.input (i := .controller 0) ?_)
      exact if_pos hindex
    · show (w.controllersStarting.eraseIdx 0).length = _
      rw [List.length_eraseIdx_of_lt hindex, hw.length]
      omega
    · show w.server.decreaseControllersCounter.1.controllersExpected.toNat = _
      rw [hexpected, hw.expected]
      omega
    · show (w.server.decreaseControllersCounter.1.controllersDone = false ∧
          (w.log ++ w.server.decreaseControllersCounter.2).count .defaultPostControllersActions = 0 ∧ _) ∨
        ((w.log ++ w.server.decreaseControllersCounter.2).count .defaultPostControllersActions = 1 ∧ _)
      rw [List.count_append]
      have hcounter := hw.expected
      rcases hw.ended with ⟨hopen, hcount, hrest⟩ | ⟨hcount, hsome, hended⟩
      -- the body runs where the counter is 1, which need not be at the last controller
      · by_cases hone : w.server.controllersExpected.toNat = 1
        · right
          rw [hcount, (hlast hone hopen).2]
          omega
        · left
          rw [(hmore hone).1, hcount, (hmore hone).2]
          refine ⟨hopen, rfl, ?_⟩
          omega
      · right
        rw [hcount, (hmore (by omega)).2]
        omega

/-- With more controllers than the counter can count, the body of `controllerStarted` runs before the last
one came, or not at all. -/
theorem exists_not_inOrder_of_overflow (hfresh : s.controllersDone = false)
    (hcount : s.controllersExpected.toNat = s.controllersToAdd.length % 2 ^ 32)
    (hmany : 2 ^ 32 ≤ s.controllersToAdd.length) : ∃ w, system.Reachable (opened s) w ∧ ¬InOrder w := by
  by_cases hzero : s.controllersExpected.toNat = 0
  · obtain ⟨w, hreach, hw⟩ := exists_countdown hfresh (le_refl s.controllersToAdd.length)
    refine ⟨w, hreach, fun horder => ?_⟩
    have hhandled : w.ControllersHandled := ⟨hw.manager, by
      rw [← List.length_eq_zero_iff, hw.length, Nat.sub_self]⟩
    have hone := horder.controllers
    rw [if_pos hhandled] at hone
    rcases hw.ended with ⟨-, hnone, -⟩ | ⟨-, hsome, -⟩
    · omega
    · omega
  · have hless : s.controllersExpected.toNat < s.controllersToAdd.length := by omega
    obtain ⟨w, hreach, hw⟩ := exists_countdown hfresh hless.le
    refine ⟨w, hreach, fun horder => ?_⟩
    have hleft : ¬w.ControllersHandled := by
      rintro ⟨-, hnil⟩
      have hlength := hw.length
      rw [hnil, List.length_nil] at hlength
      omega
    have hnone := horder.controllers
    rw [if_neg hleft] at hnone
    rcases hw.ended with ⟨-, -, hmore⟩ | ⟨hone, -, -⟩
    · omega
    · omega

/-- Without actors, the body of `clientsStarted` runs at the callback of the first controller. -/
theorem exists_not_inOrder_of_no_clients (hclients : s.clientsExpected = 0) (hdone : s.clientsDone = false)
    (hmore : 2 ≤ s.controllersExpected.toNat) (hsome : s.controllersToAdd ≠ []) :
    ∃ w, system.Reachable (opened s) w ∧ ¬InOrder w := by
  have hpos : 0 < s.controllersExpected := by
    rw [UInt32.lt_iff_toNat_lt]
    exact Nat.lt_of_lt_of_le (by decide) hmore
  have hrest : s.controllersExpected - 1 ≠ 0 := by
    intro hzero
    have hpred := Server.toNat_pred hpos
    rw [hzero, UInt32.toNat_zero] at hpred
    omega
  have hindex : 0 < s.controllersToAdd.length := List.length_pos_iff.mpr hsome
  have hfirst : s.decreaseControllersCounter.2 = s.clientsBody := by
    simp [Server.decreaseControllersCounter, hpos, hrest, hclients, hdone, Server.clientsStarted,
      Server.clientsBody]
  have haccept : system.accept (counting s s.controllersExpected s.controllersToAdd) (.controller 0) =
      some { (counting s s.controllersExpected s.controllersToAdd).handled s.decreaseControllersCounter with
        controllersStarting := s.controllersToAdd.eraseIdx 0 } := if_pos hindex
  refine ⟨_, (reachable_counting s).step trivial (.input haccept), fun horder => ?_⟩
  obtain ⟨rest, hbody, -⟩ := s.clientsBody_eq
  have hinfix := (horder.after s.controllersManagerStarted rest (by
    show s.controllersManagerStarted ++ s.decreaseControllersCounter.2 = _
    rw [hfirst, hbody])).1
  have hmem : ServerEffect.defaultPostControllersActions ∈ s.controllersManagerStarted :=
    hinfix.subset (by
      show ServerEffect.defaultPostControllersActions ∈ Server.controllersBody _
      exact List.mem_cons_self)
  exact List.count_eq_zero.mp s.count_controllersManagerStarted.1 hmem

/-- In every order of the callbacks the bodies of `controllerStarted` and `clientsStarted` run once and in
order, exactly where there are fewer controllers than the first counter can count, and the number of actors
is not zero to the second. -/
theorem startup_in_order_iff {server : Server} (h : server.Prepared) (default temporary : ℕ) :
    (∀ w, system.Reachable (opened (server.startServer default temporary)) w → InOrder w) ↔
      server.controllersToAdd.length + 2 < 2 ^ 32 ∧ server.actorsToStart.length % 2 ^ 32 ≠ 0 := by
  obtain ⟨hcontrollers, hclients, hcontrollersDone, hclientsDone⟩ := (h.startServer default temporary).counts
  have hlength : (server.startServer default temporary).controllersToAdd.length =
      server.controllersToAdd.length + 2 := by
    simp [Server.startServer, Server.addController]
  have hsome : (server.startServer default temporary).controllersToAdd ≠ [] := by
    simp [Server.startServer, Server.addController]
  have hactors : (server.startServer default temporary).actorsToStart = server.actorsToStart := rfl
  rw [hactors] at hclients
  constructor
  · intro hall
    have hfew : server.controllersToAdd.length + 2 < 2 ^ 32 := by
      by_contra hmany
      obtain ⟨w, hreach, hnot⟩ := exists_not_inOrder_of_overflow hcontrollersDone hcontrollers (by omega)
      exact hnot (hall w hreach)
    refine ⟨hfew, fun hnone => ?_⟩
    have hzero : (server.startServer default temporary).clientsExpected = 0 :=
      UInt32.toNat_inj.mp (hclients.trans hnone)
    obtain ⟨w, hreach, hnot⟩ := exists_not_inOrder_of_no_clients hzero hclientsDone (by omega) hsome
    exact hnot (hall w hreach)
  · rintro ⟨hfew, hactors⟩ w hreach
    refine (reachable_phase ⟨by omega, hsome, ?_, hcontrollersDone, hclientsDone⟩ hreach).inOrder
    intro hzero
    rw [hzero] at hclients
    exact hactors hclients.symm

def modest : Server := (Server.new.addController 7).addActor 8

theorem modest_starts_in_order : (∀ w, system.Reachable (opened (modest.startServer 0 1)) w → InOrder w) ↔
    modest.controllersToAdd.length + 2 < 2 ^ 32 ∧ modest.actorsToStart.length % 2 ^ 32 ≠ 0 :=
  startup_in_order_iff (.addActor (.addController .new 7) 8) 0 1

/-- A server that is given nothing, once the callbacks of the manager and of the first controller were
handled. -/
def deserted : Startup :=
  system.play 0 [.controllersManager, .controller 0] (opened (Server.new.startServer 0 1))

/-- The inputs were started, and one controller is still to come. -/
theorem clients_before_controllers : system.Reachable (opened (Server.new.startServer 0 1)) deserted ∧
    deserted.log.count .defaultPostClientsActions = 1 ∧
    deserted.log.count .defaultPostControllersActions = 0 ∧ deserted.server.controllersExpected = 1 := by
  refine ⟨.play (fun _ => trivial) (fun _ _ _ => trivial) .start, ?_, ?_, ?_⟩ <;> decide +kernel

end Startup

end LibWorkflow
