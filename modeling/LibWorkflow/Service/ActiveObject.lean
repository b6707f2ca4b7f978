import LibWorkflow.Lib.EventLoop
import LibWorkflow.Lib.Reactive

/-!
# Active objects

`tools/active_object.h`: an object with a thread of its own, which makes an event loop, serves it with a pool of
further threads until it is stopped, and says when it starts and when it stops. Every thread may start it, stop
it and post to it at any time. It lives once: it is not started again, and of what waits when it is stopped
nothing is ever run (`lives_once`). The pointer to the loop is null until the thread has made it.
-/

namespace LibWorkflow

open EventLoop

/-- How far the first thread is: there is none, `run` is still to begin, it makes the service and calls `started`,
it is in `service->run()`, or it has returned from there and calls `stopped`. -/
inductive RunStage where
  | absent | created | starting | serving | leaving | ended
  deriving DecidableEq

/-- What the loop of an active object runs. -/
inductive Handler (η : Type) where
  | startPool
  | given (handler : η)

def Handler.given? {η : Type} : Handler η → Option η
  | .startPool => none
  | .given handler => some handler

/-- What an active object does. -/
inductive Lived (η : Type) where
  | started
  | startFunction
  | handled (handler : Handler η)
  | stopFunction
  | stopped

/-- `ActiveObject`. Of the two functions it may be given only whether they were. `threads` is their number, of
which `pooled` are of the pool and in `io_service::run`; the log is what it did, the oldest first. -/
structure ActiveObject (η : Type) where
  hasStartFunction : Bool
  hasStopFunction : Bool
  threadPool : ℕ
  stage : RunStage
  threads : ℕ
  pooled : ℕ
  worker : Bool
  service : Option (Loop (Handler η))
  log : List (Lived η)

namespace ActiveObject

variable {η : Type}

/-- `ActiveObject::ActiveObject` with a delayed start, and the functions it is given. -/
def new (η : Type) (pool : ℕ) (hasStartFunction hasStopFunction : Bool) : ActiveObject η :=
  ⟨hasStartFunction, hasStopFunction, pool, .absent, 0, 0, false, none, []⟩

variable (x : ActiveObject η)

/-- `start`. -/
def start : ActiveObject η := if x.threads = 0 then { x with threads := 1, stage := .created } else x

/-- `stop`, which dereferences the service. -/
def stop : Option (ActiveObject η) :=
  x.service.map fun loop => { x with worker := false, service := some loop.stop }

/-- `getIOService()->post`, and `dispatch` of a thread that does not serve the loop. -/
def post (handler : η) : Option (ActiveObject η) :=
  x.service.map fun loop => { x with service := some (loop.post (.given handler)) }

def opening : List (Lived η) := .started :: if x.hasStartFunction then [.startFunction] else []

def closing : List (Lived η) := (if x.hasStopFunction then [.stopFunction] else []) ++ [.stopped]

/-- `run`, up to the return of the start function. -/
def run : Option (ActiveObject η) :=
  if x.stage = .created then
    some { x with stage := .starting, service := some (.new _), log := x.log ++ x.opening }
  else none

/-- `run`, from there into `service->run()`. -/
def serve : Option (ActiveObject η) :=
  match x.stage, x.service with
  | .starting, some loop =>
    some { x with stage := .serving, worker := true, service := some (loop.post .startPool) }
  | _, _ => none

/-- `startPool`. -/
def startPool : ActiveObject η :=
  { x with pooled := x.pooled + (x.threadPool - x.threads), threads := max x.threads x.threadPool }

/-- A thread in `io_service::run` runs a handler. -/
def handle (i : ℕ) : Option (Handler η × ActiveObject η) :=
  match x.service with
  | none => none
  | some loop =>
    if h : i < loop.waiting.length then
      if !loop.stopped && (x.stage = .serving || 0 < x.pooled) then
        let x := { x with service := some (loop.take i h), log := x.log ++ [.handled loop.waiting[i]] }
        match loop.waiting[i] with
        | .startPool => some (.startPool, x.startPool)
        | .given handler => some (.given handler, x)
      else none
    else none

/-- `io_service::run` returns: the loop was stopped, or there is nothing left to wait for. -/
def returns (loop : Loop (Handler η)) : Bool := loop.stopped || (!x.worker && loop.waiting.isEmpty)

/-- The first thread returns from `service->run()`. -/
def leave : Option (ActiveObject η) :=
  match x.stage, x.service with
  | .serving, some loop =>
    if x.returns loop then some { x with stage := .leaving, service := some loop.stop } else none
  | _, _ => none

/-- A thread of the pool does, and ends. -/
def leavePool : Option (ActiveObject η) :=
  match x.service with
  | some loop =>
    if 0 < x.pooled && x.returns loop then
      some { x with pooled := x.pooled - 1, service := some loop.stop }
    else none
  | none => none

/-- The last part of `run`. -/
def close : Option (ActiveObject η) :=
  match x.stage, x.service with
  | .leaving, some loop => some { x with stage := .ended, service := some loop.reset, log := x.log ++ x.closing }
  | _, _ => none

/-- What a thread does next: any thread, the first one, or one that serves the loop. -/
inductive Turn (η : Type) where
  | start
  | stop
  | post (handler : η)
  | run
  | serve
  | handle (i : ℕ)
  | leave
  | leavePool
  | close

/-- One turn, where it can be taken; `none` within is the end by a null pointer. -/
def turn : Turn η → Option (Option (ActiveObject η))
  | .start => some (some x.start)
  | .stop => some x.stop
  | .post handler => some (x.post handler)
  | .run => x.run.map some
  | .serve => x.serve.map some
  | .handle i => (x.handle i).map fun handled => some handled.2
  | .leave => x.leave.map some
  | .leavePool => x.leavePool.map some
  | .close => x.close.map some

def system (η : Type) : Reactive.System (Option (ActiveObject η)) (Turn η) where
  next _ := none
  accept x turn := x.bind (·.turn turn)

/-- `reset` must not be called while there are unfinished calls of `io_service::run`. -/
def Orderly (x : Option (ActiveObject η)) (label : Option (Turn η)) : Prop :=
  label = some .close → ∀ object ∈ x, object.pooled = 0

def loop : Loop (Handler η) := x.service.getD (.new _)

/-- What it did when it has run these handlers. -/
def lived (ran : List (Handler η)) : List (Lived η) :=
  x.opening ++ ran.map .handled ++ if x.stage = .ended then x.closing else []

/-! ### One turn -/

/-- What a turn does. -/
inductive Turned (x : ActiveObject η) : Turn η → ActiveObject η → Prop
  | start (h : x.threads = 0) : Turned x .start { x with threads := 1, stage := .created }
  | again (h : x.threads ≠ 0) : Turned x .start x
  | stop {loop : Loop (Handler η)} (h : x.service = some loop) :
      Turned x .stop { x with worker := false, service := some loop.stop }
  | post {loop : Loop (Handler η)} (h : x.service = some loop) (handler : η) :
      Turned x (.post handler) { x with service := some (loop.post (.given handler)) }
  | run (h : x.stage = .created) :
      Turned x .run { x with stage := .starting, service := some (.new _), log := x.log ++ x.opening }
  | serve {loop : Loop (Handler η)} (hstage : x.stage = .starting) (h : x.service = some loop) :
      Turned x .serve { x with stage := .serving, worker := true, service := some (loop.post .startPool) }
  | handle {loop : Loop (Handler η)} (h : x.service = some loop) {i : ℕ} (hi : i < loop.waiting.length)
      (hopen : loop.stopped = false) (hserved : x.stage = .serving ∨ 0 < x.pooled) {x' : ActiveObject η}
      (hx' : x' = { x with service := some (loop.take i hi), log := x.log ++ [.handled loop.waiting[i]] } ∨
        x' = startPool { x with service := some (loop.take i hi), log := x.log ++ [.handled loop.waiting[i]] }) :
      Turned x (.handle i) x'
  | leave {loop : Loop (Handler η)} (hstage : x.stage = .serving) (h : x.service = some loop) :
      Turned x .leave { x with stage := .leaving, service := some loop.stop }
  | leavePool {loop : Loop (Handler η)} (hpooled : 0 < x.pooled) (h : x.service = some loop) :
      Turned x .leavePool { x with pooled := x.pooled - 1, service := some loop.stop }
  | close {loop : Loop (Handler η)} (hstage : x.stage = .leaving) (h : x.service = some loop) :
      Turned x .close { x with stage := .ended, service := some loop.reset, log := x.log ++ x.closing }

variable {x} {x' : ActiveObject η} {t : Turn η}

theorem turned_of_handle {i : ℕ} {handler : Handler η} (h : x.handle i = some (handler, x')) :
    x.Turned (.handle i) x' := by
  unfold handle at h
  split at h
  · cases h
  · rename_i loop hservice
    split_ifs at h with hi hserved
    rw [Bool.and_eq_true, Bool.not_eq_true', Bool.or_eq_true, decide_eq_true_eq, decide_eq_true_eq] at hserved
    dsimp only at h
    split at h
    · cases h
      exact .handle hservice hi hserved.1 hserved.2 (.inr rfl)
    · cases h
      exact .handle hservice hi hserved.1 hserved.2 (.inl rfl)

theorem turned_of_turn (h : x.turn t = some (some x')) : x.Turned t x' := by
  cases t with
  | start =>
    cases h
    unfold start
    split_ifs with hthreads
    · exact .start hthreads
    · exact .again hthreads
  | stop =>
    obtain ⟨loop, hservice, rfl⟩ := Option.map_eq_some_iff.mp (Option.some.inj h)
    exact .stop hservice
  | post handler =>
    obtain ⟨loop, hservice, rfl⟩ := Option.map_eq_some_iff.mp (Option.some.inj h)
    exact .post hservice handler
  | handle i =>
    obtain ⟨⟨handler, y⟩, hhandle, hy⟩ := Option.map_eq_some_iff.mp h
    cases hy
    exact turned_of_handle hhandle
  | run =>
    obtain ⟨y, hrun, hy⟩ := Option.map_eq_some_iff.mp h
    cases hy
    unfold run at hrun
    split_ifs at hrun with hstage
    cases hrun
    exact .run hstage
  | serve =>
    obtain ⟨y, hserve, hy⟩ := Option.map_eq_some_iff.mp h
    cases hy
    unfold serve at hserve
    split at hserve
    · rename_i hstage hservice
      cases hserve
      exact .serve hstage hservice
    · cases hserve
  | leave =>
    obtain ⟨y, hleave, hy⟩ := Option.map_eq_some_iff.mp h
    cases hy
    unfold leave at hleave
    split at hleave
    · rename_i hstage hservice
      split_ifs at hleave
      cases hleave
      exact .leave hstage hservice
    · cases hleave
  | leavePool =>
    obtain ⟨y, hleave, hy⟩ := Option.map_eq_some_iff.mp h
    cases hy
    unfold leavePool at hleave
    split at hleave
    · rename_i hservice
      split_ifs at hleave with hpooled
      cases hleave
      rw [Bool.and_eq_true, decide_eq_true_eq] at hpooled
      exact .leavePool hpooled.1 hservice
    · cases hleave
  | close =>
    obtain ⟨y, hclose, hy⟩ := Option.map_eq_some_iff.mp h
    cases hy
    unfold close at hclose
    split at hclose
    · rename_i hstage hservice
      cases hclose
      exact .close hstage hservice
    · cases hclose

theorem turned_of_post {handler : η} (h : x.post handler = some x') : x.Turned (.post handler) x' :=
  turned_of_turn (congrArg some h)

theorem stage_of_post {handler : η} (h : x.post handler = some x') : x'.stage = x.stage := by
  obtain ⟨loop, -, rfl⟩ := Option.map_eq_some_iff.mp h
  rfl

/-- The null pointer is dereferenced by a stop or a post before there is a service. -/
theorem turn_eq_none_iff : x.turn t = some none ↔ x.service = none ∧ (t = .stop ∨ ∃ handler, t = .post handler) := by
  cases t <;> simp [turn, stop, post]

/-! ### The life of an active object -/

/-- What holds of an active object at any time. -/
structure Sound (x : ActiveObject η) : Prop where
  threads : x.threads = 0 ↔ x.stage = .absent
  service : x.service = none ↔ x.stage = .absent ∨ x.stage = .created
  fresh : x.service = none → x.log = []
  log : ∀ loop, x.service = some loop → x.log = x.lived loop.ran
  pooled : x.pooled = 0 ∨ x.stage = .serving ∨ x.stage = .leaving

theorem sound_new (pool : ℕ) (hasStartFunction hasStopFunction : Bool) :
    (new η pool hasStartFunction hasStopFunction).Sound :=
  ⟨by simp [new], by simp [new], fun _ => rfl, fun _ h => (nomatch h), .inl rfl⟩

theorem Sound.update {loop : Loop (Handler η)} {ran : List (Handler η)} (hx : x.Sound) (h : x.service = some loop)
    (loop' : Loop (Handler η)) (worker : Bool) (hran : loop'.ran = loop.ran ++ ran)
    (hopen : ran = [] ∨ x.stage ≠ .ended) :
    Sound { x with worker := worker, service := some loop', log := x.log ++ ran.map .handled } where
  threads := hx.threads
  service := (iff_of_false (by simp) fun hnone => by rw [hx.service.mpr hnone] at h; cases h)
  fresh hnone := nomatch hnone
  log := by
    rintro _ ⟨⟩
    rw [hx.log loop h, hran]
    rcases hopen with rfl | hopen
    · simp [lived, opening, closing]
    · simp [lived, opening, hopen]
  pooled := hx.pooled

theorem Sound.advance {loop : Loop (Handler η)} {stage : RunStage} (hx : x.Sound) (h : x.service = some loop)
    (hbefore : x.stage = .starting ∧ stage = .serving ∨ x.stage = .serving ∧ stage = .leaving) :
    Sound { x with stage := stage } where
  threads := by
    have hthreads := hx.threads
    rcases hbefore with ⟨hstage, rfl⟩ | ⟨hstage, rfl⟩ <;> simpa [hstage] using hthreads
  service := by
    rw [h]
    rcases hbefore with ⟨-, rfl⟩ | ⟨-, rfl⟩ <;> simp
  fresh := hx.fresh
  log loop' h' := by
    rw [hx.log loop' h']
    rcases hbefore with ⟨hstage, rfl⟩ | ⟨hstage, rfl⟩ <;> simp [lived, opening, hstage]
  pooled := by
    rcases hbefore with ⟨-, rfl⟩ | ⟨-, rfl⟩ <;> simp

theorem Turned.sound (h : x.Turned t x') (hx : x.Sound) (hclose : t = .close → x.pooled = 0) : x'.Sound := by
  cases h with
  | again => exact hx
  | start hzero =>
    have hstage := hx.threads.mp hzero
    have hnone := hx.service.mpr (.inl hstage)
    have hpooled := hx.pooled.resolve_right (by simp [hstage])
    exact ⟨by simp, by simp [hnone], hx.fresh, fun _ h => absurd (hnone.symm.trans h) (by simp), .inl hpooled⟩
  | run hstage =>
    have hpooled := hx.pooled.resolve_right (by simp [hstage])
    refine ⟨by simpa [hstage] using hx.threads, by simp, fun h => (nomatch h), ?_, .inl hpooled⟩
    rintro _ ⟨⟩
    rw [hx.fresh (hx.service.mpr (.inr hstage))]
    simp [lived, opening, Loop.new]
  | @stop loop h =>
    have hstopped := hx.update h loop.stop false (List.append_nil _).symm (.inl rfl)
    simpa using hstopped
  | @post loop h handler =>
    have hposted := hx.update h (loop.post (.given handler)) x.worker (List.append_nil _).symm (.inl rfl)
    simpa using hposted
  | @serve loop hstage h =>
    have hserving := (hx.update h (loop.post .startPool) true (List.append_nil _).symm (.inl rfl)).advance rfl
      (.inl ⟨hstage, rfl⟩)
    simpa using hserving
  | @handle loop h i hi _ hserved x' hx' =>
    have hopen : x.stage = .serving ∨ x.stage = .leaving :=
      hserved.elim .inl fun hpos => hx.pooled.resolve_left (Nat.ne_of_gt hpos)
    have hhandled := hx.update h (loop.take i hi) x.worker rfl
      (.inr (by rcases hopen with hstage | hstage <;> simp [hstage]))
    rcases hx' with rfl | rfl
    · exact hhandled
    · refine ⟨?_, hhandled.service, hhandled.fresh, hhandled.log, .inr hopen⟩
      have hthreads := hx.threads
      rcases hopen with hstage | hstage <;> simp [startPool, hstage] at hthreads ⊢ <;> omega
  | @leave loop hstage h =>
    have hleaving := (hx.update h loop.stop x.worker (List.append_nil _).symm (.inl rfl)).advance rfl
      (.inr ⟨hstage, rfl⟩)
    simpa using hleaving
  | @leavePool loop hpos h =>
    have hstopped := hx.update h loop.stop x.worker (List.append_nil _).symm (.inl rfl)
    have hopen := hx.pooled.resolve_left (Nat.ne_of_gt hpos)
    rw [List.map_nil, List.append_nil] at hstopped
    exact ⟨hstopped.threads, hstopped.service, hstopped.fresh, hstopped.log, .inr hopen⟩
  | @close loop hstage h =>
    refine ⟨by simpa [hstage] using hx.threads, by simp, fun h => (nomatch h), ?_, .inl (hclose rfl)⟩
    rintro _ ⟨⟩
    rw [hx.log loop h]
    simp [lived, opening, closing, hstage, Loop.reset]

/-! ### After the end -/

def Shut (x : ActiveObject η) : Prop := x.loop.stopped = true ∨ x.stage = .ended

theorem loop_of_service {loop : Loop (Handler η)} (h : x.service = some loop) : x.loop = loop := by
  rw [ActiveObject.loop, h]
  rfl

/-- What was stopped runs no more handlers, and keeps those that wait. -/
theorem Turned.shut (h : x.Turned t x') (hx : x.Sound) (hshut : x.Shut) :
    x'.Shut ∧ x'.loop.ran = x.loop.ran ∧ x.loop.waiting <+: x'.loop.waiting := by
  have hservice : x.service ≠ none := by
    intro hnone
    rcases hshut with hstopped | hstage
    · rw [ActiveObject.loop, hnone] at hstopped
      cases hstopped
    · have hstages := hx.service.mp hnone
      simp [hstage] at hstages
  cases h with
  | again => exact ⟨hshut, rfl, List.prefix_rfl⟩
  | start hzero => exact absurd (hx.service.mpr (.inl (hx.threads.mp hzero))) hservice
  | run hstage => exact absurd (hx.service.mpr (.inr hstage)) hservice
  | stop h => exact ⟨.inl rfl, by rw [loop_of_service h]; rfl, by rw [loop_of_service h]; exact List.prefix_rfl⟩
  | post h handler =>
    rw [Shut, loop_of_service h] at hshut
    rw [loop_of_service h]
    exact ⟨hshut, rfl, List.prefix_append _ _⟩
  | serve hstage h =>
    rw [Shut, loop_of_service h] at hshut
    rw [loop_of_service h]
    exact ⟨.inl (hshut.resolve_right (by simp [hstage])), rfl, List.prefix_append _ _⟩
  | handle h hi hopen hserved =>
    rw [Shut, loop_of_service h, hopen] at hshut
    have hended := hshut.resolve_left Bool.false_ne_true
    have hpos := hserved.resolve_left (by simp [hended])
    have hstages := hx.pooled.resolve_left (Nat.ne_of_gt hpos)
    simp [hended] at hstages
  | leave _ h | leavePool _ h =>
    rw [loop_of_service h]
    exact ⟨.inl rfl, rfl, List.prefix_rfl⟩
  | close _ h =>
    rw [loop_of_service h]
    exact ⟨.inr rfl, rfl, List.prefix_rfl⟩

/-! ### Whole runs -/

variable {o o' : Option (ActiveObject η)} {y : ActiveObject η}

theorem exists_turned {label : Option (Turn η)} (h : (system η).Trans o label o') (hy : o' = some y) :
    ∃ x t, o = some x ∧ label = some t ∧ x.Turned t y := by
  cases h with
  | internal hnext => cases hnext
  | @input _ t haccept =>
    obtain ⟨x, rfl, hturn⟩ := Option.bind_eq_some_iff.mp haccept
    exact ⟨x, t, rfl, rfl, turned_of_turn (hturn.trans (congrArg some hy))⟩

theorem sound_of_run {pool : ℕ} {hasStartFunction hasStopFunction : Bool}
    (hrun : (system η).Run Orderly (some (new η pool hasStartFunction hasStopFunction)) (some x)) : x.Sound := by
  refine hrun.invariant (I := fun o => ∀ object ∈ o, object.Sound) ?_ ?_ x rfl
  · rintro _ ⟨⟩
    exact sound_new pool hasStartFunction hasStopFunction
  · rintro o label o' ho hguard htrans y hy
    obtain ⟨object, t, rfl, rfl, hturned⟩ := exists_turned htrans hy
    exact hturned.sound (ho object rfl) fun heq => hguard (congrArg some heq) object rfl

theorem shut_of_run (hx : x.Sound) (hshut : x.Shut) (hrun : (system η).Run Orderly (some x) (some y)) :
    y.loop.ran = x.loop.ran ∧ x.loop.waiting <+: y.loop.waiting := by
  suffices h : y.Sound ∧ y.Shut ∧ y.loop.ran = x.loop.ran ∧ x.loop.waiting <+: y.loop.waiting from h.2.2
  refine hrun.invariant (I := fun o => ∀ object ∈ o, object.Sound ∧ object.Shut ∧
    object.loop.ran = x.loop.ran ∧ x.loop.waiting <+: object.loop.waiting) ?_ ?_ y rfl
  · rintro _ ⟨⟩
    exact ⟨hx, hshut, rfl, List.prefix_rfl⟩
  · rintro o label o' ho hguard htrans y hy
    obtain ⟨object, t, rfl, rfl, hturned⟩ := exists_turned htrans hy
    obtain ⟨hsound, hshut, hran, hwaiting⟩ := ho object rfl
    obtain ⟨hshut', hran', hwaiting'⟩ := hturned.shut hsound hshut
    exact ⟨hturned.sound hsound fun heq => hguard (congrArg some heq) object rfl, hshut', hran'.trans hran,
      hwaiting.trans hwaiting'⟩

theorem Turned.pooled_eq_zero (h : x.Turned t x') (hx : x.Sound) (hpool : x.threadPool ≤ 1) (hnone : x.pooled = 0) :
    x'.threadPool ≤ 1 ∧ x'.pooled = 0 := by
  cases h with
  | handle h _ _ hserved hx' =>
    have hstage := hserved.resolve_right (by simp [hnone])
    have hthreads : x.threads ≠ 0 := fun hzero => by simp [hx.threads.mp hzero] at hstage
    rcases hx' with rfl | rfl
    · exact ⟨hpool, hnone⟩
    · refine ⟨hpool, ?_⟩
      show x.pooled + (x.threadPool - x.threads) = 0
      omega
  | leavePool hpos => exact absurd hnone (Nat.ne_of_gt hpos)
  | start | again | run | stop | post | serve | leave | close => exact ⟨hpool, hnone⟩

/-- Only by `leave` the first thread gets out of `service->run()`. -/
theorem Turned.serving (h : x.Turned t x') (hx : x.Sound) (hleave : t ≠ .leave) (hstage : x.stage = .serving) :
    x'.stage = .serving := by
  cases h with
  | start hzero => exact absurd (hx.threads.mp hzero) (by simp [hstage])
  | run hcreated => exact absurd (hcreated.symm.trans hstage) (by simp)
  | leave => exact absurd rfl hleave
  | close hleaving => exact absurd (hleaving.symm.trans hstage) (by simp)
  | handle _ _ _ _ hx' => rcases hx' with rfl | rfl <;> exact hstage
  | again | stop | post | serve | leavePool => first | exact hstage | rfl

theorem Turned.ended (h : x.Turned t x') (hx : x.Sound) (hstage : x.stage = .ended) : x'.stage = .ended := by
  cases h with
  | start hzero => exact absurd (hx.threads.mp hzero) (by simp [hstage])
  | run hbefore | serve hbefore | leave hbefore | close hbefore =>
    exact absurd (hbefore.symm.trans hstage) (by simp)
  | handle _ _ _ _ hx' => rcases hx' with rfl | rfl <;> exact hstage
  | again | stop | post | leavePool => exact hstage

/-! ### The handlers that were given to it -/

def awaiting (x : ActiveObject η) : List η := x.loop.waiting.filterMap Handler.given?

def Turn.Quiet : Turn η → Prop
  | .post _ | .handle _ => False
  | _ => True

theorem Turned.awaiting_of_quiet (h : x.Turned t x') (hx : x.Sound) (hquiet : t.Quiet) :
    x'.awaiting = x.awaiting := by
  unfold awaiting
  cases h with
  | again => rfl
  | start hzero => rfl
  | post | handle => exact absurd hquiet id
  | run hstage =>
    unfold ActiveObject.loop
    rw [hx.service.mpr (.inr hstage)]
    rfl
  | serve _ h =>
    rw [loop_of_service h]
    exact (List.filterMap_append).trans (List.append_nil _)
  | stop h | leave _ h | leavePool _ h | close _ h =>
    rw [loop_of_service h]
    rfl

theorem awaiting_of_post {handler : η} (h : x.post handler = some x') : x'.awaiting = x.awaiting ++ [handler] := by
  obtain ⟨loop, hloop, rfl⟩ := Option.map_eq_some_iff.mp h
  unfold awaiting
  rw [loop_of_service hloop]
  exact List.filterMap_append

theorem exists_taken {i : ℕ} {handler : Handler η} (h : x.handle i = some (handler, x')) :
    ∃ loop, ∃ hi : i < loop.waiting.length, x.service = some loop ∧ handler = loop.waiting[i] ∧
      x'.loop = loop.take i hi := by
  unfold handle at h
  split at h
  · cases h
  rename_i loop hservice
  split_ifs at h with hi
  refine ⟨loop, hi, hservice, ?_⟩
  dsimp only at h
  split at h <;> cases h <;> exact ⟨Eq.symm ‹_›, rfl⟩

theorem awaiting_of_handle {i : ℕ} {handler : Handler η} (h : x.handle i = some (handler, x')) :
    ∃ pre post, x.awaiting = pre ++ handler.given?.toList ++ post ∧ x'.awaiting = pre ++ post ∧
      (i = 0 → pre = []) := by
  obtain ⟨loop, hi, hservice, rfl, hloop⟩ := exists_taken h
  refine ⟨(loop.waiting.take i).filterMap Handler.given?, (loop.waiting.drop (i + 1)).filterMap Handler.given?,
    ?_, ?_, ?_⟩
  · unfold awaiting
    rw [loop_of_service hservice]
    conv_lhs => rw [← List.take_append_drop i loop.waiting, List.drop_eq_getElem_cons hi]
    rw [List.filterMap_append, List.filterMap_cons, List.append_assoc]
    cases loop.waiting[i].given? <;> rfl
  · unfold awaiting
    rw [hloop]
    show (loop.waiting.eraseIdx i).filterMap _ = _
    rw [List.eraseIdx_eq_take_drop_succ, List.filterMap_append]
  · rintro rfl
    rfl

def served (x : ActiveObject η) : List η := x.loop.ran.filterMap Handler.given?

theorem Turned.served (h : x.Turned t x') (hx : x.Sound) (hquiet : ∀ i, t ≠ .handle i) : x'.served = x.served := by
  unfold ActiveObject.served
  cases h with
  | start | again => rfl
  | handle => exact absurd rfl (hquiet _)
  | run hstage =>
    unfold ActiveObject.loop
    rw [hx.service.mpr (.inr hstage)]
    rfl
  | serve _ h | stop h | post h | leave _ h | leavePool _ h | close _ h =>
    rw [loop_of_service h]
    rfl

theorem Turned.isSome_service (h : x.Turned t x') (hrun : t ≠ .run) : x'.service.isSome = x.service.isSome := by
  cases h with
  | start | again => rfl
  | run => exact absurd rfl hrun
  | handle h _ _ _ hx' => rcases hx' with rfl | rfl <;> rw [h] <;> rfl
  | serve _ h | stop h | post h | leave _ h | leavePool _ h | close _ h => rw [h]; rfl

theorem served_of_handle {i : ℕ} {handler : Handler η} (h : x.handle i = some (handler, x')) :
    x'.served = x.served ++ handler.given?.toList := by
  obtain ⟨loop, hi, hservice, rfl, hloop⟩ := exists_taken h
  unfold ActiveObject.served
  rw [hloop, loop_of_service hservice]
  show (loop.ran ++ [loop.waiting[i]]).filterMap _ = _
  rw [List.filterMap_append, List.filterMap_cons]
  cases loop.waiting[i].given? <;> rfl

/-! ### One life -/

/-- **One life.** However the threads take turns, an active object starts once, then runs handlers, and then ends
once; no stop waits for the handlers that were posted, no handler is run after it, and no start makes another
thread. The null pointer is dereferenced by a stop or a post before the thread has made the service, and never
after that. -/
theorem lives_once {pool : ℕ} {hasStartFunction hasStopFunction : Bool}
    (hx : (system η).Run Orderly (some (new η pool hasStartFunction hasStopFunction)) (some x)) :
    x.log = (if x.stage = .absent ∨ x.stage = .created then [] else x.lived x.loop.ran) ∧
      (∀ t, x.turn t = some none ↔
        (x.stage = .absent ∨ x.stage = .created) ∧ (t = .stop ∨ ∃ handler, t = .post handler)) ∧
      (x.Shut → ∀ y, (system η).Run Orderly (some x) (some y) →
        y.loop.ran = x.loop.ran ∧ x.loop.waiting <+: y.loop.waiting) := by
  have hsound := sound_of_run hx
  refine ⟨?_, fun t => ?_, fun hshut y hy => shut_of_run hsound hshut hy⟩
  · split_ifs with hstage
    · exact hsound.fresh (hsound.service.mpr hstage)
    · obtain ⟨loop, hloop⟩ := Option.ne_none_iff_exists'.mp (mt hsound.service.mp hstage)
      rw [loop_of_service hloop]
      exact hsound.log loop hloop
  · rw [turn_eq_none_iff, hsound.service]

end ActiveObject

namespace Sample

open ActiveObject

/-- The turns up to the stop of an object of two threads, to which one handler was posted. -/
def stopping : List (Turn ℕ) := [.start, .run, .serve, .handle 0, .post 7, .stop]

def stopped : ActiveObject ℕ :=
  { hasStartFunction := true
    hasStopFunction := false
    threadPool := 2
    stage := .serving
    threads := 2
    pooled := 1
    worker := false
    service := some ((((Loop.new _).post .startPool).take 0 (Nat.one_pos)).post (.given 7)).stop
    log := [.started, .startFunction, .handled .startPool] }

/-- What was planned is never run, whoever takes a turn: the last two threads leave, or it is started again. -/
theorem planned_is_dropped : stopped.log = stopped.lived [.startPool] ∧ ∀ y,
    (system ℕ).Run Orderly (some stopped) (some y) →
      y.loop.ran = [.startPool] ∧ [.given 7] <+: y.loop.waiting := by
  have hrun : (system ℕ).Run Orderly (some (new ℕ 2 true false)) (some stopped) := by
    have horderly : ∀ y : Option (ActiveObject ℕ), ∀ t ∈ stopping, Orderly y (some t) := by
      rintro y t ht ⟨⟩
      simp [stopping] at ht
    exact Reactive.System.Run.play (n := 0) (fun _ h => nomatch h) horderly .start
  obtain ⟨hlog, -, hshut⟩ := lives_once hrun
  exact ⟨hlog, hshut (.inl rfl)⟩

end Sample

end LibWorkflow
