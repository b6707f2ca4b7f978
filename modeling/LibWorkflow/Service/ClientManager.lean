import LibWorkflow.Engine.Samples
import LibWorkflow.Lib.Ordered
import LibWorkflow.Service.ActiveObject
import LibWorkflow.Service.Client
import Mathlib.Logic.Function.Basic

/-!
# The client manager

`service/client_manager.h`: an active object of one thread that holds the clients, checks them, and disconnects
them when it ends. Its timer is set once, when it starts, and is never set again: it makes one check of its own in
its life, and a client that is added later is held until the end, whatever becomes of it (`checked_once`).
-/

namespace LibWorkflow

open Ordered EventLoop

/-- The members of a client that the manager calls, for a class of clients whose state is a `κ`. All but the first
are virtual. -/
structure ClientMembers (κ : Type) where
  getStatus : κ → ClientStatus
  needHeartBeat : κ → Bool
  heartbeat : κ → κ
  heartbeatTimedOut : κ → Bool × κ
  shouldDeleteClient : κ → Bool × κ
  connect : κ → κ
  disconnect : κ → κ

namespace ClientMembers

variable {κ : Type} (members : ClientMembers κ)

/-- The `switch` of `checkClients`: the client, and whether it is to be removed. -/
def check (client : κ) : κ × Bool :=
  match members.getStatus client with
  | .connected => (if members.needHeartBeat client then members.heartbeat client else client, false)
  | .heartbeatExpected =>
    let (timedOut, client) := members.heartbeatTimedOut client
    if timedOut then
      let (deleted, client) := members.shouldDeleteClient (members.disconnect client)
      (client, deleted)
    else (client, false)
  | .disconnected => (members.connect client, false)

end ClientMembers

/-- The members of the class `Client` itself, with what the client has handed to the controller manager. `fresh` are
the targets `Target()` makes. -/
def Client.members (fresh : UUID → Target) : ClientMembers (Client × List Request) where
  getStatus c := c.1.status
  needHeartBeat _ := false
  heartbeat c := c
  heartbeatTimedOut c := (false, c)
  shouldDeleteClient c := (false, c)
  connect c := ((c.1.setStatus .connected false fresh).1, c.2 ++ (c.1.setStatus .connected false fresh).2)
  disconnect c := ((c.1.setStatus .disconnected false fresh).1, c.2 ++ (c.1.setStatus .disconnected false fresh).2)

/-- What calls `checkClients`: anyone, or the timer. -/
inductive CheckCall where
  | asked | timed
  deriving DecidableEq

/-- What happens to a client: it is added, it is checked, or it is disconnected because the manager ends. -/
inductive Attention (κ : Type) where
  | added
  | checked (found : κ)
  | ended (found : κ)

namespace Attention

variable {κ : Type}

def isCheck : Attention κ → Bool
  | .checked _ => true
  | _ => false

end Attention

/-- What may happen to a client, the oldest first, and whether it is held then: it is checked, and disconnected at
the end, only while it is held, and it leaves by the end or by a check that finds it so. -/
inductive ClientMembers.Stay {κ : Type} (members : ClientMembers κ) : List (Attention κ) → Bool → Prop
  | new : Stay members [] false
  | added {history : List (Attention κ)} {held : Bool} (h : Stay members history held) :
      Stay members (history ++ [.added]) true
  | checked {history : List (Attention κ)} (h : Stay members history true) (found : κ) :
      Stay members (history ++ [.checked found]) (!(members.check found).2)
  | ended {history : List (Attention κ)} (h : Stay members history true) (found : κ) :
      Stay members (history ++ [.ended found]) false

/-- `ClientManager`. A client is held by its pointer, which stands for its id; `states` has what each client is,
held or not. `armed` says that the timer waits. The log is what happened to clients, the oldest first. -/
structure ClientManager (κ : Type) where
  object : ActiveObject CheckCall
  armed : Bool
  clients : OrdSet UUID
  states : UUID → κ
  log : List (UUID × Attention κ)

namespace ClientManager

variable {κ : Type}

/-- `ClientManager::ClientManager` with a delayed start. -/
def new (states : UUID → κ) (hasStartFunction hasStopFunction : Bool) : ClientManager κ :=
  ⟨.new CheckCall 1 hasStartFunction hasStopFunction, false, ∅, states, []⟩

variable (members : ClientMembers κ) (x : ClientManager κ)

/-- `addClient`, of a client that is not null. -/
def addClient (cid : UUID) : ClientManager κ :=
  { x with clients := x.clients.insert cid, log := x.log ++ [(cid, .added)] }

/-- `removeClient`. -/
def removeClient (cid : UUID) : ClientManager κ := { x with clients := x.clients.erase cid }

/-- The client is made another, for a reason that depends on what it was. -/
def attend (cid : UUID) (client : κ) (reason : κ → Attention κ) : ClientManager κ :=
  { x with
    states := Function.update x.states cid client
    log := x.log ++ [(cid, reason (x.states cid))] }

/-- The loop of `checkClients` over the clients that are left, with those to remove. -/
def checkLoop : List UUID → ClientManager κ → OrdSet UUID → ClientManager κ × OrdSet UUID
  | [], x, toRemove => (x, toRemove)
  | cid :: rest, x, toRemove =>
    let checked := members.check (x.states cid)
    checkLoop rest (x.attend cid checked.1 .checked) (if checked.2 then toRemove.insert cid else toRemove)

/-- `checkClients(ec)`, where `ec` is no error. -/
def checkClients : ClientManager κ :=
  let (x, toRemove) := checkLoop members x.clients.elems x ∅
  toRemove.elems.foldl removeClient x

/-- A handler of its loop. That of the timer dispatches the check, which it runs at once. -/
def handled : Handler CheckCall → ClientManager κ
  | .startPool => x
  | .given _ => x.checkClients members

/-- `Timed::stop`: the handler of a timer that waits is posted, for good or ill. -/
def stopTimer : Option (ClientManager κ) :=
  if x.armed then (x.object.post .timed).map fun object => { x with object := object, armed := false } else some x

/-- `stopped`, after the timer. -/
def stopped : ClientManager κ :=
  { x.clients.elems.foldl (fun x cid => x.attend cid (members.disconnect (x.states cid)) .ended) x with
    clients := ∅ }

/-- What a thread does next: any thread, which may also change what a client is, the timer, or the thread of the
manager. -/
inductive Turn (κ : Type) where
  | start
  | stop
  | addClient (cid : UUID)
  | checkClients
  | change (cid : UUID) (f : κ → κ)
  | expire
  | run
  | serve
  | handle (i : ℕ)
  | leave
  | close

/-- One turn, where it can be taken; `none` within is the end by a null pointer. The timer is set in `run`, where
`started` is called. -/
def turn : Turn κ → Option (Option (ClientManager κ))
  | .start => some (some { x with object := x.object.start })
  | .stop => some (x.object.stop.map fun object => { x with object := object })
  | .addClient cid => some (some (x.addClient cid))
  | .checkClients => some ((x.object.post .asked).map fun object => { x with object := object })
  | .change cid f => some (some { x with states := Function.update x.states cid (f (x.states cid)) })
  | .expire =>
    if x.armed then some ((x.object.post .timed).map fun object => { x with object := object, armed := false })
    else none
  | .run => x.object.run.map fun object => some { x with object := object, armed := true }
  | .serve => x.object.serve.map fun object => some { x with object := object }
  | .handle i => (x.object.handle i).map fun called => some ({ x with object := called.2 }.handled members called.1)
  | .leave => x.object.leave.map fun object => some { x with object := object }
  | .close => x.stopTimer.bind fun x => x.object.close.map fun object =>
      some ({ x with object := object }.stopped members)

def system : Reactive.System (Option (ClientManager κ)) (Turn κ) where
  next _ := none
  accept x turn := x.bind (·.turn members turn)

def history (cid : UUID) : List (Attention κ) :=
  x.log.filterMap fun entry => if entry.1 = cid then some entry.2 else none

/-! ### Loops over the clients -/

variable {members} {x} {x' y : ClientManager κ} {t : Turn κ}

theorem history_append {cid : UUID} {event : Attention κ} (h : x'.log = x.log ++ [(cid, event)]) (other : UUID) :
    x'.history other = x.history other ++ if cid = other then [event] else [] := by
  unfold history
  rw [h, List.filterMap_append]
  split_ifs with heq <;> simp [heq]

theorem history_addClient (x : ClientManager κ) (cid other : UUID) :
    (x.addClient cid).history other = x.history other ++ if cid = other then [.added] else [] :=
  history_append rfl other

/-- Each client of the list was made what `f` makes of it, for a reason that depends on what it was. -/
structure Attended (f : κ → κ) (reason : κ → Attention κ) (ids : List UUID) (x x' : ClientManager κ) : Prop where
  object : x'.object = x.object
  armed : x'.armed = x.armed
  states : ∀ cid, x'.states cid = if cid ∈ ids then f (x.states cid) else x.states cid
  history : ∀ cid, x'.history cid = x.history cid ++ if cid ∈ ids then [reason (x.states cid)] else []

variable {f : κ → κ} {reason : κ → Attention κ} {ids : List UUID}

theorem Attended.nil : Attended f reason [] x x :=
  ⟨rfl, rfl, fun _ => (if_neg List.not_mem_nil).symm, fun _ => by simp⟩

theorem Attended.cons {cid : UUID} (hcid : cid ∉ ids)
    (h : Attended f reason ids (x.attend cid (f (x.states cid)) reason) x') :
    Attended f reason (cid :: ids) x x' where
  object := h.object
  armed := h.armed
  states other := by
    rw [h.states]
    by_cases heq : other = cid
    · subst heq
      simp [hcid, attend]
    · simp [heq, attend]
  history other := by
    have hbegun : (x.attend cid (f (x.states cid)) reason).history other =
        x.history other ++ if cid = other then [reason (x.states cid)] else [] := history_append rfl other
    rw [h.history, hbegun]
    by_cases heq : cid = other
    · subst heq
      simp [hcid]
    · simp [heq, Ne.symm heq, attend]

theorem attended_foldl (f : κ → κ) (reason : κ → Attention κ) (x : ClientManager κ) (hids : ids.Nodup) :
    Attended f reason ids x (ids.foldl (fun x cid => x.attend cid (f (x.states cid)) reason) x) := by
  induction ids generalizing x with
  | nil => exact .nil
  | cons cid rest ih =>
    obtain ⟨hcid, hrest⟩ := List.nodup_cons.mp hids
    exact .cons hcid (ih _ hrest)

/-- The loop checks each client once, and collects those to remove. -/
theorem attended_checkLoop (members : ClientMembers κ) (x : ClientManager κ) (toRemove : OrdSet UUID)
    (hids : ids.Nodup) :
    Attended (fun client => (members.check client).1) .checked ids x (checkLoop members ids x toRemove).1 ∧
      (checkLoop members ids x toRemove).1.clients = x.clients ∧
      ∀ cid, cid ∈ (checkLoop members ids x toRemove).2 ↔
        cid ∈ toRemove ∨ cid ∈ ids ∧ (members.check (x.states cid)).2 = true := by
  induction ids generalizing x toRemove with
  | nil => exact ⟨.nil, rfl, fun cid => by simp [checkLoop]⟩
  | cons cid rest ih =>
    obtain ⟨hcid, hrest⟩ := List.nodup_cons.mp hids
    obtain ⟨hattended, hclients, hremoved⟩ := ih (x.attend cid (members.check (x.states cid)).1 .checked)
      (if (members.check (x.states cid)).2 then toRemove.insert cid else toRemove) hrest
    refine ⟨.cons (f := fun client => (members.check client).1) hcid hattended, hclients, fun other => ?_⟩
    refine (hremoved other).trans ?_
    by_cases heq : other = cid
    · subst heq
      split_ifs with hdeleted <;> simp [hcid, hdeleted]
    · split_ifs <;> simp [heq, attend]

theorem foldl_removeClient (ids : List UUID) (x : ClientManager κ) :
    (ids.foldl removeClient x).object = x.object ∧ (ids.foldl removeClient x).armed = x.armed ∧
      (ids.foldl removeClient x).states = x.states ∧ (ids.foldl removeClient x).log = x.log ∧
      ∀ cid, cid ∈ (ids.foldl removeClient x).clients ↔ cid ∈ x.clients ∧ cid ∉ ids := by
  induction ids generalizing x with
  | nil => exact ⟨rfl, rfl, rfl, rfl, fun _ => by simp⟩
  | cons gone rest ih =>
    obtain ⟨hobject, harmed, hstates, hlog, hclients⟩ := ih (x.removeClient gone)
    refine ⟨hobject, harmed, hstates, hlog, fun cid => ?_⟩
    rw [List.foldl_cons, hclients]
    simp only [removeClient, OrdSet.mem_erase, List.mem_cons, not_or]
    tauto

theorem attended_checkClients (members : ClientMembers κ) (x : ClientManager κ) :
    Attended (fun client => (members.check client).1) .checked x.clients.elems x (x.checkClients members) ∧
      ∀ cid, cid ∈ (x.checkClients members).clients ↔
        cid ∈ x.clients ∧ (members.check (x.states cid)).2 = false := by
  obtain ⟨hattended, hclients, hremoved⟩ :=
    attended_checkLoop members x ∅ x.clients.nodup
  obtain ⟨hobject, harmed, hstates, hlog, hheld⟩ := foldl_removeClient
    (checkLoop members x.clients.elems x ∅).2.elems (checkLoop members x.clients.elems x ∅).1
  refine ⟨⟨hobject.trans hattended.object, harmed.trans hattended.armed, fun cid => ?_, fun cid => ?_⟩, fun cid => ?_⟩
  · exact (congrFun hstates cid).trans (hattended.states cid)
  · rw [← hattended.history]
    unfold history checkClients
    exact congrArg _ hlog
  · refine (hheld cid).trans ?_
    rw [hclients, ← OrdSet.mem_def, hremoved]
    simp only [OrdSet.notMem_empty, false_or, ← OrdSet.mem_def]
    rw [← Bool.not_eq_true]
    tauto

theorem attended_stopped (members : ClientMembers κ) (x : ClientManager κ) :
    Attended members.disconnect .ended x.clients.elems x (x.stopped members) := by
  obtain ⟨hobject, harmed, hstates, hhistory⟩ := attended_foldl members.disconnect .ended x x.clients.nodup
  exact ⟨hobject, harmed, hstates, hhistory⟩

/-! ### One turn -/

/-- What a turn does. -/
inductive Moved (members : ClientMembers κ) (x : ClientManager κ) : Turn κ → ClientManager κ → Prop
  | aside {t : Turn κ} {u : ActiveObject.Turn CheckCall} {object : ActiveObject CheckCall} (hquiet : u.Quiet)
      (hrun : u ≠ .run) (hclose : t ≠ .close) (h : x.object.Turned u object) :
      Moved members x t { x with object := object }
  | added (cid : UUID) : Moved members x (.addClient cid) (x.addClient cid)
  | asked {object : ActiveObject CheckCall} (h : x.object.post .asked = some object) :
      Moved members x .checkClients { x with object := object }
  | changed (cid : UUID) (f : κ → κ) :
      Moved members x (.change cid f) { x with states := Function.update x.states cid (f (x.states cid)) }
  | expired {object : ActiveObject CheckCall} (harmed : x.armed = true) (h : x.object.post .timed = some object) :
      Moved members x .expire { x with object := object, armed := false }
  | run {object : ActiveObject CheckCall} (h : x.object.Turned .run object) :
      Moved members x .run { x with object := object, armed := true }
  | handled {i : ℕ} {handler : Handler CheckCall} {object : ActiveObject CheckCall}
      (h : x.object.handle i = some (handler, object)) :
      Moved members x (.handle i) ({ x with object := object }.handled members handler)
  | closed {between : ClientManager κ} {object : ActiveObject CheckCall} (htimer : x.stopTimer = some between)
      (h : between.object.Turned .close object) :
      Moved members x .close ({ between with object := object }.stopped members)

theorem moved_of_turn (h : x.turn members t = some (some x')) : Moved members x t x' := by
  cases t with
  | start =>
    cases h
    exact .aside (u := .start) trivial (by simp) (by simp) (ActiveObject.turned_of_turn rfl)
  | stop =>
    obtain ⟨object, hstop, rfl⟩ := Option.map_eq_some_iff.mp (Option.some.inj h)
    exact .aside (u := .stop) trivial (by simp) (by simp) (ActiveObject.turned_of_turn (congrArg some hstop))
  | addClient cid =>
    cases h
    exact .added cid
  | checkClients =>
    obtain ⟨object, hpost, rfl⟩ := Option.map_eq_some_iff.mp (Option.some.inj h)
    exact .asked hpost
  | change cid f =>
    cases h
    exact .changed cid f
  | expire =>
    obtain ⟨harmed, h⟩ := Option.ite_none_right_eq_some.mp h
    obtain ⟨object, hpost, rfl⟩ := Option.map_eq_some_iff.mp (Option.some.inj h)
    exact .expired harmed hpost
  | run =>
    obtain ⟨object, hrun, hx'⟩ := Option.map_eq_some_iff.mp h
    cases hx'
    exact .run (ActiveObject.turned_of_turn (Option.map_eq_some_iff.mpr ⟨object, hrun, rfl⟩))
  | serve =>
    obtain ⟨object, hserve, hx'⟩ := Option.map_eq_some_iff.mp h
    cases hx'
    exact .aside (u := .serve) trivial (by simp) (by simp)
      (ActiveObject.turned_of_turn (Option.map_eq_some_iff.mpr ⟨object, hserve, rfl⟩))
  | handle i =>
    obtain ⟨⟨handler, object⟩, hhandle, hx'⟩ := Option.map_eq_some_iff.mp h
    cases hx'
    exact .handled hhandle
  | leave =>
    obtain ⟨object, hleave, hx'⟩ := Option.map_eq_some_iff.mp h
    cases hx'
    exact .aside (u := .leave) trivial (by simp) (by simp)
      (ActiveObject.turned_of_turn (Option.map_eq_some_iff.mpr ⟨object, hleave, rfl⟩))
  | close =>
    obtain ⟨between, htimer, h⟩ := Option.bind_eq_some_iff.mp h
    obtain ⟨object, hclose, hx'⟩ := Option.map_eq_some_iff.mp h
    cases hx'
    exact .closed htimer (ActiveObject.turned_of_turn (Option.map_eq_some_iff.mpr ⟨object, hclose, rfl⟩))

theorem stopTimer_cases (h : x.stopTimer = some x') : x.armed = false ∧ x' = x ∨
    x.armed = true ∧
      ∃ object, x.object.post .timed = some object ∧ x' = { x with object := object, armed := false } := by
  unfold stopTimer at h
  split_ifs at h with harmed
  · obtain ⟨object, hpost, rfl⟩ := Option.map_eq_some_iff.mp h
    exact .inr ⟨harmed, object, hpost, rfl⟩
  · cases h
    exact .inl ⟨Bool.not_eq_true _ |>.mp harmed, rfl⟩

/-! ### What every turn keeps -/

/-- What holds of the manager at any time. Its timer is set once: it waits, or its handler does, or was run. -/
structure Kept (members : ClientMembers κ) (x : ClientManager κ) : Prop where
  sound : x.object.Sound
  single : x.object.threadPool ≤ 1 ∧ x.object.pooled = 0
  timer : x.object.served.count .timed + x.object.awaiting.count .timed + x.armed.toNat =
    if x.object.service.isSome then 1 else 0
  stay : ∀ cid, members.Stay (x.history cid) (decide (cid ∈ x.clients))
  checks : ∀ cid, (x.history cid).countP Attention.isCheck ≤ x.object.served.length

theorem kept_new (states : UUID → κ) (hasStartFunction hasStopFunction : Bool) :
    Kept members (new states hasStartFunction hasStopFunction) :=
  ⟨ActiveObject.sound_new .., ⟨le_rfl, rfl⟩, rfl, fun _ => .new, fun _ => le_rfl⟩

theorem Kept.turned (hx : Kept members x) {u : ActiveObject.Turn CheckCall} {object : ActiveObject CheckCall}
    (h : x.object.Turned u object) : object.Sound ∧ object.threadPool ≤ 1 ∧ object.pooled = 0 :=
  ⟨h.sound hx.sound fun _ => hx.single.2, h.pooled_eq_zero hx.sound hx.single.1 hx.single.2⟩

theorem Attended.stay {held : OrdSet UUID} (hx : ∀ cid, members.Stay (x.history cid) (decide (cid ∈ x.clients)))
    (h : Attended f reason x.clients.elems x x')
    (hreason : ∀ cid ∈ x.clients, members.Stay (x.history cid) true →
      members.Stay (x.history cid ++ [reason (x.states cid)]) (decide (cid ∈ held)))
    (hheld : ∀ cid ∈ held, cid ∈ x.clients) (cid : UUID) :
    members.Stay (x'.history cid) (decide (cid ∈ held)) := by
  have hstay := hx cid
  rw [h.history]
  by_cases hmem : cid ∈ x.clients
  · rw [if_pos (OrdSet.mem_def.mp hmem)]
    rw [decide_eq_true hmem] at hstay
    exact hreason cid hmem hstay
  · rw [if_neg (mt OrdSet.mem_def.mpr hmem), List.append_nil, decide_eq_false (mt (hheld cid) hmem)]
    rwa [decide_eq_false hmem] at hstay

theorem Kept.update (hx : Kept members x) {object : ActiveObject CheckCall} {armed : Bool}
    (hobject : object.Sound ∧ object.threadPool ≤ 1 ∧ object.pooled = 0)
    (htimer : object.served.count .timed + object.awaiting.count .timed + armed.toNat =
      if object.service.isSome then 1 else 0)
    (hserved : x.object.served.length ≤ object.served.length) :
    Kept members { x with object := object, armed := armed } :=
  ⟨hobject.1, hobject.2, htimer, hx.stay, fun cid => (hx.checks cid).trans hserved⟩

theorem Kept.attended (hx : Kept members x) (h : Attended f reason ids x x')
    (hstay : ∀ cid, members.Stay (x'.history cid) (decide (cid ∈ x'.clients)))
    (hchecks : ∀ cid, (x'.history cid).countP Attention.isCheck ≤ x.object.served.length) : Kept members x' := by
  refine ⟨?_, ?_, ?_, hstay, ?_⟩ <;> rw [h.object]
  · exact hx.sound
  · exact hx.single
  · rw [h.armed]
    exact hx.timer
  · exact hchecks

theorem Kept.checkClients (hx : Kept members x)
    (hchecks : ∀ cid, (x.history cid).countP Attention.isCheck + 1 ≤ x.object.served.length) :
    Kept members (x.checkClients members) := by
  obtain ⟨hattended, hclients⟩ := attended_checkClients members x
  refine hx.attended hattended (hattended.stay hx.stay (fun cid hmem hstay => ?_) fun cid hmem => ?_) fun cid => ?_
  · have hheld : decide (cid ∈ (x.checkClients members).clients) = !(members.check (x.states cid)).2 := by
      simp [hclients, hmem]
    rw [hheld]
    exact .checked hstay _
  · exact ((hclients cid).mp hmem).1
  · refine (?_ : _ ≤ _).trans (hchecks cid)
    rw [hattended.history, List.countP_append]
    exact Nat.add_le_add_left (List.countP_le_length.trans (by split_ifs <;> simp)) _

theorem Kept.handled (hx : Kept members x) {i : ℕ} {handler : Handler CheckCall} {object : ActiveObject CheckCall}
    (h : x.object.handle i = some (handler, object)) :
    Kept members ({ x with object := object }.handled members handler) := by
  obtain ⟨pre, post, hbefore, hafter, -⟩ := ActiveObject.awaiting_of_handle h
  have hserved := ActiveObject.served_of_handle h
  have hturned := ActiveObject.turned_of_handle h
  have htimer : object.served.count .timed + object.awaiting.count .timed + x.armed.toNat =
      if object.service.isSome then 1 else 0 := by
    rw [hturned.isSome_service (by simp), ← hx.timer, hserved, hafter, hbefore]
    simp only [List.count_append]
    omega
  have hlength : object.served.length = x.object.served.length + handler.given?.toList.length := by
    rw [hserved, List.length_append]
  have hupdated : Kept members { x with object := object } :=
    hx.update (hx.turned hturned) htimer (hlength ▸ Nat.le_add_right _ _)
  match handler with
  | .startPool => exact hupdated
  | .given call => exact hupdated.checkClients fun cid => hlength ▸ Nat.add_le_add_right (hx.checks cid) 1

theorem Kept.posted (hx : Kept members x) {call : CheckCall} {object : ActiveObject CheckCall}
    (h : x.object.post call = some object) {armed : Bool}
    (harmed : [call].count .timed + armed.toNat = x.armed.toNat) :
    Kept members { x with object := object, armed := armed } := by
  have hturned := ActiveObject.turned_of_post h
  have hserved := hturned.served hx.sound (by simp)
  refine hx.update (hx.turned hturned) ?_ (hserved ▸ le_rfl)
  rw [hserved, ActiveObject.awaiting_of_post h, hturned.isSome_service (by simp), ← hx.timer, List.count_append]
  omega

theorem Kept.aside (hx : Kept members x) {u : ActiveObject.Turn CheckCall} {object : ActiveObject CheckCall}
    (hquiet : u.Quiet) (hrun : u ≠ .run) (h : x.object.Turned u object) : Kept members { x with object := object } := by
  have hserved := h.served hx.sound fun i hi => by rw [hi] at hquiet; exact hquiet
  refine hx.update (hx.turned h) ?_ (hserved ▸ le_rfl)
  rw [hserved, h.awaiting_of_quiet hx.sound hquiet, h.isSome_service hrun]
  exact hx.timer

theorem Kept.stopped (hx : Kept members x) : Kept members (x.stopped members) := by
  have hattended := attended_stopped members x
  refine hx.attended hattended (hattended.stay hx.stay (fun cid hmem hstay => .ended hstay _)
    fun cid hmem => absurd hmem (OrdSet.notMem_empty cid)) fun cid => ?_
  refine le_of_eq_of_le ?_ (hx.checks cid)
  rw [hattended.history, List.countP_append]
  split_ifs <;> rfl

theorem Moved.kept (h : Moved members x t x') (hx : Kept members x) : Kept members x' := by
  cases h with
  | aside hquiet hrun _ h => exact hx.aside hquiet hrun h
  | added cid =>
    refine ⟨hx.sound, hx.single, hx.timer, fun other => ?_, fun other => ?_⟩
    · have hstay := hx.stay other
      rw [history_addClient]
      by_cases heq : cid = other
      · subst heq
        simpa [addClient] using ClientMembers.Stay.added hstay
      · simpa [addClient, heq, Ne.symm heq] using hstay
    · rw [history_addClient, List.countP_append]
      refine le_of_eq_of_le ?_ (hx.checks other)
      split_ifs <;> rfl
  | asked h => exact hx.posted h (by simp)
  | changed cid f => exact ⟨hx.sound, hx.single, hx.timer, hx.stay, hx.checks⟩
  | expired harmed h => exact hx.posted h (by rw [harmed]; rfl)
  | @run object h =>
    have hserved := h.served hx.sound (by simp)
    have htimer := hx.timer
    refine hx.update (hx.turned h) ?_ (hserved ▸ le_rfl)
    rw [hserved, h.awaiting_of_quiet hx.sound trivial]
    cases h with
    | run hstage =>
      rw [hx.sound.service.mpr (.inr hstage), Option.isSome_none, if_neg Bool.false_ne_true] at htimer
      rw [Option.isSome_some, if_pos rfl, Bool.toNat_true]
      omega
  | handled h => exact hx.handled h
  | @closed between object htimer h =>
    have hbetween : Kept members between := by
      rcases stopTimer_cases htimer with ⟨-, rfl⟩ | ⟨harmed, object, hpost, rfl⟩
      · exact hx
      · exact hx.posted hpost (by rw [harmed]; rfl)
    exact (hbetween.aside (u := .close) trivial (by simp) h).stopped

/-! ### Whole runs -/

variable {o o' : Option (ClientManager κ)} {states : UUID → κ} {hasStartFunction hasStopFunction : Bool}
  {guard : Option (ClientManager κ) → Option (Turn κ) → Prop}

theorem exists_moved {label : Option (Turn κ)} (h : (system members).Trans o label o') (hy : o' = some y) :
    ∃ x t, o = some x ∧ label = some t ∧ Moved members x t y := by
  cases h with
  | internal hnext => cases hnext
  | @input _ t haccept =>
    obtain ⟨x, rfl, hturn⟩ := Option.bind_eq_some_iff.mp haccept
    exact ⟨x, t, rfl, rfl, moved_of_turn (hturn.trans (congrArg some hy))⟩

theorem run_induction {P : ClientManager κ → Prop} (hx : Kept members x) (hstart : P x)
    (hstep : ∀ c t c', Kept members c → P c → guard (some c) (some t) → Moved members c t c' → P c')
    (hrun : (system members).Run guard (some x) (some y)) : Kept members y ∧ P y := by
  refine hrun.invariant (I := fun o => ∀ c ∈ o, Kept members c ∧ P c) ?_ ?_ y rfl
  · rintro _ ⟨⟩
    exact ⟨hx, hstart⟩
  · rintro o label o' ho hguard htrans c' hc'
    obtain ⟨c, t, rfl, rfl, hmoved⟩ := exists_moved htrans hc'
    obtain ⟨hkept, hP⟩ := ho c rfl
    exact ⟨hmoved.kept hkept, hstep c t c' hkept hP hguard hmoved⟩

theorem kept_of_run (hrun : (system members).Run guard (some (new states hasStartFunction hasStopFunction)) (some x)) :
    Kept members x :=
  (run_induction (P := fun _ => True) (kept_new ..) trivial (fun _ _ _ _ _ _ _ => trivial) hrun).1

/-! ### The last check -/

/-- The timer was set and has run out, and no check waits. -/
structure Spent (x : ClientManager κ) : Prop where
  service : x.object.service.isSome = true
  armed : x.armed = false
  awaiting : x.object.awaiting = []

def Unasked (_ : Option (ClientManager κ)) (label : Option (Turn κ)) : Prop := label ≠ some .checkClients

/-- What was stopped does not start again. -/
theorem Moved.ended (h : Moved members x t x') (hx : Kept members x) (hstage : x.object.stage = .ended) :
    x'.object.stage = .ended ∧ ∀ cid, ∃ n, x'.history cid = x.history cid ++ List.replicate n .added := by
  cases h with
  | aside _ _ _ h => exact ⟨h.ended hx.sound hstage, fun _ => ⟨0, (List.append_nil _).symm⟩⟩
  | added cid =>
    refine ⟨hstage, fun other => ⟨if cid = other then 1 else 0, ?_⟩⟩
    rw [history_addClient]
    split_ifs <;> rfl
  | asked h | expired _ h =>
    have hturned := ActiveObject.turned_of_post h
    exact ⟨hturned.ended hx.sound hstage, fun _ => ⟨0, (List.append_nil _).symm⟩⟩
  | changed => exact ⟨hstage, fun _ => ⟨0, (List.append_nil _).symm⟩⟩
  | run h =>
    cases h with
    | run hcreated => exact absurd (hcreated.symm.trans hstage) (by simp)
  | handled h =>
    cases ActiveObject.turned_of_handle h with
    | handle _ _ _ hserved => simp [hstage, hx.single.2] at hserved
  | @closed between object htimer h =>
    have hbetween : between.object.stage = x.object.stage := by
      rcases stopTimer_cases htimer with ⟨-, rfl⟩ | ⟨-, object, hpost, rfl⟩
      · rfl
      · exact ActiveObject.stage_of_post hpost
    cases h with
    | close hleaving => exact absurd ((hleaving.symm.trans hbetween).trans hstage) (by simp)

/-- Without a timer or a check that waits there is no check any more. A client that is held is held until the
end. -/
theorem Moved.spent (h : Moved members x t x') (hx : Kept members x) (hspent : x.Spent) (hasked : t ≠ .checkClients) :
    x'.Spent ∧ ∀ cid, (∃ later, x'.history cid = x.history cid ++ later ∧ ∀ event ∈ later, event.isCheck = false) ∧
      (x'.object.stage ≠ .ended → x.object.stage ≠ .ended ∧ (cid ∈ x.clients → cid ∈ x'.clients)) := by
  obtain ⟨hservice, harmed, hawaiting⟩ := hspent
  have hsame : ∀ cid, ∃ later, x.history cid = x.history cid ++ later ∧
      ∀ event ∈ later, Attention.isCheck event = false :=
    fun cid => ⟨[], (List.append_nil _).symm, fun _ h => (nomatch h)⟩
  have hnot : x'.object.stage ≠ .ended → x.object.stage ≠ .ended := fun hnot hstage => hnot (h.ended hx hstage).1
  cases h with
  | aside hquiet hrun _ h =>
    refine ⟨⟨(h.isSome_service hrun).trans hservice, harmed, ?_⟩, fun cid => ⟨hsame cid, fun hend => ⟨hnot hend, id⟩⟩⟩
    exact (h.awaiting_of_quiet hx.sound hquiet).trans hawaiting
  | added cid =>
    refine ⟨⟨hservice, harmed, hawaiting⟩, fun other => ⟨⟨_, history_addClient x cid other, ?_⟩, fun hend =>
      ⟨hnot hend, fun hmem => OrdSet.mem_insert.mpr (.inr hmem)⟩⟩⟩
    intro event hevent
    split_ifs at hevent <;> simp at hevent
    rw [hevent]
    rfl
  | asked => exact absurd rfl hasked
  | changed => exact ⟨⟨hservice, harmed, hawaiting⟩, fun cid => ⟨hsame cid, fun hend => ⟨hnot hend, id⟩⟩⟩
  | expired hwaits => exact absurd (harmed.symm.trans hwaits) Bool.false_ne_true
  | run h =>
    cases h with
    | run hcreated => simp [hx.sound.service.mpr (.inr hcreated)] at hservice
  | @handled _ handler object h =>
    obtain ⟨pre, post, hbefore, hafter, -⟩ := ActiveObject.awaiting_of_handle h
    have hturned := ActiveObject.turned_of_handle h
    rw [hawaiting, eq_comm, List.append_eq_nil_iff, List.append_eq_nil_iff] at hbefore
    obtain ⟨⟨rfl, hgiven⟩, rfl⟩ := hbefore
    match handler with
    | .startPool =>
      exact ⟨⟨(hturned.isSome_service (by simp)).trans hservice, harmed, hafter⟩,
        fun cid => ⟨hsame cid, fun hend => ⟨hnot hend, id⟩⟩⟩
    | .given call => cases hgiven
  | @closed between object htimer h =>
    obtain rfl : between = x := (stopTimer_cases htimer).elim And.right fun hwaits =>
      absurd (harmed.symm.trans hwaits.1) Bool.false_ne_true
    have hattended := attended_stopped members { between with object := object }
    have hobject : (ClientManager.stopped members { between with object := object }).object = object := hattended.object
    have hended : object.stage = .ended := by
      cases h
      rfl
    refine ⟨⟨?_, hattended.armed.trans harmed, ?_⟩, fun cid => ⟨⟨_, hattended.history cid, ?_⟩, fun hend => ?_⟩⟩
    · rw [hobject]
      exact (h.isSome_service (by simp)).trans hservice
    · rw [hobject]
      exact (h.awaiting_of_quiet hx.sound trivial).trans hawaiting
    · intro event hevent
      split_ifs at hevent <;> simp at hevent
      rw [hevent]
      rfl
    · exact absurd ((congrArg ActiveObject.stage hobject).trans hended) hend

theorem Kept.length_served (hx : Kept members x) : x.object.served.length ≤ x.object.served.count .asked + 1 := by
  have htimer := hx.timer
  have hcalls : ∀ calls : List CheckCall, calls.length = calls.count .asked + calls.count .timed := by
    intro calls
    induction calls with
    | nil => rfl
    | cons call rest ih => cases call <;> simp [ih] <;> omega
  rw [hcalls]
  split_ifs at htimer <;> omega

theorem ended_of_close (h : x.turn members .close = some (some y)) : y.clients = ∅ ∧ ∀ cid ∈ x.clients,
    y.states cid = members.disconnect (x.states cid) ∧ y.history cid = x.history cid ++ [.ended (x.states cid)] := by
  cases moved_of_turn h with
  | aside _ _ hclose => exact absurd rfl hclose
  | @closed between object htimer =>
    refine ⟨rfl, fun cid hmem => ?_⟩
    have hattended := attended_stopped members { between with object := object }
    rcases stopTimer_cases htimer with ⟨-, rfl⟩ | ⟨-, timed, -, rfl⟩ <;>
      exact ⟨(hattended.states cid).trans (if_pos hmem), (hattended.history cid).trans (congrArg _ (if_pos hmem))⟩

/-- **One check.** However the threads take turns, what happens to a client is a stay: it is added, it is checked
while it is held, and it leaves by a check that finds it timed out and to be deleted, or by the end, at which each
client that is held is disconnected. Beyond the checks that are asked for there is one. Once that is made, no client is
checked again that nobody asks to check, and none leaves before the end; after the end nothing happens to a
client that is added. -/
theorem checked_once
    (hrun : (system members).Reachable (some (new states hasStartFunction hasStopFunction)) (some x)) :
    (∀ cid, members.Stay (x.history cid) (decide (cid ∈ x.clients)) ∧
        (x.history cid).countP Attention.isCheck ≤ x.object.served.count .asked + 1) ∧
      (∀ y, x.turn members .close = some (some y) → y.clients = ∅ ∧ ∀ cid ∈ x.clients,
        y.states cid = members.disconnect (x.states cid) ∧ y.history cid = x.history cid ++ [.ended (x.states cid)]) ∧
      (x.Spent → ∀ y, (system members).Run Unasked (some x) (some y) → ∀ cid,
        (∃ later, y.history cid = x.history cid ++ later ∧ ∀ event ∈ later, event.isCheck = false) ∧
          (y.object.stage ≠ .ended → cid ∈ x.clients → cid ∈ y.clients)) ∧
      (x.object.stage = .ended → ∀ y, (system members).Reachable (some x) (some y) → ∀ cid,
        ∃ n, y.history cid = x.history cid ++ List.replicate n .added) := by
  have hx := kept_of_run hrun
  refine ⟨fun cid => ⟨hx.stay cid, (hx.checks cid).trans hx.length_served⟩, fun y => ended_of_close,
    fun hspent y hy cid => ?_, fun hended y hy cid => ?_⟩
  · have hlast := (run_induction (P := fun c => c.Spent ∧ (∃ later, c.history cid = x.history cid ++ later ∧
        ∀ event ∈ later, Attention.isCheck event = false) ∧
      (c.object.stage ≠ .ended → cid ∈ x.clients → cid ∈ c.clients)) hx ⟨hspent, ?_, fun _ => id⟩ ?_ hy).2.2
    · exact hlast
    · exact ⟨[], (List.append_nil _).symm, fun _ h => (nomatch h)⟩
    · rintro c t c' hc ⟨hspent, ⟨later, hlater, hchecks⟩, hheld⟩ hguard hmoved
      obtain ⟨hspent', hkept⟩ := hmoved.spent hc hspent fun ht => hguard (congrArg some ht)
      obtain ⟨⟨more, hmore, hmoreChecks⟩, hstill⟩ := hkept cid
      refine ⟨hspent', ⟨later ++ more, ?_, ?_⟩, fun hend hmem => (hstill hend).2 (hheld (hstill hend).1 hmem)⟩
      · rw [hmore, hlater, List.append_assoc]
      · exact fun event hevent => (List.mem_append.mp hevent).elim (hchecks event) (hmoreChecks event)
  · have hlast := (run_induction (P := fun c => c.object.stage = .ended ∧
      ∃ n, c.history cid = x.history cid ++ List.replicate n .added) hx ⟨hended, 0, (List.append_nil _).symm⟩ ?_ hy).2.2
    · exact hlast
    · rintro c t c' hc ⟨hended, n, hn⟩ - hmoved
      obtain ⟨hended', hkept⟩ := hmoved.ended hc hended
      obtain ⟨k, hk⟩ := hkept cid
      exact ⟨hended', n + k, by rw [hk, hn, List.append_assoc, List.replicate_append_replicate]⟩

end ClientManager

namespace Sample

open ClientManager

def plainMembers : ClientMembers (Client × List Request) := Client.members fun _ => target .reply 0 0

/-- A client of the class `Client` under each id. -/
def plainClients (cid : UUID) : Client × List Request := (.new cid (fun _ => true) fun _ => false, [])

/-- A client is added, the timer runs out, and another client is added. -/
def arriving : List (Turn (Client × List Request)) :=
  [.start, .run, .serve, .handle 0, .addClient 7, .expire, .handle 0, .addClient 8]

theorem isSome_arriving :
    ((system plainMembers).play 0 arriving (some (new plainClients false false))).isSome = true := rfl

def arrived : ClientManager (Client × List Request) :=
  ((system plainMembers).play 0 arriving (some (new plainClients false false))).get isSome_arriving

theorem arrived_reachable : (system plainMembers).Reachable (some (new plainClients false false)) (some arrived) := by
  have hplayed : some arrived = (system plainMembers).play 0 arriving (some (new plainClients false false)) :=
    Option.some_get _
  rw [hplayed]
  exact Reactive.System.Run.play (n := 0) (fun _ => trivial) (fun _ _ _ => trivial) .start

/-- The first was connected by the check; the second is held, unchecked, until the end. -/
theorem arrived_unchecked : (arrived.states 7).1.status = .connected ∧ (arrived.states 8).1.status = .disconnected ∧
    ∀ y, (system plainMembers).Run Unasked (some arrived) (some y) → y.object.stage ≠ .ended → 8 ∈ y.clients := by
  obtain ⟨-, -, hspent, -⟩ := checked_once arrived_reachable
  exact ⟨rfl, rfl, fun y hy hend => (hspent ⟨rfl, rfl, rfl⟩ y hy 8).2 hend (by decide)⟩

end Sample

end LibWorkflow
