import LibWorkflow.Engine.Samples
import LibWorkflow.Service.ActiveObject
import LibWorkflow.Service.Client

/-!
# Actors

`service/actor.h`: a client that lives. A request that is sent to it is pushed to its mailbox by its own thread,
in one handler, and announced by `newRequestReceived`, in a second one; a request that it sends to itself from
there goes the same way at once. Each accepted request is in one place at any time, and announced once, until
the thread ends: what is sent to it later is accepted, and connecting it again says that it is connected, but no
request is ever pushed again (`mail_kept`).
-/

namespace LibWorkflow

open EventLoop

/-- The two handlers of `doSendRequest`. -/
inductive Errand where
  | push (req : Request)
  | notify

/-- What the thread of an actor does with requests: they are pushed, and `newRequestReceived` is called. -/
inductive Mail where
  | pushed (req : Request)
  | notified

namespace Errand

def pushed? : Errand → Option Request
  | .push req => some req
  | .notify => none

/-- `newRequestReceived` is to be called. -/
def notifies : Errand → Bool
  | .push _ => false
  | .notify => true

end Errand

namespace Mail

def pushed? : Mail → Option Request
  | .pushed req => some req
  | .notified => none

def notifies : Mail → Bool
  | .pushed _ => false
  | .notified => true

end Mail

/-- `Actor`, a client and an active object of one thread. `sending` is the number of calls of `doSendRequest`
between their two dispatches, `notifying` that of the calls of `newRequestReceived` the thread is in. Then what
happened so far, the oldest first: the requests it accepted, what its thread did with them, those taken from the
mailbox, and those handed to the controller manager. -/
structure Actor where
  client : Client
  object : ActiveObject Errand
  pendingRequests : List Request
  sending : ℕ
  notifying : ℕ
  accepted : List Request
  mail : List Mail
  dequeued : List Request
  handed : List Request

namespace Actor

/-- `Actor::Actor` with a delayed start. `canSendRequest` takes every request. -/
def new (clientId : UUID) (isReceivedRequestAllowed : Request → Bool) (hasStartFunction hasStopFunction : Bool) :
    Actor :=
  ⟨.new clientId isReceivedRequestAllowed fun _ => true, .new Errand 1 hasStartFunction hasStopFunction, [], 0, 0,
    [], [], [], []⟩

variable (x : Actor)

/-- `Client::setStatus`. -/
def setStatus (status : ClientStatus) (fresh : UUID → Target) : Actor :=
  let changed := x.client.setStatus status false fresh
  { x with client := changed.1, handed := x.handed ++ changed.2 }

/-- `connect`. -/
def connect (fresh : UUID → Target) : Actor :=
  { x with object := x.object.start }.setStatus .connected fresh

/-- `disconnect`, up to the joins of `terminate`. -/
def disconnect (fresh : UUID → Target) : Option Actor :=
  let x := x.setStatus .disconnected fresh
  x.object.stop.map fun object => { x with object := object }

/-- `sendRequest` of another thread, up to the first dispatch of `doSendRequest`. -/
def sendRequest (req : Request) : Option Actor :=
  match x.client.sendRequest req with
  | none => some x
  | some client => (x.object.post (.push req)).map fun object =>
      { x with client := client, object := object, sending := x.sending + 1, accepted := x.accepted ++ [req] }

def announce : Option Actor :=
  (x.object.post .notify).map fun object => { x with object := object, sending := x.sending - 1 }

/-- The two handlers of `doSendRequest`. -/
def push (req : Request) : Actor :=
  { x with pendingRequests := x.pendingRequests ++ [req], mail := x.mail ++ [.pushed req] }

def newRequestReceived : Actor := { x with notifying := x.notifying + 1, mail := x.mail ++ [.notified] }

/-- `sendRequest` of its own thread, in which a dispatch runs the handler. -/
def sendWithin (req : Request) : Actor :=
  match x.client.sendRequest req with
  | none => x
  | some client => ({ x with client := client, accepted := x.accepted ++ [req] }.push req).newRequestReceived

def handled : Handler Errand → Actor
  | .startPool => x
  | .given (.push req) => x.push req
  | .given .notify => x.newRequestReceived

/-- `dequeuePendingRequest`. -/
def dequeuePendingRequest : Actor :=
  match x.pendingRequests with
  | [] => x
  | req :: rest => { x with pendingRequests := rest, dequeued := x.dequeued ++ [req] }

/-- `publishRequest`, which is `receiveNewRequest`. -/
def publishRequest (req : Request) : Actor :=
  match x.client.receiveNewRequest req with
  | none => x
  | some (client, pushed) => { x with client := client, handed := x.handed ++ [pushed] }

/-- What a thread does next: any thread, or the actor's own, in `newRequestReceived` or outside of it. -/
inductive Turn where
  | start
  | connect (fresh : UUID → Target)
  | disconnect (fresh : UUID → Target)
  | sendRequest (req : Request)
  | announce
  | dequeuePendingRequest
  | publishRequest (req : Request)
  | run
  | serve
  | handle (i : ℕ)
  | sendWithin (req : Request)
  | returned
  | leave
  | close

/-- One turn, where it can be taken; `none` within is the end by a null pointer. -/
def turn : Turn → Option (Option Actor)
  | .start => some (some { x with object := x.object.start })
  | .connect fresh => some (some (x.connect fresh))
  | .disconnect fresh => some (x.disconnect fresh)
  | .sendRequest req => some (x.sendRequest req)
  | .announce => if 0 < x.sending then some x.announce else none
  | .dequeuePendingRequest => some (some x.dequeuePendingRequest)
  | .publishRequest req => some (some (x.publishRequest req))
  | .run => x.object.run.map fun object => some { x with object := object }
  | .serve => x.object.serve.map fun object => some { x with object := object }
  | .handle i =>
    if x.notifying = 0 then
      (x.object.handle i).map fun handled => some ({ x with object := handled.2 }.handled handled.1)
    else none
  | .sendWithin req => if 0 < x.notifying then some (some (x.sendWithin req)) else none
  | .returned => if 0 < x.notifying then some (some { x with notifying := x.notifying - 1 }) else none
  | .leave => if x.notifying = 0 then x.object.leave.map fun object => some { x with object := object } else none
  | .close => x.object.close.map fun object => some { x with object := object }

def system : Reactive.System (Option Actor) Turn where
  next _ := none
  accept x turn := x.bind (·.turn turn)

def unpushed : List Request := x.object.awaiting.filterMap Errand.pushed?

/-! ### One turn -/

theorem canSendRequest_of_sendRequest {c c' : Client} {req : Request} (h : c.sendRequest req = some c') :
    c'.canSendRequest = c.canSendRequest := by
  unfold Client.sendRequest at h
  split_ifs at h <;> cases h <;> rfl

theorem exists_sent {c : Client} {req : Request} (h : c.canSendRequest req = true) :
    ∃ c', c.sendRequest req = some c' := by
  unfold Client.sendRequest
  rw [if_pos h]
  split_ifs <;> exact ⟨_, rfl⟩

theorem canSendRequest_of_receiveNewRequest {c c' : Client} {req pushed : Request}
    (h : c.receiveNewRequest req = some (c', pushed)) : c'.canSendRequest = c.canSendRequest := by
  unfold Client.receiveNewRequest at h
  split_ifs at h <;> cases h <;> rfl

theorem canSendRequest_setStatus (c : Client) (status : ClientStatus) (force : Bool) (fresh : UUID → Target) :
    (c.setStatus status force fresh).1.canSendRequest = c.canSendRequest := by
  unfold Client.setStatus
  split_ifs <;> rfl

/-- What a turn does. -/
inductive Moved (x : Actor) : Turn → Actor → Prop
  | aside {t : Turn} {client : Client} {object : ActiveObject Errand} {handed : List Request}
      (hclient : client.canSendRequest = x.client.canSendRequest)
      (h : object = x.object ∨ ∃ turn, turn.Quiet ∧ x.object.Turned turn object)
      (hserving : object.stage ≠ .serving → x.object.stage = .serving → x.notifying = 0) :
      Moved x t { x with client := client, object := object, handed := handed }
  | sent {req : Request} {client : Client} {object : ActiveObject Errand}
      (hclient : client.canSendRequest = x.client.canSendRequest) (h : x.object.post (.push req) = some object) :
      Moved x (.sendRequest req)
        { x with client := client, object := object, sending := x.sending + 1, accepted := x.accepted ++ [req] }
  | announced {object : ActiveObject Errand} (hsending : 0 < x.sending) (h : x.object.post .notify = some object) :
      Moved x .announce { x with object := object, sending := x.sending - 1 }
  | handled {i : ℕ} {handler : Handler Errand} {object : ActiveObject Errand} (hfree : x.notifying = 0)
      (h : x.object.handle i = some (handler, object)) :
      Moved x (.handle i) ({ x with object := object }.handled handler)
  | within {req : Request} {client : Client} (hclient : client.canSendRequest = x.client.canSendRequest)
      (hnotifying : 0 < x.notifying) :
      Moved x (.sendWithin req)
        ({ x with client := client, accepted := x.accepted ++ [req] }.push req).newRequestReceived
  | returned (hnotifying : 0 < x.notifying) : Moved x .returned { x with notifying := x.notifying - 1 }
  | dequeued {req : Request} {rest : List Request} (h : x.pendingRequests = req :: rest) :
      Moved x .dequeuePendingRequest { x with pendingRequests := rest, dequeued := x.dequeued ++ [req] }

variable {x} {x' y : Actor} {t : Turn}

theorem moved_of_turn (hx : x.object.Sound) (h : x.turn t = some (some x')) : x.Moved t x' := by
  have hobject : ∀ (turn : ActiveObject.Turn Errand) {client : Client} {object : ActiveObject Errand}
      {handed : List Request}, x.object.turn turn = some (some object) → turn.Quiet → turn ≠ .leave →
        client.canSendRequest = x.client.canSendRequest →
          x.Moved t { x with client := client, object := object, handed := handed } :=
    fun turn _ _ _ hturn hquiet hleave hclient =>
      .aside hclient (.inr ⟨turn, hquiet, ActiveObject.turned_of_turn hturn⟩) fun hnot hstage =>
        absurd ((ActiveObject.turned_of_turn hturn).serving hx hleave hstage) hnot
  have hclient : ∀ {client : Client} {handed : List Request}, client.canSendRequest = x.client.canSendRequest →
      x.Moved t { x with client := client, handed := handed } :=
    fun hclient => .aside hclient (.inl rfl) fun hnot hstage => absurd hstage hnot
  cases t with
  | start =>
    cases h
    exact hobject .start rfl trivial (by simp) rfl
  | connect fresh =>
    cases h
    exact hobject .start rfl trivial (by simp) (canSendRequest_setStatus ..)
  | disconnect fresh =>
    obtain ⟨object, hstop, rfl⟩ := Option.map_eq_some_iff.mp (Option.some.inj h)
    exact hobject .stop (congrArg some hstop) trivial (by simp) (canSendRequest_setStatus ..)
  | sendRequest req =>
    replace h := Option.some.inj h
    unfold sendRequest at h
    split at h
    · cases h
      exact hclient rfl
    · rename_i hsent
      obtain ⟨object, hpost, rfl⟩ := Option.map_eq_some_iff.mp h
      exact .sent (canSendRequest_of_sendRequest hsent) hpost
  | announce =>
    obtain ⟨hsending, h⟩ := Option.ite_none_right_eq_some.mp h
    obtain ⟨object, hpost, rfl⟩ := Option.map_eq_some_iff.mp (Option.some.inj h)
    exact .announced hsending hpost
  | dequeuePendingRequest =>
    cases h
    unfold dequeuePendingRequest
    split
    · exact hclient rfl
    · rename_i hpending
      exact .dequeued hpending
  | publishRequest req =>
    cases h
    unfold publishRequest
    split
    · exact hclient rfl
    · rename_i hreceived
      exact hclient (canSendRequest_of_receiveNewRequest hreceived)
  | run =>
    obtain ⟨object, hrun, hx'⟩ := Option.map_eq_some_iff.mp h
    cases hx'
    exact hobject .run (Option.map_eq_some_iff.mpr ⟨object, hrun, rfl⟩) trivial (by simp) rfl
  | serve =>
    obtain ⟨object, hserve, hx'⟩ := Option.map_eq_some_iff.mp h
    cases hx'
    exact hobject .serve (Option.map_eq_some_iff.mpr ⟨object, hserve, rfl⟩) trivial (by simp) rfl
  | handle i =>
    obtain ⟨hfree, h⟩ := Option.ite_none_right_eq_some.mp h
    obtain ⟨⟨handler, object⟩, hhandle, hx'⟩ := Option.map_eq_some_iff.mp h
    cases hx'
    exact .handled hfree hhandle
  | sendWithin req =>
    obtain ⟨hnotifying, h⟩ := Option.ite_none_right_eq_some.mp h
    cases h
    unfold sendWithin
    split
    · exact hclient rfl
    · rename_i hsent
      exact .within (canSendRequest_of_sendRequest hsent) hnotifying
  | returned =>
    obtain ⟨hnotifying, h⟩ := Option.ite_none_right_eq_some.mp h
    cases h
    exact .returned hnotifying
  | leave =>
    obtain ⟨hfree, h⟩ := Option.ite_none_right_eq_some.mp h
    obtain ⟨object, hleave, hx'⟩ := Option.map_eq_some_iff.mp h
    cases hx'
    refine .aside rfl (.inr ⟨.leave, trivial, ActiveObject.turned_of_turn ?_⟩) fun _ _ => hfree
    exact Option.map_eq_some_iff.mpr ⟨object, hleave, rfl⟩
  | close =>
    obtain ⟨object, hclose, hx'⟩ := Option.map_eq_some_iff.mp h
    cases hx'
    exact hobject .close (Option.map_eq_some_iff.mpr ⟨object, hclose, rfl⟩) trivial (by simp) rfl

/-! ### The mailbox -/

/-- What holds of an actor at any time. The requests that were pushed are those taken from the mailbox and those
in it, in order; each that was accepted was pushed or waits for it, and is announced once. -/
structure Kept (x : Actor) : Prop where
  takes : ∀ req, x.client.canSendRequest req = true
  sound : x.object.Sound
  single : x.object.threadPool ≤ 1 ∧ x.object.pooled = 0
  free : x.object.stage ≠ .serving → x.notifying = 0
  mailbox : x.mail.filterMap Mail.pushed? = x.dequeued ++ x.pendingRequests
  accepted : x.accepted.Perm (x.mail.filterMap Mail.pushed? ++ x.unpushed)
  announced : x.accepted.length = x.mail.countP Mail.notifies + x.object.awaiting.countP Errand.notifies + x.sending

theorem kept_new (clientId : UUID) (isReceivedRequestAllowed : Request → Bool)
    (hasStartFunction hasStopFunction : Bool) :
    (new clientId isReceivedRequestAllowed hasStartFunction hasStopFunction).Kept :=
  ⟨fun _ => rfl, ActiveObject.sound_new .., ⟨le_rfl, rfl⟩, fun _ => rfl, rfl, .nil, rfl⟩

theorem Kept.turned (hx : x.Kept) {turn : ActiveObject.Turn Errand} {object : ActiveObject Errand}
    (h : x.object.Turned turn object) : object.Sound ∧ object.threadPool ≤ 1 ∧ object.pooled = 0 :=
  ⟨h.sound hx.sound fun _ => hx.single.2, h.pooled_eq_zero hx.sound hx.single.1 hx.single.2⟩

theorem Kept.free_of_turned (hx : x.Kept) {turn : ActiveObject.Turn Errand} {object : ActiveObject Errand}
    (h : x.object.Turned turn object) (hleave : turn ≠ .leave) (hstage : object.stage ≠ .serving) :
    x.notifying = 0 := hx.free fun heq => hstage (h.serving hx.sound hleave heq)

theorem Kept.serving_of_handle (hx : x.Kept) {i : ℕ} {handler : Handler Errand} {object : ActiveObject Errand}
    (h : x.object.handle i = some (handler, object)) : object.stage = .serving := by
  have hturned := ActiveObject.turned_of_handle h
  refine hturned.serving hx.sound (by simp) ?_
  cases hturned with
  | handle _ _ _ hserved => exact hserved.resolve_right (by simp [hx.single.2])

theorem Kept.handled {handler : Handler Errand} {object : ActiveObject Errand} {pre post : List Errand}
    (hx : x.Kept) (hobject : object.Sound ∧ object.threadPool ≤ 1 ∧ object.pooled = 0)
    (hserving : object.stage = .serving) (hbefore : x.object.awaiting = pre ++ handler.given?.toList ++ post)
    (hafter : object.awaiting = pre ++ post) : Kept ({ x with object := object }.handled handler) := by
  have haccepted := hx.accepted
  have hcount := hx.announced
  unfold unpushed at haccepted
  rw [hbefore, List.filterMap_append, List.filterMap_append] at haccepted
  rw [hbefore, List.countP_append, List.countP_append] at hcount
  match handler with
  | .startPool =>
    refine ⟨hx.takes, hobject.1, hobject.2, fun hnot => absurd hserving hnot, hx.mailbox, ?_, ?_⟩
    · simpa [Actor.handled, unpushed, hafter, Handler.given?] using haccepted
    · simpa [Actor.handled, hafter, Handler.given?] using hcount
  | .given (.push req) =>
    refine ⟨hx.takes, hobject.1, hobject.2, fun hnot => absurd hserving hnot, ?_, ?_, ?_⟩
    · simp [Actor.handled, push, Mail.pushed?, hx.mailbox]
    · have hmoved : (List.filterMap Errand.pushed? pre ++ [req] ++ List.filterMap Errand.pushed? post).Perm
          ([req] ++ (List.filterMap Errand.pushed? pre ++ List.filterMap Errand.pushed? post)) := by
        rw [← List.append_assoc]
        exact List.perm_append_comm.append_right _
      simpa [Actor.handled, push, unpushed, hafter, Mail.pushed?] using
        haccepted.trans (hmoved.append_left _)
    · simpa [Actor.handled, push, hafter, Handler.given?, Errand.notifies, Mail.notifies] using hcount
  | .given .notify =>
    refine ⟨hx.takes, hobject.1, hobject.2, fun hnot => absurd hserving hnot, ?_, ?_, ?_⟩
    · simp [Actor.handled, newRequestReceived, Mail.pushed?, hx.mailbox]
    · simpa [Actor.handled, newRequestReceived, unpushed, hafter, List.filterMap_cons, Mail.pushed?, Handler.given?,
        Errand.pushed?] using haccepted
    · simp [Actor.handled, newRequestReceived, hafter, Handler.given?, Errand.notifies, Mail.notifies] at hcount ⊢
      omega

theorem Moved.kept (h : x.Moved t x') (hx : x.Kept) : x'.Kept := by
  cases h with
  | @aside t client object handed hclient h hserving =>
    have htakes : ∀ req, client.canSendRequest req = true := fun req => (congrFun hclient req).trans (hx.takes req)
    rcases h with rfl | ⟨turn, hquiet, hturned⟩
    · exact ⟨htakes, hx.sound, hx.single, hx.free, hx.mailbox, hx.accepted, hx.announced⟩
    · have hsame := hturned.awaiting_of_quiet hx.sound hquiet
      obtain ⟨hsound, hsingle⟩ := hx.turned hturned
      refine ⟨htakes, hsound, hsingle, fun hnot => ?_, hx.mailbox, ?_, ?_⟩
      · by_cases hstage : x.object.stage = .serving
        · exact hserving hnot hstage
        · exact hx.free hstage
      · unfold unpushed
        rw [hsame]
        exact hx.accepted
      · rw [hsame]
        exact hx.announced
  | @sent req client object hclient h =>
    have hturned := ActiveObject.turned_of_post h
    have hposted := ActiveObject.awaiting_of_post h
    obtain ⟨hsound, hsingle⟩ := hx.turned hturned
    refine ⟨fun req => (congrFun hclient req).trans (hx.takes req), hsound, hsingle,
      hx.free_of_turned hturned (by simp), hx.mailbox, ?_, ?_⟩
    · unfold unpushed
      rw [hposted, List.filterMap_append, ← List.append_assoc]
      exact hx.accepted.append_right [req]
    · have hcount := hx.announced
      simp only [hposted, List.countP_append, List.length_append, List.countP_singleton, Errand.notifies,
        List.length_singleton]
      simp
      omega
  | @announced object hsending h =>
    have hturned := ActiveObject.turned_of_post h
    have hposted := ActiveObject.awaiting_of_post h
    obtain ⟨hsound, hsingle⟩ := hx.turned hturned
    refine ⟨hx.takes, hsound, hsingle, hx.free_of_turned hturned (by simp), hx.mailbox, ?_, ?_⟩
    · unfold unpushed
      rw [hposted, List.filterMap_append]
      exact (List.append_nil x.unpushed).symm ▸ hx.accepted
    · have hcount := hx.announced
      simp [hposted, List.countP_append, Errand.notifies]
      omega
  | @handled i handler object hfree h =>
    obtain ⟨pre, post, hbefore, hafter, -⟩ := ActiveObject.awaiting_of_handle h
    exact hx.handled (hx.turned (ActiveObject.turned_of_handle h)) (hx.serving_of_handle h) hbefore hafter
  | @within req client hclient hnotifying =>
    -- only the thread of the object is in `newRequestReceived`, where `dispatch` runs at once
    have hserving : x.object.stage = .serving := by
      by_contra hnot
      exact absurd (hx.free hnot) (Nat.ne_of_gt hnotifying)
    refine ⟨fun req => (congrFun hclient req).trans (hx.takes req), hx.sound, hx.single,
      fun hnot => absurd hserving hnot, ?_, ?_, ?_⟩
    · simp [newRequestReceived, push, Mail.pushed?, hx.mailbox]
    · have hmoved : (x.unpushed ++ [req]).Perm ([req] ++ x.unpushed) := List.perm_append_comm
      have haccepted := (hx.accepted.append_right [req]).trans
        ((List.append_assoc _ _ _).symm ▸ hmoved.append_left (x.mail.filterMap Mail.pushed?))
      simpa [newRequestReceived, push, List.filterMap_cons, Mail.pushed?, unpushed] using haccepted
    · have hcount := hx.announced
      simp [newRequestReceived, push, Mail.notifies]
      omega
  | returned hnotifying =>
    exact ⟨hx.takes, hx.sound, hx.single, fun hnot => by simp [hx.free hnot], hx.mailbox, hx.accepted, hx.announced⟩
  | dequeued h =>
    refine ⟨hx.takes, hx.sound, hx.single, hx.free, ?_, hx.accepted, hx.announced⟩
    rw [hx.mailbox, h]
    simp

/-! ### Whole runs -/

variable {o o' : Option Actor} {clientId : UUID} {isReceivedRequestAllowed : Request → Bool}
  {hasStartFunction hasStopFunction : Bool} {guard : Option Actor → Option Turn → Prop}

theorem exists_moved {label : Option Turn} (h : system.Trans o label o') (ho : ∀ before ∈ o, before.Kept)
    (hy : o' = some y) : ∃ x t, o = some x ∧ label = some t ∧ x.Kept ∧ x.Moved t y := by
  cases h with
  | internal hnext => cases hnext
  | @input _ t haccept =>
    obtain ⟨x, rfl, hturn⟩ := Option.bind_eq_some_iff.mp haccept
    have hx := ho x rfl
    exact ⟨x, t, rfl, rfl, hx, moved_of_turn hx.sound (hturn.trans (congrArg some hy))⟩

theorem run_induction {P : Actor → Prop} (hx : x.Kept) (hstart : P x)
    (hstep : ∀ c t c', c.Kept → P c → guard (some c) (some t) → c.Moved t c' → P c')
    (hrun : system.Run guard (some x) (some y)) : y.Kept ∧ P y := by
  refine hrun.invariant (I := fun o => ∀ c ∈ o, c.Kept ∧ P c) ?_ ?_ y rfl
  · rintro _ ⟨⟩
    exact ⟨hx, hstart⟩
  · rintro o label o' ho hguard htrans c' hc'
    obtain ⟨c, t, rfl, rfl, hkept, hmoved⟩ := exists_moved htrans (fun c hc => (ho c hc).1) hc'
    exact ⟨hmoved.kept hkept, hstep c t c' hkept (ho c rfl).2 hguard hmoved⟩

/-- Once its thread has ended nothing is pushed any more. -/
theorem mail_of_ended (hx : x.Kept) (hended : x.object.stage = .ended)
    (hrun : system.Reachable (some x) (some y)) :
    y.mail = x.mail ∧ ∃ later, y.accepted = x.accepted ++ later := by
  have hlast := run_induction (P := fun c => c.object.stage = .ended ∧ c.mail = x.mail ∧
    ∃ later, c.accepted = x.accepted ++ later) hx ⟨hended, rfl, [], (List.append_nil _).symm⟩ ?_ hrun
  · exact hlast.2.2
  · rintro c t c' hc ⟨hstage, hmail, later, haccepted⟩ - hmoved
    have hkeeps : ∀ {turn : ActiveObject.Turn Errand} {object : ActiveObject Errand},
        c.object.Turned turn object → object.stage = .ended := fun h => h.ended hc.sound hstage
    have hfree : c.notifying = 0 := hc.free (by simp [hstage])
    cases hmoved with
    | aside _ h =>
      rcases h with rfl | ⟨turn, -, hturned⟩
      · exact ⟨hstage, hmail, later, haccepted⟩
      · exact ⟨hkeeps hturned, hmail, later, haccepted⟩
    | @sent req _ _ _ h =>
      refine ⟨hkeeps (ActiveObject.turned_of_turn (t := .post _) (congrArg some h)), hmail, later ++ [req], ?_⟩
      rw [← List.append_assoc, ← haccepted]
    | announced _ h =>
      exact ⟨hkeeps (ActiveObject.turned_of_post h), hmail, later, haccepted⟩
    | handled _ h =>
      exact absurd ((hkeeps (ActiveObject.turned_of_handle h)).symm.trans (hc.serving_of_handle h)) (by simp)
    | within _ h | returned h => exact absurd hfree (Nat.ne_of_gt h)
    | dequeued => exact ⟨hstage, hmail, later, haccepted⟩

theorem kept_of_run (hrun : system.Reachable
    (some (new clientId isReceivedRequestAllowed hasStartFunction hasStopFunction)) (some x)) : x.Kept :=
  (run_induction (P := fun _ => True) (kept_new ..) trivial (fun _ _ _ _ _ _ _ => trivial) hrun).1

/-- **The mail of an actor.** However the threads take turns, the requests that were taken from the mailbox and
those in it are those that were pushed, in this order; each accepted request was pushed or waits for it, and
`newRequestReceived` is called, or to be called, once for each. Once its thread has ended the actor accepts every
request as before, and whatever is done, connecting it included, none of them is pushed. -/
theorem mail_kept (hrun : system.Reachable
    (some (new clientId isReceivedRequestAllowed hasStartFunction hasStopFunction)) (some x)) :
    x.mail.filterMap Mail.pushed? = x.dequeued ++ x.pendingRequests ∧
      x.accepted.Perm (x.dequeued ++ x.pendingRequests ++ x.unpushed) ∧
      x.accepted.length =
        x.mail.countP Mail.notifies + x.object.awaiting.countP Errand.notifies + x.sending ∧
      (x.object.stage = .ended →
        (∀ req, ∃ x', x.turn (.sendRequest req) = some (some x') ∧ x'.accepted = x.accepted ++ [req]) ∧
        ∀ y, system.Reachable (some x) (some y) → y.mail = x.mail ∧
          ∃ later, y.accepted = x.accepted ++ later ∧ y.unpushed.Perm (x.unpushed ++ later)) := by
  have hx := kept_of_run hrun
  have hmailbox := hx.mailbox ▸ hx.accepted
  refine ⟨hx.mailbox, hmailbox, hx.announced, fun hended => ⟨fun req => ?_, fun y hy => ?_⟩⟩
  · obtain ⟨client, hsent⟩ := exists_sent (hx.takes req)
    obtain ⟨loop, hloop⟩ := Option.ne_none_iff_exists'.mp (mt hx.sound.service.mp (by simp [hended]))
    have hpost : x.object.post (.push req) = some { x.object with service := some (loop.post (.given (.push req))) } :=
      Option.map_eq_some_iff.mpr ⟨loop, hloop, rfl⟩
    refine ⟨{ x with
      client := client
      object := { x.object with service := some (loop.post (.given (.push req))) }
      sending := x.sending + 1
      accepted := x.accepted ++ [req] }, congrArg some ?_, rfl⟩
    unfold sendRequest
    rw [hsent, hpost]
    rfl
  · obtain ⟨hmail, later, haccepted⟩ := mail_of_ended hx hended hy
    have hykept := kept_of_run (hrun.trans hy)
    have hperm := hykept.accepted
    rw [hmail, haccepted] at hperm
    have hunpushed := hperm.symm.trans (hx.accepted.append_right later)
    rw [List.append_assoc] at hunpushed
    exact ⟨hmail, later, haccepted, (List.perm_append_left_iff _).mp hunpushed⟩

/-! ### Handlers that come in turn -/

def InTurn (_ : Option Actor) (label : Option Turn) : Prop := ∀ i, label = some (.handle i) → i = 0

/-- No request is sent from within `newRequestReceived`. -/
def Outside (label : Option Turn) : Prop := ∀ req, label ≠ some (.sendWithin req)

/-- Of each end of the list of signs, but for `n` of them, each push is followed by a notice. -/
def Followed (n : ℕ) : List Bool → Prop
  | [] => True
  | sign :: rest => (sign :: rest).count false ≤ (sign :: rest).count true + n ∧ Followed n rest

theorem Followed.count {n : ℕ} {signs : List Bool} (h : Followed n signs) :
    signs.count false ≤ signs.count true + n := by
  cases signs with
  | nil => exact Nat.zero_le _
  | cons sign rest => exact h.1

theorem Followed.of_append {n : ℕ} {pre post : List Bool} (h : Followed n (pre ++ post)) : Followed n post := by
  induction pre with
  | nil => exact h
  | cons sign pre ih => exact ih h.2

theorem Followed.push {n : ℕ} {signs : List Bool} (h : Followed n signs) : Followed (n + 1) (signs ++ [false]) := by
  induction signs with
  | nil => exact ⟨by simp, trivial⟩
  | cons sign rest ih =>
    refine ⟨?_, ih h.2⟩
    show ((sign :: rest) ++ [false]).count false ≤ ((sign :: rest) ++ [false]).count true + (n + 1)
    rw [List.count_append, List.count_append]
    exact Nat.add_le_add_right h.1 1

theorem Followed.notify {n : ℕ} {signs : List Bool} (h : Followed (n + 1) signs) : Followed n (signs ++ [true]) := by
  induction signs with
  | nil => exact ⟨by simp, trivial⟩
  | cons sign rest ih =>
    refine ⟨?_, ih h.2⟩
    show ((sign :: rest) ++ [true]).count false ≤ ((sign :: rest) ++ [true]).count true + n
    rw [List.count_append, List.count_append]
    exact h.1.trans (Nat.add_right_comm _ n 1).le

theorem Followed.insert {n : ℕ} {pre post : List Bool} (h : Followed n (pre ++ post)) :
    Followed n (pre ++ [false, true] ++ post) := by
  induction pre with
  | nil =>
    have hcount := Followed.count h
    refine ⟨?_, ?_, h⟩ <;> simp at hcount ⊢ <;> omega
  | cons sign pre ih =>
    refine ⟨?_, ih h.2⟩
    have hcount : ((sign :: pre) ++ post).count false ≤ ((sign :: pre) ++ post).count true + n := h.1
    show ((sign :: pre) ++ [false, true] ++ post).count false ≤ ((sign :: pre) ++ [false, true] ++ post).count true + n
    rw [List.count_append, List.count_append] at hcount
    rw [List.count_append, List.count_append, List.count_append, List.count_append]
    show (sign :: pre).count false + 1 + post.count false ≤ (sign :: pre).count true + 1 + post.count true + n
    omega

/-- What its thread did with requests and is still to do, by its signs. -/
def signs (x : Actor) : List Bool := x.mail.map Mail.notifies ++ x.object.awaiting.map Errand.notifies

theorem Moved.signs (h : x.Moved t x') (hx : x.Kept) (hturn : ∀ i, t = .handle i → i = 0)
    (hsigns : Followed x.sending x.signs) : Followed x'.sending x'.signs := by
  unfold Actor.signs at hsigns ⊢
  cases h with
  | aside _ h =>
    rcases h with rfl | ⟨turn, hquiet, hturned⟩
    · exact hsigns
    · dsimp only
      rw [hturned.awaiting_of_quiet hx.sound hquiet]
      exact hsigns
  | sent _ h =>
    rw [ActiveObject.awaiting_of_post h, List.map_append, ← List.append_assoc]
    exact hsigns.push
  | announced hsending h =>
    rw [ActiveObject.awaiting_of_post h, List.map_append, ← List.append_assoc]
    obtain ⟨n, hn⟩ := Nat.exists_eq_add_of_lt hsending
    simp only [hn] at hsigns ⊢
    exact Followed.notify (by simpa using hsigns)
  | @handled i handler object _ h =>
    -- the first that waits is taken, so that the order stays
    obtain ⟨pre, post, hbefore, hafter, hpre⟩ := ActiveObject.awaiting_of_handle h
    obtain rfl := hpre (hturn _ rfl)
    rw [hbefore] at hsigns
    match handler with
    | .startPool =>
      show Followed x.sending (x.mail.map Mail.notifies ++ object.awaiting.map Errand.notifies)
      rw [hafter]
      exact hsigns
    | .given (.push req) =>
      show Followed x.sending ((x.mail ++ [Mail.pushed req]).map Mail.notifies ++ object.awaiting.map Errand.notifies)
      rw [hafter, List.map_append, List.append_assoc]
      exact hsigns
    | .given .notify =>
      show Followed x.sending ((x.mail ++ [Mail.notified]).map Mail.notifies ++ object.awaiting.map Errand.notifies)
      rw [hafter, List.map_append, List.append_assoc]
      exact hsigns
  | @within req =>
    show Followed x.sending
      ((x.mail ++ [Mail.pushed req] ++ [Mail.notified]).map Mail.notifies ++ x.object.awaiting.map Errand.notifies)
    rw [List.map_append, List.map_append, List.append_assoc (x.mail.map Mail.notifies)]
    exact hsigns.insert
  | returned | dequeued => exact hsigns

theorem Moved.inTurn (h : x.Moved t x') (hx : x.Kept) (hturn : ∀ i, t = .handle i → i = 0)
    (houtside : ∀ req, t ≠ .sendWithin req)
    (haccepted : x.accepted = x.mail.filterMap Mail.pushed? ++ x.unpushed) :
    x'.accepted = x'.mail.filterMap Mail.pushed? ++ x'.unpushed := by
  unfold unpushed at haccepted ⊢
  cases h with
  | aside _ h =>
    rcases h with rfl | ⟨turn, hquiet, hturned⟩
    · exact haccepted
    · dsimp only
      rw [hturned.awaiting_of_quiet hx.sound hquiet]
      exact haccepted
  | sent _ h =>
    rw [ActiveObject.awaiting_of_post h, List.filterMap_append, ← List.append_assoc, ← haccepted]
    rfl
  | announced _ h =>
    rw [ActiveObject.awaiting_of_post h, List.filterMap_append]
    exact haccepted.trans (congrArg (_ ++ ·) (List.append_nil _).symm)
  | @handled i handler object _ h =>
    obtain ⟨pre, post, hbefore, hafter, hpre⟩ := ActiveObject.awaiting_of_handle h
    obtain rfl := hpre (hturn _ rfl)
    rw [hbefore] at haccepted
    match handler with
    | .startPool =>
      show x.accepted = x.mail.filterMap Mail.pushed? ++ object.awaiting.filterMap Errand.pushed?
      rw [hafter]
      exact haccepted
    | .given (.push req) =>
      show x.accepted =
        (x.mail ++ [Mail.pushed req]).filterMap Mail.pushed? ++ object.awaiting.filterMap Errand.pushed?
      rw [hafter, List.filterMap_append, List.append_assoc]
      exact haccepted
    | .given .notify =>
      show x.accepted = (x.mail ++ [Mail.notified]).filterMap Mail.pushed? ++ object.awaiting.filterMap Errand.pushed?
      rw [hafter, List.filterMap_append, List.append_assoc]
      exact haccepted
  | within => exact absurd rfl (houtside _)
  | returned | dequeued => exact haccepted

/-- **Mail in turn.** Where the loop runs its handlers in the order they were posted in, no wake-up is lost: when
nothing waits and no call of `doSendRequest` is under way, `newRequestReceived` was called after the last push.
Where moreover nothing is sent from within it, the requests are pushed in the order they were accepted in. -/
theorem served_in_turn (hrun : system.Run InTurn
    (some (new clientId isReceivedRequestAllowed hasStartFunction hasStopFunction)) (some x)) :
    (x.sending = 0 → x.object.awaiting = [] → ∀ pre req, x.mail ≠ pre ++ [.pushed req]) ∧
      (system.Run (fun o label => InTurn o label ∧ Outside label)
          (some (new clientId isReceivedRequestAllowed hasStartFunction hasStopFunction)) (some x) →
        x.accepted = x.dequeued ++ x.pendingRequests ++ x.unpushed) := by
  refine ⟨fun hsending hawaiting pre req hmail => ?_, fun hrun => ?_⟩
  · have hsigns := (run_induction (P := fun c => Followed c.sending c.signs) (kept_new ..) trivial
      (fun c t c' hc hsigns hguard h => h.signs hc (fun i hi => hguard i (congrArg some hi)) hsigns) hrun).2
    unfold signs at hsigns
    rw [hsending, hawaiting, hmail, List.map_nil, List.append_nil, List.map_append] at hsigns
    have hlast : Followed 0 [false] := Followed.of_append hsigns
    exact absurd hlast.1 (by decide)
  · obtain ⟨hx, haccepted⟩ := run_induction
      (P := fun c => c.accepted = c.mail.filterMap Mail.pushed? ++ c.unpushed) (kept_new ..) rfl
      (fun c t c' hc haccepted hguard h => h.inTurn hc (fun i hi => hguard.1 i (congrArg some hi))
        (fun req heq => hguard.2 req (congrArg some heq)) haccepted) hrun
    rw [haccepted, hx.mailbox]

end Actor

namespace Sample

open Actor

def author : Actor := .new 7 (fun _ => true) false false

/-- It is sent two requests, of which its thread has taken the first when it is disconnected; then it is connected
again. -/
def sending : List Turn :=
  [.start, .run, .serve, .handle 0, .connect fun _ => target .reply 0 0, .sendRequest (request .defaultAction 0 0),
    .announce, .handle 0, .handle 0, .dequeuePendingRequest, .returned, .sendRequest (request .defaultAction 1 0),
    .disconnect fun _ => target .reply 0 0, .leave, .close, .connect fun _ => target .reply 0 0]

theorem isSome_sending : (system.play 0 sending (some author)).isSome = true := rfl

def reconnected : Actor := (system.play 0 sending (some author)).get isSome_sending

theorem reconnected_inTurn :
    system.Run (fun o label => InTurn o label ∧ Outside label) (some author) (some reconnected) := by
  have hplayed : some reconnected = system.play 0 sending (some author) := Option.some_get _
  rw [hplayed]
  refine Reactive.System.Run.play (n := 0) (fun _ => ⟨fun _ h => (nomatch h), fun _ h => (nomatch h)⟩)
    (fun _ turn hturn => ⟨fun i hi => ?_, fun req hreq => ?_⟩) .start
  · cases hi
    simpa [sending] using hturn
  · cases hreq
    simp [sending] at hturn

/-- It is connected, but of its mail nothing changes any more. -/
theorem reconnected_mail : reconnected.client.status = .connected ∧
    ∀ y, system.Reachable (some reconnected) (some y) → y.mail = [.pushed (request .defaultAction 0 0), .notified] := by
  obtain ⟨-, -, -, hended⟩ := mail_kept (reconnected_inTurn.mono fun _ _ _ => trivial)
  exact ⟨rfl, fun y hy => ((hended rfl).2 y hy).1⟩

/-- What was sent to it was pushed in turn, or waits. -/
theorem reconnected_served :
    reconnected.accepted = reconnected.dequeued ++ reconnected.pendingRequests ++ reconnected.unpushed :=
  (served_in_turn (reconnected_inTurn.mono fun _ _ h => h.1)).2 reconnected_inTurn

end Sample

end LibWorkflow
