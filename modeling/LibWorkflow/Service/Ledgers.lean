import LibWorkflow.Engine.Samples
import LibWorkflow.Service.Client

/-!
# The ledgers of a client

What should be in the ledgers follows from the accepted calls: a request comes in when it is received or
sent, and goes out when its answer is. `OpenReceived` and `OpenSent` say so, over the calls made so far;
`Exact` compares the ledgers with them. A call keeps the ledgers exact if and only if it is `Kept`
(`exact_perform_iff`): the code looks an answer up by the identifier of the reply of its request, which
need not be the one the request is stored under; it takes no Error for an answer; and it stores a received
request only if its reply target is Reply before it is made one.
-/

namespace LibWorkflow

open Ordered

/-- An accepted call, or one that may be. -/
inductive ClientCall where
  | receive (req : Request)
  | send (req : Request)

/-- The request is an answer, not a new request. -/
def Request.IsAnswer (req : Request) : Prop := req.target.target = .reply ∨ req.target.target = .error

/-- `answer` is what `createReply` makes of `request`, with target Reply or Error; of its reply the side
that answers may have set the client id. -/
structure Request.Answers (answer request : Request) : Prop where
  kind : answer.IsAnswer
  target : answer.target = { request.createReply.target with
    clientId := answer.target.clientId, target := answer.target.target }
  reply : answer.reply = request.createReply.reply
  requestId : answer.requestId = request.createReply.requestId

namespace Client

def perform (c : Client) : ClientCall → Option Client
  | .receive req => (c.receiveNewRequest req).map Prod.fst
  | .send req => c.sendRequest req

/-- From `start` some calls, the last one first, lead to a client; each is accepted, and meets `guard` in
the state before it. -/
inductive Performs (guard : Client → ClientCall → Prop) (start : Client) : List ClientCall → Client → Prop
  | start : Performs guard start [] start
  | call {calls : List ClientCall} {c c' : Client} (h : Performs guard start calls c) {call : ClientCall}
      (hguard : guard c call) (hcall : c.perform call = some c') : Performs guard start (call :: calls) c'

/-! ### What should be in the ledgers -/

/-- The request was received, expects a reply, and its answer was not sent since: as the client keeps it,
with its own client id. -/
def OpenReceived (clientId : UUID) : List ClientCall → Request → Prop
  | [], _ => False
  | .receive req :: calls, r =>
    r = doReceiveRequest clientId req ∧ ¬req.IsAnswer ∧ req.reply.target ≠ .noReply ∨
      OpenReceived clientId calls r
  | .send req :: calls, r => OpenReceived clientId calls r ∧ ¬req.Answers r

/-- The request was sent, expects a reply, and its answer was not received since. -/
def OpenSent : List ClientCall → Request → Prop
  | [], _ => False
  | .receive req :: calls, r => OpenSent calls r ∧ ¬req.Answers r
  | .send req :: calls, r =>
    r = req ∧ req.target.target = .defaultAction ∧ req.reply.target ≠ .noReply ∨ OpenSent calls r

/-- The ledgers hold the open requests. -/
structure Exact (c : Client) (calls : List ClientCall) : Prop where
  received : ∀ r, c.receivedRequests.Holds r ↔ OpenReceived c.clientId calls r
  sent : ∀ r, c.sentRequests.Holds r ↔ OpenSent calls r

/-- A transition to Disconnected interrupts the open requests, and nothing else. -/
def InterruptsOpen (c : Client) (calls : List ClientCall) : Prop :=
  ∀ fresh : UUID → Target, c.status ≠ .disconnected →
    ∀ x, x ∈ (c.setStatus .disconnected false fresh).2 ↔
      (∃ r, OpenSent calls r ∧ x = interruptSent r) ∨
        ∃ r, OpenReceived c.clientId calls r ∧ x = interruptReceived r (fresh r.getId)

/-- What a received request must be for the ledgers to stay exact. -/
def KeptReceived (c : Client) (req : Request) : Prop :=
  match req.target.target with
  | .reply => ∀ r, c.sentRequests.Holds r →
      (req.Answers r ↔ c.sentRequests.contains req.requestId = true ∧ r.getId = req.getId)
  | .error => (∀ r, c.sentRequests.Holds r → ¬req.Answers r) ∧ req.reply.target ≠ .reply
  | _ =>
    match req.reply.target with
    | .noReply => True
    | .reply => ∀ r, c.receivedRequests.Holds r → r.getId = req.getId →
        r = doReceiveRequest c.clientId req
    | _ => c.receivedRequests.Holds (doReceiveRequest c.clientId req)

def KeptSent (c : Client) (req : Request) : Prop :=
  match req.target.target with
  | .defaultAction => req.reply.target ≠ .noReply →
      ∀ r, c.sentRequests.Holds r → r.getId = req.getId → r = req
  | .reply => ∀ r, c.receivedRequests.Holds r → (req.Answers r ↔ r.getId = req.getId)
  | .error => ∀ r, c.receivedRequests.Holds r → ¬req.Answers r
  | _ => True

/-- The call keeps the ledgers exact: an answer finds the request it answers, and no other, under its own
identifier, and is no Error; a new request that expects a reply is stored, and overwrites no other. -/
def Kept (c : Client) : ClientCall → Prop
  | .receive req => c.KeptReceived req
  | .send req => c.KeptSent req

variable {c c' : Client} {calls : List ClientCall} {req : Request}

/-! ### A received request -/

theorem openReceived_new {clientId : UUID} {r : Request} (h : OpenReceived clientId calls r) :
    ¬r.IsAnswer := by
  induction calls with
  | nil => exact h.elim
  | cons call calls ih =>
    cases call with
    | receive req =>
      rcases h with ⟨rfl, hnew, -⟩ | h
      · exact hnew
      · exact ih h
    | send req => exact ih h.1

/-- Each ledger holds its requests under their own ids. -/
structure KeyedLedgers (c : Client) : Prop where
  received : c.receivedRequests.Keyed Request.getId
  sent : c.sentRequests.Keyed Request.getId

/-- What an accepted `receiveNewRequest` does to the ledgers. -/
inductive Takes (c : Client) (req : Request) : Client → Prop
  | found (hkind : req.target.target = .reply) (hfound : c.sentRequests.contains req.requestId = true) :
      Takes c req { c with sentRequests := c.sentRequests.erase req.getId }
  | missing (hkind : req.target.target = .reply) (hfound : c.sentRequests.contains req.requestId = false) :
      Takes c req c
  | stored (hkind : req.target.target ≠ .reply) (hreply : req.reply.target = .reply) :
      Takes c req { c with
        receivedRequests := c.receivedRequests.insert req.getId (doReceiveRequest c.clientId req) }
  | passed (hkind : req.target.target ≠ .reply) (hreply : req.reply.target ≠ .reply) : Takes c req c

theorem takes_of_perform (h : c.perform (.receive req) = some c') : c.Takes req c' := by
  obtain ⟨⟨c₁, pushed⟩, hreceive, rfl⟩ := Option.map_eq_some_iff.mp h
  unfold receiveNewRequest at hreceive
  dsimp only at hreceive
  split_ifs at hreceive with hallowed hkind hfound hreply <;> cases hreceive
  · exact .found hkind hfound
  · exact .missing hkind (Bool.not_eq_true _ ▸ hfound)
  · exact .stored hkind hreply
  · exact .passed hkind hreply

theorem Takes.clientId (h : c.Takes req c') : c'.clientId = c.clientId := by cases h <;> rfl

theorem Takes.keyed (h : c.Takes req c') (hc : c.KeyedLedgers) : c'.KeyedLedgers := by
  cases h with
  | found => exact ⟨hc.received, hc.sent.erase _⟩
  | missing => exact hc
  | stored => exact ⟨hc.received.insert (doReceiveRequest c.clientId req), hc.sent⟩
  | passed => exact hc

theorem exact_receive_iff (hc : c.Exact calls) (hid : c'.clientId = c.clientId) :
    c'.Exact (.receive req :: calls) ↔
      (∀ r, c'.receivedRequests.Holds r ↔
        r = doReceiveRequest c.clientId req ∧ ¬req.IsAnswer ∧ req.reply.target ≠ .noReply ∨
          c.receivedRequests.Holds r) ∧
      ∀ r, c'.sentRequests.Holds r ↔ c.sentRequests.Holds r ∧ ¬req.Answers r := by
  simp only [hc.received, hc.sent, ← hid]
  exact ⟨fun h => ⟨h.received, h.sent⟩, fun h => ⟨h.1, h.2⟩⟩

theorem exact_receive_reply_iff (hc : c.Exact calls) (hkeys : c.KeyedLedgers) (h : c.Takes req c')
    (hkind : req.target.target = .reply) :
    c'.Exact (.receive req :: calls) ↔ ∀ r, c.sentRequests.Holds r →
      (req.Answers r ↔ c.sentRequests.contains req.requestId = true ∧ r.getId = req.getId) := by
  have hreceived : c'.receivedRequests = c.receivedRequests := by
    cases h with
    | found => rfl
    | missing => rfl
    | stored hne => exact absurd hkind hne
    | passed => rfl
  have hsent : ∀ r, c'.sentRequests.Holds r ↔ c.sentRequests.Holds r ∧
      ¬(c.sentRequests.contains req.requestId = true ∧ r.getId = req.getId) := by
    intro r
    cases h with
    | found _ hfound => simp [hkeys.sent.holds_erase, hfound]
    | missing _ hfound => simp [hfound]
    | stored hne => exact absurd hkind hne
    | passed hne => exact absurd hkind hne
  rw [exact_receive_iff hc h.clientId, hreceived]
  simp only [hsent, Request.IsAnswer, hkind, true_or, not_true_eq_false, false_and, and_false, false_or,
    implies_true, true_and]
  refine forall_congr' fun r => ?_
  tauto

theorem Takes.holds (h : c.Takes req c') (hkeys : c.KeyedLedgers) (hkind : req.target.target ≠ .reply) :
    c'.sentRequests = c.sentRequests ∧ ∀ r, c'.receivedRequests.Holds r ↔
      if req.reply.target = .reply then
        r = doReceiveRequest c.clientId req ∨ c.receivedRequests.Holds r ∧ r.getId ≠ req.getId
      else c.receivedRequests.Holds r := by
  cases h with
  | found heq => exact absurd heq hkind
  | missing heq => exact absurd heq hkind
  | stored _ hreply =>
    refine ⟨rfl, fun r => ?_⟩
    rw [if_pos hreply]
    exact hkeys.received.holds_insert (doReceiveRequest c.clientId req) r
  | passed _ hreply =>
    refine ⟨rfl, fun r => ?_⟩
    rw [if_neg hreply]

theorem exact_receive_error_iff (hc : c.Exact calls) (hkeys : c.KeyedLedgers) (h : c.Takes req c')
    (hkind : req.target.target = .error) :
    c'.Exact (.receive req :: calls) ↔
      (∀ r, c.sentRequests.Holds r → ¬req.Answers r) ∧ req.reply.target ≠ .reply := by
  obtain ⟨hsent, hreceived⟩ := h.holds hkeys (by rw [hkind]; decide)
  have hanswer : req.IsAnswer := .inr hkind
  have hpushed : ¬c.receivedRequests.Holds (doReceiveRequest c.clientId req) :=
    fun h => openReceived_new ((hc.received _).mp h) hanswer
  rw [exact_receive_iff hc h.clientId, hsent, and_comm]
  refine and_congr ?_ ?_
  · refine forall_congr' fun r => ?_
    tauto
  · simp only [hanswer, not_true_eq_false, false_and, and_false, false_or]
    constructor
    · intro hall hreply
      have hstored := (hall (doReceiveRequest c.clientId req)).mp
        ((hreceived _).mpr (by rw [if_pos hreply]; exact .inl rfl))
      exact hpushed hstored
    · intro hreply r
      rw [hreceived, if_neg hreply]

theorem exact_receive_new_iff (hc : c.Exact calls) (hkeys : c.KeyedLedgers) (h : c.Takes req c')
    (hnew : ¬req.IsAnswer) :
    c'.Exact (.receive req :: calls) ↔
      match req.reply.target with
      | .noReply => True
      | .reply => ∀ r, c.receivedRequests.Holds r → r.getId = req.getId →
          r = doReceiveRequest c.clientId req
      | _ => c.receivedRequests.Holds (doReceiveRequest c.clientId req) := by
  obtain ⟨hsent, hreceived⟩ := h.holds hkeys fun heq => hnew (.inl heq)
  have hanswers : ∀ r, ¬req.Answers r := fun r h => hnew h.kind
  rw [exact_receive_iff hc h.clientId, hsent]
  simp only [hanswers, not_false_eq_true, and_true, implies_true, hnew, true_and, hreceived]
  cases req.reply.target with
  | noReply => simp
  | reply =>
    simp only [if_true, ne_eq, reduceCtorEq, not_false_eq_true, and_true]
    refine forall_congr' fun r => ?_
    tauto
  | defaultAction | status | interrupt | error =>
    simp only [reduceCtorEq, if_false, ne_eq, not_false_eq_true, and_true]
    constructor
    · exact fun hall => (hall _).mpr (.inl rfl)
    · rintro hholds r
      exact ⟨.inr, fun h => h.elim (fun heq => heq ▸ hholds) id⟩

theorem exact_receive (hc : c.Exact calls) (hkeys : c.KeyedLedgers) (h : c.Takes req c') :
    c'.Exact (.receive req :: calls) ↔ c.KeptReceived req := by
  unfold KeptReceived
  cases hkind : req.target.target with
  | reply => exact exact_receive_reply_iff hc hkeys h hkind
  | error => exact exact_receive_error_iff hc hkeys h hkind
  | defaultAction | status | interrupt | noReply =>
    exact exact_receive_new_iff hc hkeys h (by unfold Request.IsAnswer; rw [hkind]; decide)

/-! ### A request that is sent -/

/-- What an accepted `sendRequest` does to the ledgers. -/
inductive Sends (c : Client) (req : Request) : Client → Prop
  | stored (hkind : req.target.target = .defaultAction) (hreply : req.reply.target ≠ .noReply) :
      Sends c req { c with sentRequests := c.sentRequests.insert req.getId req }
  | unanswered (hkind : req.target.target = .defaultAction) (hreply : req.reply.target = .noReply) :
      Sends c req c
  | found (hkind : req.target.target = .reply) :
      Sends c req { c with receivedRequests := c.receivedRequests.erase req.getId }
  | missing (hkind : req.target.target = .reply) (hfound : c.receivedRequests.contains req.getId = false) :
      Sends c req c
  | passed (hdefault : req.target.target ≠ .defaultAction) (hreply : req.target.target ≠ .reply) :
      Sends c req c

theorem sends_of_perform (h : c.perform (.send req) = some c') : c.Sends req c' := by
  change c.sendRequest req = some c' at h
  unfold sendRequest at h
  split_ifs at h with hcan hdefault hreply hkind hfound <;> cases h
  · exact .stored hdefault hreply
  · exact .unanswered hdefault (not_not.mp hreply)
  · exact .found hkind
  · exact .missing hkind (Bool.not_eq_true _ ▸ hfound)
  · exact .passed hdefault hkind

theorem Sends.clientId (h : c.Sends req c') : c'.clientId = c.clientId := by cases h <;> rfl

theorem Sends.keyed (h : c.Sends req c') (hc : c.KeyedLedgers) : c'.KeyedLedgers := by
  cases h with
  | stored => exact ⟨hc.received, hc.sent.insert req⟩
  | found => exact ⟨hc.received.erase _, hc.sent⟩
  | unanswered => exact hc
  | missing => exact hc
  | passed => exact hc

theorem exact_send_iff (hc : c.Exact calls) (hid : c'.clientId = c.clientId) :
    c'.Exact (.send req :: calls) ↔
      (∀ r, c'.receivedRequests.Holds r ↔ c.receivedRequests.Holds r ∧ ¬req.Answers r) ∧
      ∀ r, c'.sentRequests.Holds r ↔
        r = req ∧ req.target.target = .defaultAction ∧ req.reply.target ≠ .noReply ∨
          c.sentRequests.Holds r := by
  simp only [hc.received, hc.sent, ← hid]
  exact ⟨fun h => ⟨h.received, h.sent⟩, fun h => ⟨h.1, h.2⟩⟩

theorem exact_send_default_iff (hc : c.Exact calls) (hkeys : c.KeyedLedgers) (h : c.Sends req c')
    (hkind : req.target.target = .defaultAction) :
    c'.Exact (.send req :: calls) ↔ (req.reply.target ≠ .noReply →
      ∀ r, c.sentRequests.Holds r → r.getId = req.getId → r = req) := by
  have hanswers : ∀ r, ¬req.Answers r := fun r h => by
    rcases h.kind with h | h <;> rw [hkind] at h <;> cases h
  rw [exact_send_iff hc h.clientId]
  simp only [hanswers, not_false_eq_true, and_true, hkind, true_and]
  cases h with
  | stored _ hreply =>
    simp only [hkeys.sent.holds_insert, implies_true, true_and, hreply, ne_eq, not_false_eq_true,
      and_true, forall_const]
    refine forall_congr' fun r => ?_
    tauto
  | unanswered _ hreply => simp [hreply]
  | found hne => rw [hkind] at hne; cases hne
  | missing hne => rw [hkind] at hne; cases hne
  | passed hne => exact absurd hkind hne

theorem exact_send_reply_iff (hc : c.Exact calls) (hkeys : c.KeyedLedgers) (h : c.Sends req c')
    (hkind : req.target.target = .reply) :
    c'.Exact (.send req :: calls) ↔
      ∀ r, c.receivedRequests.Holds r → (req.Answers r ↔ r.getId = req.getId) := by
  have hsent : c'.sentRequests = c.sentRequests := by
    cases h with
    | stored hne => rw [hkind] at hne; cases hne
    | _ => rfl
  have hreceived : ∀ r, c'.receivedRequests.Holds r ↔ c.receivedRequests.Holds r ∧ r.getId ≠ req.getId := by
    intro r
    cases h with
    | found => exact hkeys.received.holds_erase _ r
    | missing _ hfound =>
      refine ⟨fun hr => ⟨hr, fun heq => ?_⟩, And.left⟩
      obtain ⟨k, hk⟩ := hr
      rw [← hkeys.received k r hk, heq] at hk
      rw [OrdMap.contains_eq_false_iff.mp hfound] at hk
      cases hk
    | stored hne => rw [hkind] at hne; cases hne
    | unanswered hne => rw [hkind] at hne; cases hne
    | passed _ hne => exact absurd hkind hne
  rw [exact_send_iff hc h.clientId, hsent]
  simp only [hkind, reduceCtorEq, false_and, and_false, false_or, implies_true, and_true, hreceived]
  refine forall_congr' fun r => ?_
  tauto

theorem exact_send (hc : c.Exact calls) (hkeys : c.KeyedLedgers) (h : c.Sends req c') :
    c'.Exact (.send req :: calls) ↔ c.KeptSent req := by
  unfold KeptSent
  cases hkind : req.target.target with
  | defaultAction => exact exact_send_default_iff hc hkeys h hkind
  | reply => exact exact_send_reply_iff hc hkeys h hkind
  | error | status | interrupt | noReply =>
    have heq : c' = c := by
      cases h with
      | stored hne => rw [hkind] at hne; cases hne
      | found hne => rw [hkind] at hne; cases hne
      | _ => rfl
    rw [exact_send_iff hc h.clientId, heq]
    simp only [hkind, reduceCtorEq, false_and, and_false, false_or, implies_true, and_true]
    first
      | refine forall_congr' fun r => ?_
        tauto
      | refine iff_of_true (fun r => ?_) trivial
        have hnot : ¬req.Answers r := fun h => by
          rcases h.kind with h | h <;> rw [hkind] at h <;> cases h
        simp [hnot]

/-! ### Runs -/

/-- An accepted call keeps the ledgers exact just when it is `Kept`. -/
theorem exact_perform_iff (hc : c.Exact calls) (hkeys : c.KeyedLedgers) {call : ClientCall}
    (h : c.perform call = some c') : c'.Exact (call :: calls) ↔ c.Kept call := by
  cases call with
  | receive req => exact exact_receive hc hkeys (takes_of_perform h)
  | send req => exact exact_send hc hkeys (sends_of_perform h)

theorem performs_keyed {guard : Client → ClientCall → Prop} {start : Client}
    (hrun : Performs guard start calls c) (hstart : start.KeyedLedgers) : c.KeyedLedgers := by
  induction hrun with
  | start => exact hstart
  | @call calls c c' _ call _ hcall ih =>
    cases call with
    | receive req => exact (takes_of_perform hcall).keyed ih
    | send req => exact (sends_of_perform hcall).keyed ih

theorem keyed_new (clientId : UUID) (allowed can : Request → Bool) : (new clientId allowed can).KeyedLedgers :=
  ⟨OrdMap.keyed_empty, OrdMap.keyed_empty⟩

theorem exact_new (clientId : UUID) (allowed can : Request → Bool) : (new clientId allowed can).Exact [] where
  received r := iff_of_false (OrdMap.not_holds_empty r) id
  sent r := iff_of_false (OrdMap.not_holds_empty r) id

theorem Exact.interruptsOpen (hc : c.Exact calls) (hkeys : c.KeyedLedgers) : c.InterruptsOpen calls := by
  intro fresh hstatus x
  have hset : (c.setStatus .disconnected false fresh).2 =
      c.sentRequests.entries.map (fun kv => interruptSent kv.2) ++
        c.receivedRequests.entries.map (fun kv => interruptReceived kv.2 (fresh kv.1)) := by
    unfold setStatus
    rw [if_pos hstatus.symm]
    rfl
  rw [hset, List.mem_append, List.mem_map, List.mem_map]
  refine or_congr ?_ ?_
  · simp only [← hc.sent, OrdMap.Holds, OrdMap.find?_eq_some_iff, Prod.exists]
    constructor
    · rintro ⟨k, r, hmem, rfl⟩
      exact ⟨r, ⟨k, hmem⟩, rfl⟩
    · rintro ⟨r, ⟨k, hmem⟩, rfl⟩
      exact ⟨k, r, hmem, rfl⟩
  · simp only [← hc.received, OrdMap.Holds, OrdMap.find?_eq_some_iff, Prod.exists]
    constructor
    · rintro ⟨k, r, hmem, rfl⟩
      refine ⟨r, ⟨k, hmem⟩, ?_⟩
      rw [hkeys.received k r (OrdMap.find?_eq_some_iff.mpr hmem)]
    · rintro ⟨r, ⟨k, hmem⟩, rfl⟩
      refine ⟨k, r, hmem, ?_⟩
      rw [hkeys.received k r (OrdMap.find?_eq_some_iff.mpr hmem)]

/-- **The ledgers of a client.** As long as the accepted calls are kept, the ledgers hold the open requests,
and a disconnection interrupts these; and then a further call keeps the ledgers exact just when it is
kept. -/
theorem ledgers_exact {clientId : UUID} {allowed can : Request → Bool}
    (hrun : Performs Kept (new clientId allowed can) calls c) :
    c.Exact calls ∧ c.InterruptsOpen calls ∧
      ∀ call c', c.perform call = some c' → (c'.Exact (call :: calls) ↔ c.Kept call) := by
  have hkeys := performs_keyed hrun (keyed_new clientId allowed can)
  have hexact : c.Exact calls := by
    induction hrun with
    | start => exact exact_new clientId allowed can
    | call hbefore hguard hcall ih =>
      have hbefore_keys := performs_keyed hbefore (keyed_new clientId allowed can)
      exact (exact_perform_iff (ih hbefore_keys) hbefore_keys hcall).mpr hguard
  exact ⟨hexact, hexact.interruptsOpen hkeys, fun call c' h => exact_perform_iff hexact hkeys h⟩

end Client

namespace Sample

open Client

def client : Client := .new 7 (fun _ => true) (fun _ => true)

def kept : Request := doReceiveRequest 7 (request .defaultAction 0 0)

/-- A client that has received a request and sent the reply, which carries the identifier of the request. -/
def replied : Client := { client with receivedRequests := (∅ : OrdMap UUID Request).insert 1 kept |>.erase 1 }

theorem kept_only {r : Request} (h : ((∅ : OrdMap UUID Request).insert 1 kept).Holds r) : r = kept := by
  obtain ⟨k, h⟩ := h
  rw [OrdMap.find?_insert] at h
  split_ifs at h
  · exact (Option.some.inj h).symm
  · cases h

theorem replied_ledgers : Performs Kept client
      [.send kept.createReply, .receive (request .defaultAction 0 0)] replied ∧
    replied.Exact [.send kept.createReply, .receive (request .defaultAction 0 0)] := by
  have hreceive : client.Kept (.receive (request .defaultAction 0 0)) :=
    fun r h => absurd h (OrdMap.not_holds_empty r)
  have hsend : ({ client with receivedRequests := (∅ : OrdMap UUID Request).insert 1 kept } : Client).Kept
      (.send kept.createReply) := by
    intro r h
    rw [kept_only h]
    exact iff_of_true ⟨.inl rfl, rfl, rfl, rfl⟩ rfl
  have hrun : Performs Kept client [.send kept.createReply, .receive (request .defaultAction 0 0)] replied :=
    .call (.call .start hreceive rfl) hsend rfl
  exact ⟨hrun, (ledgers_exact hrun).1⟩

/-- A request whose reply has an identifier of its own, as every new `Target` has. -/
def asked : Request :=
  .ofTargets (target .defaultAction 0 0) { target .reply (-1) 0 with identifier := 2 }

/-- Its reply was sent, and it is still in the ledger. -/
theorem reply_not_closed : ∃ c, Performs (fun _ _ => True) client
      [.send (doReceiveRequest 7 asked).createReply, .receive asked] c ∧
    (doReceiveRequest 7 asked).createReply.Answers (doReceiveRequest 7 asked) ∧
    c.receivedRequests.Holds (doReceiveRequest 7 asked) ∧
    ¬c.Exact [.send (doReceiveRequest 7 asked).createReply, .receive asked] := by
  have hanswers : (doReceiveRequest 7 asked).createReply.Answers (doReceiveRequest 7 asked) :=
    ⟨.inl rfl, rfl, rfl, rfl⟩
  refine ⟨{ client with receivedRequests := (∅ : OrdMap UUID Request).insert 1 (doReceiveRequest 7 asked) },
    .call (.call .start trivial rfl) trivial rfl, hanswers, ⟨1, rfl⟩, fun h => ?_⟩
  exact ((h.received _).mp ⟨1, rfl⟩).2 hanswers

end Sample

end LibWorkflow
