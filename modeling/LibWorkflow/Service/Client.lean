import LibWorkflow.Core.Request

/-!
# Clients

`service/client.h`: a client is the border to another application. It takes the requests of that
application in, sends requests out to it, and keeps a ledger of each kind of request that is still to be
answered, so that it can interrupt them when it gets disconnected. `isReceivedRequestAllowed` and
`canSendRequest` are virtual members. A ledger holds a request by its pointer; what is read of it again is
its target, its reply and its request id. Of these `doReceiveRequest` writes the reply; a temporary controller
may write the controller and the workflow of the target, by which no ledger is searched.
-/

namespace LibWorkflow

open Ordered

/-- `EClientStatus`. -/
inductive ClientStatus where
  | connected | heartbeatExpected | disconnected
  deriving DecidableEq

/-- `Client`. -/
structure Client where
  status : ClientStatus
  clientId : UUID
  receivedRequests : OrdMap UUID Request
  sentRequests : OrdMap UUID Request
  isReceivedRequestAllowed : Request → Bool
  canSendRequest : Request → Bool

namespace Client

/-- `Client::Client`, of a class with these two members. -/
def new (clientId : UUID) (isReceivedRequestAllowed canSendRequest : Request → Bool) : Client :=
  ⟨.disconnected, clientId, ∅, ∅, isReceivedRequestAllowed, canSendRequest⟩

/-- What `doReceiveRequest` makes of the request before it hands it to the controller manager. -/
def doReceiveRequest (clientId : UUID) (req : Request) : Request :=
  let reply := { req.reply with clientId := clientId }
  { req with reply := if reply.target ≠ .noReply then { reply with target := .reply } else reply }

/-- `receiveNewRequest`, where it returns true: the client, and the request handed on. The request that is
stored is the same object as the one that is handed on. -/
def receiveNewRequest (c : Client) (req : Request) : Option (Client × Request) :=
  if c.isReceivedRequestAllowed req then
    let pushed := doReceiveRequest c.clientId req
    if req.target.target = .reply then
      if c.sentRequests.contains req.requestId then
        some ({ c with sentRequests := c.sentRequests.erase req.getId }, pushed)
      else some (c, pushed)
    else if req.reply.target = .reply then
      some ({ c with receivedRequests := c.receivedRequests.insert req.getId pushed }, pushed)
    else some (c, pushed)
  else none

/-- `sendRequest`, where it returns true, whatever `doSendRequest` does with the request. -/
def sendRequest (c : Client) (req : Request) : Option Client :=
  if c.canSendRequest req then
    if req.target.target = .defaultAction then
      if req.reply.target ≠ .noReply then
        some { c with sentRequests := c.sentRequests.insert req.getId req }
      else some c
    else if req.target.target = .reply then
      if c.receivedRequests.contains req.getId then
        some { c with receivedRequests := c.receivedRequests.erase req.getId }
      else some c
    else some c
  else none

/-- The Interrupt for a request that was sent: its answer, as it were. -/
def interruptSent (request : Request) : Request :=
  let rep := request.createReply
  { rep with
    target := { rep.target with target := .interrupt }
    reply := { rep.reply with target := .noReply } }

/-- The Interrupt for a request that was received: `Request(target)`, whose reply is a new `Target`. -/
def interruptReceived (request : Request) (fresh : Target) : Request :=
  Request.ofTargets { request.target with target := .interrupt } { fresh with target := .noReply }

/-- `internalStatusChanged`: the requests it hands to the controller manager. `fresh` are the targets
`Target()` makes, which have a random identifier, for the received requests by their ids. -/
def internalStatusChanged (c : Client) (status : ClientStatus) (fresh : UUID → Target) : List Request :=
  if status = .disconnected then
    c.sentRequests.entries.map (fun kv => interruptSent kv.2) ++
      c.receivedRequests.entries.map (fun kv => interruptReceived kv.2 (fresh kv.1))
  else []

/-- `setStatus`. -/
def setStatus (c : Client) (s : ClientStatus) (force : Bool) (fresh : UUID → Target) :
    Client × List Request :=
  if s ≠ c.status then
    let c := { c with status := s }
    (c, if force then [] else c.internalStatusChanged s fresh)
  else (c, [])

end Client

end LibWorkflow
