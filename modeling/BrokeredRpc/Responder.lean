import BrokeredRpc.Handler
import BrokeredRpc.Log
import BrokeredRpc.Outcome
import BrokeredRpc.TransportError

/-!
# Responders

What sits on a queue and answers requests, seen apart from the broker: a
responder takes a delivery and says which replies it wants published. A reply
goes to the queue that the request names, under the request's correlation id;
a request that lacks either cannot be answered.

* A `Server` runs a handler. A request without a reply address is a cast.
* A `Batcher` holds requests back until enough of them have come, and then
  answers each with its own body, in an order of its choosing.
-/
namespace BrokeredRpc

/-- A request as a responder sees it. -/
structure Request where
  properties : Properties
  body : Bytes
  deriving DecidableEq

def Delivery.request (d : Delivery) : Request where
  properties := d.properties
  body := d.body

inductive ResponderError
  | noReplyTo
  | noCorrelationId
  | transport (inner : TransportError)
  | notSubscribed (queue : String) (inner : TransportError)
  deriving DecidableEq

namespace ResponderError

/-- The texts of the error and of the causes behind it, outermost first. -/
def chain : ResponderError → List String
  | noReplyTo => ["request without reply_to"]
  | noCorrelationId => ["request without correlation id"]
  | transport inner => inner.message :: inner.causes
  | notSubscribed queue inner => ("subscribe to " ++ queue) :: inner.message :: inner.causes

def message (e : ResponderError) : String := e.chain.headD ""

end ResponderError

/-- The message that carries `body` back to whoever sent a request with
properties `request`. -/
def replyTo (request reply : Properties) (body : Bytes) : Except ResponderError Message :=
  match request.replyTo, request.correlationId with
  | none, _ => .error .noReplyTo
  | some _, none => .error .noCorrelationId
  | some queue, some id =>
    .ok { routingKey := queue, properties := reply.set .correlationId id, body }

/-- A reply, where the request can be answered. -/
def replyTo? (request reply : Properties) (body : Bytes) : Option Message :=
  (replyTo request reply body).toOption

/-! ## Server -/

structure Server where
  handler : Handler
  notes : Log Note := ∅

namespace Server

/-- The properties and the payload that report how a call was handled. -/
def report (handled : CallHandled) : Properties × Bytes :=
  match handled.answer with
  | .ok payload => (handled.reply, payload)
  | .error (.unsupported what) =>
    (handled.reply.setHeader ExceptionKind.headerName ExceptionKind.rpc.toHeader,
      .ofText (HandlerError.unsupported what).message)
  | .error (.failed reason) =>
    (handled.reply.setHeader ExceptionKind.headerName ExceptionKind.service.toHeader,
      .ofText reason)

/-- A request arrives: the server after it, and its reply. -/
def handle (s : Server) (d : Delivery) : Server × Option Message :=
  match d.properties.replyTo with
  | none =>
    let handled := s.handler.handleCast d.envelope d.properties d.body
    ({ s with notes := s.notes.append handled.notes }, none)
  | some _ =>
    let handled := s.handler.handleCall d.envelope d.properties d.body {}
    let (reply, payload) := report handled
    ({ s with notes := s.notes.append handled.notes }, replyTo? d.properties reply payload)

end Server

/-! ## Batcher -/

/-- Orders in which a batch is answered. -/
inductive ReleaseOrder
  | fifo
  | reverse
  | rotate
  | byBody
  deriving DecidableEq

namespace ReleaseOrder

def arrange : ReleaseOrder → List Request → List Request
  | fifo, batch => batch
  | reverse, batch => batch.reverse
  | rotate, batch => batch.drop 1 ++ batch.take 1
  | byBody, batch => batch.mergeSort fun a b => decide (a.body ≤ b.body)

theorem arrange_perm (order : ReleaseOrder) (batch : List Request) :
    (order.arrange batch).Perm batch := by
  cases order with
  | fifo => exact .refl _
  | reverse => exact List.reverse_perm batch
  | rotate =>
    have h := @List.perm_append_comm _ (batch.drop 1) (batch.take 1)
    rwa [List.take_append_drop] at h
  | byBody => exact List.mergeSort_perm batch _

end ReleaseOrder

structure Batcher where
  size : Nat
  release : List Request → List Request
  held : Log Request := ∅

namespace Batcher

/-- A request arrives: the batcher after it, and the requests it releases. -/
def hold (b : Batcher) (request : Request) : Batcher × List Request :=
  let held := b.held.push request
  if held.size < b.size then ({ b with held }, [])
  else ({ b with held := ∅ }, b.release held.toList)

/-- The reply to a released request: its own body. -/
def answer? (request : Request) : Option Message :=
  replyTo? request.properties {} request.body

/-- A request arrives: the batcher after it, and its replies. -/
def handle (b : Batcher) (d : Delivery) : Batcher × List Message :=
  let (b, released) := b.hold d.request
  (b, released.filterMap answer?)

end Batcher

end BrokeredRpc
