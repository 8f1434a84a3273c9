import BrokeredRpc.Client

/-!
# Injected faults

A client's transport can be told to refuse some of the client's requests. A
request that is refused so does not reach the broker.
-/
namespace BrokeredRpc

/-- Which requests are refused; the two that say so, as if the channel had been
closed. -/
structure Faults where
  declare : Bool := false
  subscribe : Bool := false
  delete : Bool := false
  cancel : Bool := false
  cancelClosed : Bool := false
  publish : Bool := false
  publishClosed : Bool := false
  deriving DecidableEq

namespace Faults

/-- The cause that a fault gives for a closed channel. -/
def cause : Shutdown := .channelAborted 0 "injected"

/-- The refusal of what a client asks for at a stage, if it is refused. -/
def refusal? (f : Faults) : Client.Stage → Option TransportError
  | .declaring => if f.declare then some (.accessRefused "injected") else none
  | .subscribing queue => if f.subscribe then some (.queueBusy queue) else none
  | .discarding queue _ => if f.delete then some (.queueNotFound queue) else none
  | .cancelling _ tag =>
    if f.cancel then some (.unknownConsumer tag)
    else if f.cancelClosed then some (.channelClosed cause)
    else none
  | .publishing _ m =>
    if f.publish then some (.queueNotFound m.routingKey)
    else if f.publishClosed then some (.channelClosed cause)
    else none

end Faults

end BrokeredRpc
