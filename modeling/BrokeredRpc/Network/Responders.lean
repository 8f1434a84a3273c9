import BrokeredRpc.Network.Basic

/-!
# Responders on a network

A responder opens a channel of its own, declares its queue there and subscribes
to it. If that fails the channel stays open and is of no further use.
-/
namespace BrokeredRpc.Network

/-- Where a responder has settled: its channel and its subscription. -/
structure Station where
  channel : Nat
  tag : String

/-- Puts a role on a queue, on a channel opened for it. `refused` tells what to
report when the subscription is refused. -/
def establish (n : Network) (queue : String) (role : Role)
    (refused : TransportError → ResponderError) : Except ResponderError Station × Network :=
  let (channel, broker) := n.broker.openChannel
  let n := { n with broker }
  match n.absorb (n.broker.declareQueue channel queue) with
  | (.error e, n) => (.error (.transport e), n)
  | (.ok _, n) =>
    match n.subscribe channel queue role with
    | (.error e, n) => (.error (refused e), n)
    | (.ok tag, n) => (.ok { channel, tag }, n)

/-- Answers a queue with a handler. -/
def serve (n : Network) (queue : String) (handler : Handler) :
    Except ResponderError Station × Network :=
  n.establish queue (.server { handler }) (.notSubscribed queue)

/-- Collects the requests of a queue. -/
def sink (n : Network) (queue : String) : Except ResponderError Station × Network :=
  n.establish queue (.sink ∅) .transport

/-- Answers the requests of a queue in batches. -/
def batch (n : Network) (queue : String) (batcher : Batcher) :
    Except ResponderError Station × Network :=
  n.establish queue (.batcher batcher) .transport

/-- Answers a request by hand. -/
def reply (n : Network) (channel : Nat) (request : Request) (properties : Properties)
    (body : Bytes) : Except ResponderError Unit × Network :=
  match replyTo request.properties properties body with
  | .error e => (.error e, n)
  | .ok m =>
    let (answer, n) := n.absorb (n.broker.publish channel m)
    (answer.mapError .transport, n)

end BrokeredRpc.Network
