import BrokeredRpc.Broker.Basic

/-!
# Operations on a broker

Everything that can be asked of a broker. An operation on a channel is refused
with the cause that closed the channel, before any other check. `perform` runs
an operation of whatever kind, and `run` a list of them, so that a statement
about all histories of a broker is a statement about `run`.
-/
namespace BrokeredRpc

/-- What an operation leaves: its answer, the broker after it, and the events
it sent, in order. -/
structure Effect (α : Type) where
  answer : Except TransportError α
  broker : Broker
  sent : List Dispatch := []

namespace Effect

def map (f : α → β) (e : Effect α) : Effect β where
  answer := e.answer.map f
  broker := e.broker
  sent := e.sent

end Effect

namespace Broker

variable {α : Type}

/-- Refuses an operation: nothing has happened. -/
def refuse (b : Broker) (e : TransportError) : Effect α where
  answer := .error e
  broker := b

/-- Grants an operation. -/
def grant (b : Broker) (answer : α) (sent : List Dispatch := []) : Effect α where
  answer := .ok answer
  broker := b
  sent

/-- Goes on if the channel is open. -/
def onChannel (b : Broker) (channel : Nat) (next : Effect α) : Effect α :=
  match b.closedBy? channel with
  | some cause => b.refuse (.channelClosed cause)
  | none => next

/-- Goes on with a queue that exists. -/
def onQueue (b : Broker) (queue : String) (next : Queue → Effect α) : Effect α :=
  match b.queues.get? queue with
  | none => b.refuse (.queueNotFound queue)
  | some q => next q

/-- Declares an exchange. The default exchange needs no declaration, and one
that exists stays as it is. -/
def declareExchange (b : Broker) (channel : Nat) (exchange : String) : Effect Unit :=
  b.onChannel channel <|
    if exchange = defaultExchange ∨ b.exchanges.contains exchange then b.grant ()
    else { b with exchanges := b.exchanges.insert exchange [] }.grant ()

/-- Declares a shared queue. One that exists stays as it is. -/
def declareQueue (b : Broker) (channel : Nat) (queue : String) : Effect String :=
  b.onChannel channel <|
    match b.queues.get? queue with
    | none => { b with queues := b.queues.insert queue {} }.grant queue
    | some q => if q.admits channel then b.grant queue else b.refuse (.accessRefused queue)

/-- The name that the broker gives to the `n`th queue it names. -/
def generatedName (n : Nat) : String := "amq.gen-" ++ toString n

/-- Declares a queue that is exclusive to the channel, under a name that the
broker chooses. -/
def declareExclusive (b : Broker) (channel : Nat) : Effect String :=
  b.onChannel channel <|
    let number := b.namedQueues + 1
    let queue := generatedName number
    { b with
      namedQueues := number
      queues := b.queues.insert queue { owner := some channel } }.grant queue

/-- Binds a queue to an exchange; binding twice is binding once. -/
def bind (b : Broker) (channel : Nat) (queue exchange key : String) : Effect Unit :=
  b.onChannel channel <| b.onQueue queue fun _ =>
    match b.exchanges.get? exchange with
    | none => b.refuse (.exchangeNotFound exchange)
    | some bindings =>
      let binding : Binding := { key, queue }
      if binding ∈ bindings then b.grant ()
      else { b with exchanges := b.exchanges.insert exchange (bindings ++ [binding]) }.grant ()

/-- The tag of the `n`th subscription, made on a channel. -/
def tagName (channel n : Nat) : String :=
  "ctag-" ++ toString channel ++ "." ++ toString n

/-- The deliveries of a backlog, numbered from `next` on. -/
def numbered (next : Nat) : List Message → List Delivery
  | [] => []
  | m :: rest => m.deliver next :: numbered (next + 1) rest

/-- Subscribes to a queue: the backlog is delivered at once. -/
def consume (b : Broker) (channel : Nat) (queue : String) : Effect String :=
  b.onChannel channel <| b.onQueue queue fun q =>
    if !q.admits channel then b.refuse (.accessRefused queue)
    else if q.consumer.isSome then b.refuse (.queueBusy queue)
    else
      let number := b.issuedTags + 1
      let tag := tagName channel number
      { b with
        issuedTags := number
        deliveries := b.deliveries + q.backlog.size
        queues := b.queues.insert queue { q with backlog := ∅, consumer := some tag }
        subscriptions := b.subscriptions.insert tag { channel, queue } }.grant tag
        ((numbered (b.deliveries + 1) q.backlog.toList).map fun d => ⟨tag, .delivery d⟩)

/-- Deletes a queue; its subscription ends. -/
def deleteQueue (b : Broker) (channel : Nat) (queue : String) : Effect Unit :=
  b.onChannel channel <| b.onQueue queue fun q =>
    if !q.admits channel then b.refuse (.accessRefused queue)
    else
      match b.consumerOf? q with
      | some tag =>
        ({ b with subscriptions := b.subscriptions.erase tag }.removeQueue queue).grant ()
          [⟨tag, .cancelled⟩]
      | none => (b.removeQueue queue).grant ()

/-- Cancels a subscription made on the same channel. -/
def cancel (b : Broker) (channel : Nat) (tag : String) : Effect Unit :=
  b.onChannel channel <|
    match b.subscriptions.get? tag with
    | some s =>
      if s.channel = channel then
        let (b, sent) := b.endSubscription tag .cancelled
        b.grant () sent
      else b.refuse (.unknownConsumer tag)
    | none => b.refuse (.unknownConsumer tag)

/-- Publishes a message. One that goes to no queue is dropped. -/
def publish (b : Broker) (channel : Nat) (m : Message) : Effect Unit :=
  b.onChannel channel <|
    match b.route? m.exchange m.routingKey with
    | none => b.refuse (.exchangeNotFound m.exchange)
    | some queues =>
      let (b, sent) := b.enqueueAll m queues
      b.grant () sent

/-- Closes a channel for the application. -/
def closeChannel (b : Broker) (channel : Nat) : Broker × List Dispatch :=
  b.shutdownChannel (.channelClosed channel) channel

/-- Fails a channel, as if the peer had closed it. -/
def abortChannel (b : Broker) (channel : Nat) (reason : String) : Broker × List Dispatch :=
  b.shutdownChannel (.channelAborted channel reason) channel

/-- Loses the connection: every open channel is shut down. -/
def abortConnection (b : Broker) (reason : String) : Broker × List Dispatch :=
  b.shutdownChannels (.connectionAborted reason) (List.range' 1 b.channels.size)

/-! ## Operations of every kind -/

inductive Operation
  | openChannel
  | declareExchange (channel : Nat) (exchange : String)
  | declareQueue (channel : Nat) (queue : String)
  | declareExclusive (channel : Nat)
  | bind (channel : Nat) (queue exchange key : String)
  | consume (channel : Nat) (queue : String)
  | deleteQueue (channel : Nat) (queue : String)
  | cancel (channel : Nat) (tag : String)
  | publish (channel : Nat) (message : Message)
  | closeChannel (channel : Nat)
  | abortChannel (channel : Nat) (reason : String)
  | abortConnection (reason : String)
  deriving DecidableEq

/-- What an operation answers: nothing, a channel's number, or a name. -/
inductive Operation.Value
  | nothing
  | channel (number : Nat)
  | name (text : String)
  deriving DecidableEq

open Operation (Value)

def perform (b : Broker) : Operation → Effect Value
  | .openChannel =>
    let (number, b) := b.openChannel
    b.grant (.channel number)
  | .declareExchange channel exchange =>
    (b.declareExchange channel exchange).map fun _ => .nothing
  | .declareQueue channel queue => (b.declareQueue channel queue).map .name
  | .declareExclusive channel => (b.declareExclusive channel).map .name
  | .bind channel queue exchange key =>
    (b.bind channel queue exchange key).map fun _ => .nothing
  | .consume channel queue => (b.consume channel queue).map .name
  | .deleteQueue channel queue => (b.deleteQueue channel queue).map fun _ => .nothing
  | .cancel channel tag => (b.cancel channel tag).map fun _ => .nothing
  | .publish channel message => (b.publish channel message).map fun _ => .nothing
  | .closeChannel channel =>
    let (b, sent) := b.closeChannel channel
    b.grant .nothing sent
  | .abortChannel channel reason =>
    let (b, sent) := b.abortChannel channel reason
    b.grant .nothing sent
  | .abortConnection reason =>
    let (b, sent) := b.abortConnection reason
    b.grant .nothing sent

/-- The operations one after another: the broker at the end, and all events
sent, in order. -/
def run (b : Broker) : List Operation → Broker × List Dispatch
  | [] => (b, [])
  | op :: rest =>
    let effect := b.perform op
    let (b, more) := effect.broker.run rest
    (b, effect.sent ++ more)

end Broker

end BrokeredRpc
