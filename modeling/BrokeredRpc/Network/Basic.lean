import BrokeredRpc.Broker.Operation
import BrokeredRpc.Faults
import BrokeredRpc.Responder

/-!
# Networks

A network is a broker together with everything that runs on it: behind each
subscription a consumer, and beside the broker the clients. The broker only
sends events; until a consumer has handled an event it is in transit. The
events of one subscription are handled in the order in which they were sent,
those of different subscriptions in any order: `handleNext` is one such step,
and `settle` goes on, oldest event first, until nothing is in transit.

A step of a client's operation is `ask`, which puts the client's request to the
broker, and `advance` is the whole operation.
-/
namespace BrokeredRpc

/-- What a consumer does with its events. -/
inductive Role
  | replies (client : Nat)
  | server (server : Server)
  | batcher (batcher : Batcher)
  | sink (received : Log Request)
  | recorder (events : Log Event)

/-- An event arrives: the role after it, and the messages to publish. -/
def Role.receive : Role → Event → Role × List Message
  | .server s, .delivery d =>
    let (s, reply) := s.handle d
    (.server s, reply.toList)
  | .batcher b, .delivery d =>
    let (b, answers) := b.handle d
    (.batcher b, answers)
  | .sink received, .delivery d => (.sink (received.push d.request), [])
  | .recorder events, event => (.recorder (events.push event), [])
  | role, _ => (role, [])

/-- A consumer: its role, and the channel on which it subscribed and answers. -/
structure Consumer where
  channel : Nat
  role : Role

/-- A client, and the channel that is its transport. -/
structure Endpoint where
  client : Client
  channel : Nat
  faults : Faults := {}

structure Network where
  broker : Broker := {}
  /-- Events sent and not yet handled, oldest first. -/
  transit : List Dispatch := []
  /-- The consumers by the tags of their subscriptions. -/
  consumers : Table Consumer := ∅
  endpoints : Array Endpoint := #[]

namespace Network

variable {α : Type}

instance : Inhabited Network := ⟨{}⟩

/-! ## The broker's part -/

/-- Takes over what an operation on the broker leaves. -/
def absorb (n : Network) (effect : Effect α) : Except TransportError α × Network :=
  (effect.answer, { n with broker := effect.broker, transit := n.transit ++ effect.sent })

/-- An operation on the broker. -/
def operate (n : Network) (op : Broker.Operation) :
    Except TransportError Broker.Operation.Value × Network :=
  n.absorb (n.broker.perform op)

/-- Publishes messages on a channel, whether or not the broker accepts them. -/
def publishAll (n : Network) (channel : Nat) (messages : List Message) : Network :=
  messages.foldl (fun n m => (n.absorb (n.broker.publish channel m)).2) n

/-- Subscribes a new consumer to a queue. -/
def subscribe (n : Network) (channel : Nat) (queue : String) (role : Role) :
    Except TransportError String × Network :=
  match n.absorb (n.broker.consume channel queue) with
  | (.ok tag, n) => (.ok tag, { n with consumers := n.consumers.insert tag { channel, role } })
  | (.error e, n) => (.error e, n)

/-! ## Consumers -/

def setClient (n : Network) (index : Nat) (client : Client) : Network :=
  { n with endpoints := n.endpoints.modify index ({ · with client }) }

def client? (n : Network) (index : Nat) : Option Client :=
  n.endpoints[index]?.map (·.client)

/-- The consumer of a subscription handles an event. -/
def handle (n : Network) (tag : String) (event : Event) : Network :=
  match n.consumers.get? tag with
  | none => n
  | some { role := .replies index, .. } =>
    { n with
      endpoints := n.endpoints.modify index fun e =>
        { e with client := e.client.receive tag event } }
  | some { channel, role } =>
    let (role, replies) := role.receive event
    { n with consumers := n.consumers.insert tag { channel, role } }.publishAll channel replies

/-- The first event in transit to a subscription, and the others. -/
def nextFor? (tag : String) : List Dispatch → Option (Event × List Dispatch)
  | [] => none
  | d :: rest =>
    if d.tag = tag then some (d.event, rest)
    else (nextFor? tag rest).map fun (event, others) => (event, d :: others)

/-- The next event of a subscription is handled, if one is in transit. -/
def handleNext (n : Network) (tag : String) : Network :=
  match nextFor? tag n.transit with
  | none => n
  | some (event, others) => { n with transit := others }.handle tag event

/-- Handles at most `fuel` events, oldest first. -/
def settleWithin (n : Network) : Nat → Network
  | 0 => n
  | fuel + 1 =>
    match n.transit with
    | [] => n
    | d :: _ => (n.handleNext d.tag).settleWithin fuel

/-- How many requests are held back by batchers. -/
def heldBack (n : Network) : Nat :=
  (n.consumers.toList.map fun e =>
    match e.2.role with
    | .batcher b => b.held.size
    | _ => 0).foldl (· + ·) 0

/-- More events than can follow from what is in transit and held back, unless
replies ask for replies in a circle: each request sets off at most a chain of
replies in which no consumer answers twice under the same reply address. -/
def settleFuel (n : Network) : Nat :=
  2 * (n.transit.length + n.heldBack + 1) * ((n.consumers.size + 2) * (n.consumers.size + 2))

/-- Handles events until none is in transit. -/
def settle (n : Network) : Network := n.settleWithin n.settleFuel

/-! ## Clients -/

/-- Puts a client's request to the broker, or to the faults that refuse it. -/
def ask (n : Network) (index : Nat) (e : Endpoint) (stage : Client.Stage) :
    Except TransportError stage.Grant × Network :=
  match e.faults.refusal? stage with
  | some refusal => (.error refusal, n)
  | none =>
    match stage with
    | .declaring => n.absorb (n.broker.declareExclusive e.channel)
    | .subscribing queue => n.subscribe e.channel queue (.replies index)
    | .discarding queue _ => n.absorb (n.broker.deleteQueue e.channel queue)
    | .cancelling _ tag => n.absorb (n.broker.cancel e.channel tag)
    | .publishing _ m => n.absorb (n.broker.publish e.channel m)

/-- One request of a client's operation, and its answer. -/
def exchange (n : Network) (index : Nat) (e : Endpoint) (stage : Client.Stage) :
    Client.Progress × Network :=
  let (answer, n) := n.ask index e stage
  let (client, progress) := e.client.resume stage answer
  (progress, n.setClient index client)

/-- How an operation of a client ends. -/
inductive Conclusion
  | done
  | failed (error : CallError)
  | waiting (id : String)

theorem ahead_exchange_lt {n : Network} {index : Nat} {e : Endpoint}
    {stage next : Client.Stage} (h : (n.exchange index e stage).1 = .asking next) :
    next.ahead < stage.ahead :=
  Client.ahead_resume_lt h

/-- Carries an operation of a client on to its end. -/
def advance (n : Network) (index : Nat) (stage : Client.Stage) : Conclusion × Network :=
  match n.endpoints[index]? with
  | none => (.done, n)
  | some e =>
    match h : n.exchange index e stage with
    | (.asking next, n) =>
      have := ahead_exchange_lt (congrArg Prod.fst h)
      n.advance index next
    | (.done, n) => (.done, n)
    | (.failed error, n) => (.failed error, n)
    | (.waiting id, n) => (.waiting id, n)
termination_by stage.ahead

/-- An operation of a client, from its beginning to its end. -/
def runClient (n : Network) (index : Nat) (op : Client.Operation) : Conclusion × Network :=
  match n.endpoints[index]? with
  | none => (.done, n)
  | some e =>
    let (client, progress) := e.client.start op
    let n := n.setClient index client
    match progress with
    | .asking stage => n.advance index stage
    | .done => (.done, n)
    | .failed error => (.failed error, n)
    | .waiting id => (.waiting id, n)

end Network

end BrokeredRpc
