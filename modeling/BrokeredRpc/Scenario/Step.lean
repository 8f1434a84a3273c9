import BrokeredRpc.Network.Responders

/-!
# Scenarios

A scenario is a list of steps on a fresh network. The things that a step makes
are called by names from then on. Here are the steps, the answers they give, and
what is seen of the network when they are all done.
-/
namespace BrokeredRpc.Scenario

/-- A request that a client is to send. -/
structure CallRequest where
  client : String
  message : Message

inductive Step
  | operate (op : Broker.Operation)
  | openChannels (count : Nat)
  | publishMany (channel count : Nat) (message : Message)
  | isOpen (channel : Nat)
  | hasQueue (queue : String)
  | queueDepth (queue : String)
  | record (name : String) (channel : Nat) (queue : String)
  | take (name : String) (count : Nat)
  | serve (name queue : String) (handler : Handler)
  | sink (name queue : String)
  | receive (sink : String)
  | reply (sink : String) (index : Nat) (properties : Properties) (body : Bytes)
  | batch (queue : String) (size : Nat) (order : ReleaseOrder)
  | createClient (name : String) (channel : Nat) (source : ClientConfig.Source)
  | injectFaults (client : String) (faults : Faults)
  | openClient (client : String)
  | closeClient (client : String)
  | dropClient (client : String)
  | clientState (client : String)
  | call (request : CallRequest)
  | startCall (name : String) (request : CallRequest)
  | join (name : String)

/-- What is seen of a client. -/
structure ClientState where
  isOpen : Bool
  pending : Nat
  replyQueue : Option String

def ClientState.of (c : Client) : ClientState where
  isOpen := c.isOpen
  pending := c.pendingCalls
  replyQueue := c.replyQueue?

/-- The events of a recorder, with the tag of its subscription. -/
structure Recording where
  tag : String
  events : List Event

inductive Answer
  | nothing
  | flag (value : Bool)
  | number (value : Option Nat)
  | operated (result : Except TransportError Broker.Operation.Value)
  | recorded (recording : Recording)
  | settled (result : Except ResponderError Nat)
  | received (request : Option Request)
  | replied (result : Except ResponderError Unit)
  | created (result : Except ClientConfig.SourceError (Timeout × Nat))
  | concluded (result : Except CallError Unit)
  | client (state : ClientState)
  | called (result : Option (Except CallError Bytes))

/-- Queues with the number of messages that wait in them. -/
abbrev Depths := List (String × Nat)

structure Final where
  queues : Depths
  recordings : List (String × Recording)
  notes : List (String × List Note)
  requests : List (String × List Request)
  clients : List (String × ClientState)
  unjoined : List (String × Option (Except CallError Bytes))

structure Report where
  steps : List (Answer × Depths)
  final : Final

end BrokeredRpc.Scenario
