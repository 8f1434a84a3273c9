import BrokeredRpc.Bytes
import BrokeredRpc.Properties
import BrokeredRpc.Shutdown

/-!
# Messages and events

A message is what a publisher hands over. A delivery is the message as its
consumer gets it, in an envelope that tells how it was routed and numbers it.
An event is anything that happens to a subscription: deliveries while it lasts,
then one event that ends it.
-/
namespace BrokeredRpc

structure Message where
  exchange : String := ""
  routingKey : String
  properties : Properties := {}
  body : Bytes := []
  deriving DecidableEq

structure Envelope where
  deliveryTag : Nat
  redelivered : Bool := false
  exchange : String
  routingKey : String
  deriving DecidableEq

structure Delivery where
  envelope : Envelope
  properties : Properties
  body : Bytes
  deriving DecidableEq

/-- The message as delivery number `tag`. -/
def Message.deliver (m : Message) (tag : Nat) : Delivery where
  envelope := { deliveryTag := tag, exchange := m.exchange, routingKey := m.routingKey }
  properties := m.properties
  body := m.body

/-- The message that a delivery carries. -/
def Delivery.message (d : Delivery) : Message where
  exchange := d.envelope.exchange
  routingKey := d.envelope.routingKey
  properties := d.properties
  body := d.body

@[simp] theorem Message.message_deliver (m : Message) (tag : Nat) :
    (m.deliver tag).message = m := rfl

inductive Event
  | delivery (delivery : Delivery)
  | shutdown (cause : Shutdown)
  | cancelled
  deriving DecidableEq

/-- Whether nothing follows the event on its subscription. -/
def Event.isTerminal : Event → Bool
  | delivery _ => false
  | shutdown _ | cancelled => true

/-- An event on its way to the subscription `tag`. -/
structure Dispatch where
  tag : String
  event : Event
  deriving DecidableEq

end BrokeredRpc
