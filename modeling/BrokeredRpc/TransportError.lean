import BrokeredRpc.Shutdown

/-!
# Failures of the transport

What the broker answers to a request it refuses. A closed channel carries the
cause that closed it.
-/
namespace BrokeredRpc

inductive TransportError
  | channelClosed (cause : Shutdown)
  | queueNotFound (queue : String)
  | exchangeNotFound (exchange : String)
  | accessRefused (queue : String)
  | queueBusy (queue : String)
  | unknownConsumer (tag : String)
  | deliveryNotStarted (reason : String)
  deriving DecidableEq

namespace TransportError

def message : TransportError → String
  | channelClosed cause => "channel is closed: " ++ cause.text
  | queueNotFound queue => "no queue named '" ++ queue ++ "'"
  | exchangeNotFound exchange => "no exchange named '" ++ exchange ++ "'"
  | accessRefused queue => "queue '" ++ queue ++ "' is exclusive to another channel"
  | queueBusy queue => "queue '" ++ queue ++ "' already has a consumer"
  | unknownConsumer tag => "unknown consumer tag '" ++ tag ++ "'"
  | deliveryNotStarted reason => "failed to spawn delivery thread: " ++ reason

/-- The texts of the causes behind the error, outermost first. -/
def causes : TransportError → List String
  | deliveryNotStarted reason => [reason]
  | _ => []

def shutdown? : TransportError → Option Shutdown
  | channelClosed cause => some cause
  | _ => none

end TransportError

end BrokeredRpc
