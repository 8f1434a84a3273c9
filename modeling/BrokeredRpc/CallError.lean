import BrokeredRpc.Bytes
import BrokeredRpc.Duration
import BrokeredRpc.TransportError

/-!
# Failures of a remote call

Everything that opening, closing or calling through a client can answer
instead of a result. `message` is the wording, `causes` the texts of what
stands behind the error, outermost first.
-/
namespace BrokeredRpc

inductive CallError
  | notOpen
  | closed
  | alreadyOpen
  | timeout (id : String) (waited : Duration)
  | remoteCall (payload : Bytes)
  | remoteService (payload : Bytes)
  | unexpectedException (header : String) (payload : Bytes)
  | transportShutdown (cause : Shutdown)
  | transport (inner : TransportError)
  | invalidTimeout (millis : Int64)
  deriving DecidableEq

namespace CallError

def message : CallError → String
  | notOpen => "rpc client is not open"
  | closed => "rpc client has been closed"
  | alreadyOpen => "rpc client is already open"
  | timeout id waited => "no reply to call " ++ id ++ " within " ++ waited.text
  | remoteCall payload => "remote rejected the call: " ++ payload.toText
  | remoteService payload => "remote service failure: " ++ payload.toText
  | unexpectedException header payload =>
    "rpc call returned unexpected exception: " ++ header ++ ":" ++ payload.toText
  | transportShutdown _ => "reply channel shut down"
  | transport inner => "transport error: " ++ inner.message
  | invalidTimeout millis =>
    "timeout must be NO_TIMEOUT (-1) or non-negative, got " ++ toString millis.toInt

def causes : CallError → List String
  | transportShutdown cause => [cause.text]
  | transport inner => inner.message :: inner.causes
  | _ => []

/-- The cause of a shutdown, when the call failed because the transport ended. -/
def shutdown? : CallError → Option Shutdown
  | transportShutdown cause => some cause
  | transport inner => inner.shutdown?
  | _ => none

/-- What the remote side reported. -/
def payload? : CallError → Option Bytes
  | remoteCall payload => some payload
  | remoteService payload => some payload
  | unexpectedException _ payload => some payload
  | _ => none

/-- A timeout is the only failure worth retrying unchanged. -/
def isTimeout : CallError → Bool
  | timeout .. => true
  | _ => false

end CallError

end BrokeredRpc
