import BrokeredRpc.CallError
import BrokeredRpc.Properties

/-!
# Outcomes of a call

What a waiting call is told: the reply's payload, a failure that the remote
side reported, or the end of the reply subscription. A reply reports a failure
by its exception header, whose value names the kind.
-/
namespace BrokeredRpc

/-- The kinds of failure that a remote side reports. -/
inductive ExceptionKind
  | rpc
  | service
  | other (header : String)
  deriving DecidableEq

namespace ExceptionKind

/-- The header of a reply that reports a failure. -/
def headerName : String := "x-rpc-exception"

def ofHeader (value : String) : ExceptionKind :=
  if value = "rpc" then rpc else if value = "service" then service else other value

def toHeader : ExceptionKind → String
  | rpc => "rpc"
  | service => "service"
  | other header => header

@[simp] theorem toHeader_ofHeader (value : String) : (ofHeader value).toHeader = value := by
  unfold ofHeader
  split
  · simp_all [toHeader]
  split <;> simp_all [toHeader]

end ExceptionKind

inductive Outcome
  | success (payload : Bytes)
  | exception (kind : ExceptionKind) (payload : Bytes)
  | shutdown (cause : Shutdown)
  deriving DecidableEq

namespace Outcome

/-- The outcome that a reply brings. -/
def ofReply (properties : Properties) (body : Bytes) : Outcome :=
  match properties.header ExceptionKind.headerName with
  | some value => exception (.ofHeader value) body
  | none => success body

/-- What the caller sees. -/
def toResult : Outcome → Except CallError Bytes
  | success payload => .ok payload
  | exception .rpc payload => .error (.remoteCall payload)
  | exception .service payload => .error (.remoteService payload)
  | exception (.other header) payload => .error (.unexpectedException header payload)
  | shutdown cause => .error (.transportShutdown cause)

end Outcome

end BrokeredRpc
