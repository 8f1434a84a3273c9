import BrokeredRpc.CallError
import BrokeredRpc.Json
import BrokeredRpc.Timeout

/-!
# Settings of a client and their written form

A client has one setting, the timeout that applies to all its calls. Here are
the written forms of durations, timeouts and settings. Each reader accepts what
its writer produces and, besides, the forms it names; whatever else it is given
it refuses.
-/
namespace BrokeredRpc

structure ClientConfig where
  timeout : Timeout := .infinite
  deriving DecidableEq

namespace Duration

/-- Seconds and nanoseconds; a second or more of nanoseconds carries over. -/
def ofParts? (secs nanos : Json) : Option Duration := do
  let secs ← secs.natBelow? UInt64.size
  let nanos ← nanos.natBelow? UInt32.size
  ofNanos? (1_000_000_000 * secs + nanos)

def toJson (d : Duration) : Json :=
  .object [("secs", .integer d.secs), ("nanos", .integer d.nanos)]

/-- Reads an object with the keys `secs` and `nanos` and no other, or the pair
of the two. -/
def ofJson? : Json → Option Duration
  | .array [secs, nanos] => ofParts? secs nanos
  | .object members => do
    let fields := Table.ofList members
    if fields.size = 2 then ofParts? (← fields.get? "secs") (← fields.get? "nanos") else none
  | _ => none

end Duration

namespace Timeout

def toJson : Timeout → Json
  | infinite => .text "Infinite"
  | after duration => .object [("After", duration.toJson)]

/-- Reads the bare name of the timeout without a limit, or an object with one
key: that name over `null`, or `After` over a duration. -/
def ofJson? : Json → Option Timeout
  | .text name => if name = "Infinite" then some infinite else none
  | .object members =>
    match (Table.ofList members).toList with
    | [("Infinite", .null)] => some infinite
    | [("After", duration)] => (Duration.ofJson? duration).map after
    | _ => none
  | _ => none

end Timeout

namespace ClientConfig

def toJson (config : ClientConfig) : Json := .object [("timeout", config.timeout.toJson)]

/-- Reads an object with the key `timeout`, other keys aside, or a list of just
the timeout. -/
def ofJson? : Json → Option ClientConfig
  | .array [timeout] => (Timeout.ofJson? timeout).map mk
  | .object members => do
    let timeout ← (Table.ofList members).get? "timeout"
    (Timeout.ofJson? timeout).map mk
  | _ => none

/-- Settings for a timeout in milliseconds, `-1` for no limit. -/
def ofMillis (millis : Int64) : Except CallError ClientConfig :=
  match Timeout.ofMillis? millis with
  | some timeout => .ok { timeout }
  | none => .error (.invalidTimeout millis)

/-! ## Ways to give settings -/

/-- Settings as a caller gives them. -/
inductive Source
  | standard
  | millis (count : Int64)
  | duration (length : Duration)
  | written (tree : Json)

/-- Why settings are not usable. -/
inductive SourceError
  | unreadable
  | refused (error : CallError)
  deriving DecidableEq

def ofSource : Source → Except SourceError ClientConfig
  | .standard => .ok {}
  | .millis count => (ofMillis count).mapError .refused
  | .duration length => .ok { timeout := .after length }
  | .written tree =>
    match ofJson? tree with
    | some config => .ok config
    | none => .error .unreadable

end ClientConfig

end BrokeredRpc
