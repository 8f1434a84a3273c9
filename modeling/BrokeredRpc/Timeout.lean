import BrokeredRpc.Duration

/-!
# How long a caller waits

A `Timeout` is either no limit at all or a duration. Against a clock that
counts nanoseconds, a wait that starts at some instant has a deadline; a
deadline that the clock can never show is no deadline.
-/
namespace BrokeredRpc

inductive Timeout
  | infinite
  | after (duration : Duration)
  deriving DecidableEq

namespace Timeout

instance : Inhabited Timeout := ⟨infinite⟩

/-- The first instant that a clock cannot show: 2^63 seconds. -/
def horizon : Nat := 9_223_372_036_854_775_808 * 1_000_000_000

/-- The instant at which a wait that began at `since` is over. -/
def deadline? (since : Nat) : Timeout → Option Nat
  | infinite => none
  | after duration =>
    if since + duration.toNanos < horizon then some (since + duration.toNanos) else none

/-- Whether a wait that began at `since` is over at `now`. -/
def isOver (timeout : Timeout) (since now : Nat) : Bool :=
  (timeout.deadline? since).any (· ≤ now)

/-- Reads a number of milliseconds: `-1` is no limit, and any other negative
number is refused. -/
def ofMillis? (millis : Int64) : Option Timeout :=
  if millis = -1 then some infinite
  else if 0 ≤ millis then some (after (Duration.ofMillis millis.toUInt64))
  else none

@[simp] theorem not_isOver_infinite (since now : Nat) : infinite.isOver since now = false := rfl

end Timeout

end BrokeredRpc
