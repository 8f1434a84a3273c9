/-!
# Durations

A span of time in whole seconds and nanoseconds, below 2^64 seconds, the
nanoseconds always less than a second. `ofNanos?` is the one way to build a
duration from a count, so a carry from nanoseconds into seconds cannot be
forgotten; `text` shows a duration in the largest unit in which it is at least
one, without trailing zeros.
-/
namespace BrokeredRpc

structure Duration where
  secs : Nat
  nanos : Nat
  secs_lt : secs < UInt64.size
  nanos_lt : nanos < 1_000_000_000
  deriving DecidableEq

namespace Duration

/-- The length in nanoseconds. -/
def toNanos (d : Duration) : Nat := 1_000_000_000 * d.secs + d.nanos

/-- The duration of so many nanoseconds, if it is short enough. -/
def ofNanos? (n : Nat) : Option Duration :=
  if h : n / 1_000_000_000 < UInt64.size then
    some ⟨n / 1_000_000_000, n % 1_000_000_000, h, Nat.mod_lt _ (by decide)⟩
  else none

def ofMillis (millis : UInt64) : Duration where
  secs := millis.toNat / 1000
  nanos := millis.toNat % 1000 * 1_000_000
  secs_lt := Nat.lt_of_le_of_lt (Nat.div_le_self _ _) millis.toNat_lt_size
  nanos_lt := by omega

theorem ofNanos?_toNanos (d : Duration) : ofNanos? d.toNanos = some d := by
  have hs := d.secs_lt
  have hn := d.nanos_lt
  have h1 : d.toNanos / 1_000_000_000 = d.secs := by unfold toNanos; omega
  have h2 : d.toNanos % 1_000_000_000 = d.nanos := by unfold toNanos; omega
  rw [ofNanos?, dif_pos (h1 ▸ hs), Option.some.injEq]
  cases d
  rw [mk.injEq]
  exact ⟨h1, h2⟩

theorem toNanos_of_ofNanos? {n : Nat} {d : Duration} (h : ofNanos? n = some d) :
    d.toNanos = n := by
  unfold ofNanos? at h
  split at h
  · cases h; simp only [toNanos]; omega
  · cases h

/-! ## Text -/

/-- The decimals of `fraction / 10 ^ places`, without trailing zeros. -/
def decimals : Nat → Nat → List Char
  | 0, _ => []
  | places + 1, fraction =>
    if fraction = 0 then []
    else Nat.digitChar (fraction / 10 ^ places) :: decimals places (fraction % 10 ^ places)

/-- Decimal notation of `whole + fraction / 10 ^ places`. -/
def decimal (whole fraction places : Nat) : String :=
  if fraction = 0 then toString whole
  else toString whole ++ "." ++ String.ofList (decimals places fraction)

/-- The duration in the largest unit in which it is at least one. -/
def text (d : Duration) : String :=
  if 0 < d.secs then decimal d.secs d.nanos 9 ++ "s"
  else if 1_000_000 ≤ d.nanos then decimal (d.nanos / 1_000_000) (d.nanos % 1_000_000) 6 ++ "ms"
  else if 1000 ≤ d.nanos then decimal (d.nanos / 1000) (d.nanos % 1000) 3 ++ "µs"
  else toString d.nanos ++ "ns"

end Duration

end BrokeredRpc
