import BrokeredRpc.Slot
import BrokeredRpc.Table

/-!
# Waiting on one slot

A waiting room is a slot, a clock, and the waits under way on the slot, each
under a name. The clock moves only when somebody has to be waited for, and then
as far as that wait's deadline; every wait that is due by then ends there.
-/
namespace BrokeredRpc

/-- A wait: under way, or come back with its result. -/
inductive Wait (α : Type)
  | pending (timeout : Timeout) (since : Nat)
  | ended (result : Except SlotTimeout α)

structure WaitingRoom (α : Type) where
  now : Nat := 0
  slot : Slot α := {}
  waits : Table (Wait α) := ∅

namespace WaitingRoom

variable {α : Type}

/-- A look of one wait at the slot. -/
def lookOnce (room : WaitingRoom α) : Wait α → Wait α
  | .pending timeout since =>
    match room.slot.look timeout since room.now with
    | some result => .ended result
    | none => .pending timeout since
  | .ended result => .ended result

/-- Every wait looks once. -/
def lookAll (room : WaitingRoom α) : WaitingRoom α :=
  { room with waits := room.waits.mapValues room.lookOnce }

def set (room : WaitingRoom α) (value : α) : Bool × WaitingRoom α :=
  let (written, slot) := room.slot.set value
  (written, { room with slot }.lookAll)

/-- Begins a wait under a name. -/
def startGet (room : WaitingRoom α) (name : String) (timeout : Timeout) : WaitingRoom α :=
  { room with waits := room.waits.insert name (.pending timeout room.now) }.lookAll

/-- Moves the clock to `instant`, never back. -/
def advance (room : WaitingRoom α) (instant : Nat) : WaitingRoom α :=
  { room with now := max room.now instant }.lookAll

/-- Waits until the slot is filled or the deadline has come. `none` is a wait
that nothing ends. -/
def get (room : WaitingRoom α) (timeout : Timeout) :
    Option (Except SlotTimeout α) × WaitingRoom α :=
  match room.slot.look timeout room.now room.now, timeout.deadline? room.now with
  | some result, _ => (some result, room)
  | none, none => (none, room)
  | none, some deadline =>
    let later := room.advance deadline
    (later.slot.look timeout room.now later.now, later)

/-- The result of the wait under `name`, which is then forgotten. -/
def join (room : WaitingRoom α) (name : String) :
    Option (Except SlotTimeout α) × WaitingRoom α :=
  match room.waits.get? name with
  | none => (none, room)
  | some (.ended result) => (some result, { room with waits := room.waits.erase name })
  | some (.pending timeout since) =>
    match timeout.deadline? since with
    | none => (none, room)
    | some deadline =>
      let later := room.advance deadline
      (later.slot.look timeout since later.now, { later with waits := later.waits.erase name })

end WaitingRoom

end BrokeredRpc
