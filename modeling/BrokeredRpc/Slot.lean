import BrokeredRpc.Timeout

/-!
# Slots

A slot holds one value, written once: the first write wins and later writes
change nothing. Whoever waits on a slot looks at it again and again; a look
finds the value, or that the wait is over, or that the wait goes on. The value
is looked for first, so a value that is there is found however short the
timeout.
-/
namespace BrokeredRpc

/-- A wait that ended before the slot was filled. -/
structure SlotTimeout where
  waited : Duration
  deriving DecidableEq

def SlotTimeout.message (t : SlotTimeout) : String :=
  "slot not filled within " ++ t.waited.text

structure Slot (α : Type) where
  value : Option α := none
  deriving DecidableEq

namespace Slot

variable {α : Type}

instance : Inhabited (Slot α) := ⟨{}⟩

/-- Writes a value unless there is one, and tells whether it did. -/
def set (s : Slot α) (value : α) : Bool × Slot α :=
  if s.value.isSome then (false, s) else (true, { value := some value })

def isSet (s : Slot α) : Bool := s.value.isSome

def tryGet (s : Slot α) : Option α := s.value

/-- One look, at `now`, of a wait that began at `since`; `none` means that the
wait goes on. -/
def look (s : Slot α) (timeout : Timeout) (since now : Nat) :
    Option (Except SlotTimeout α) :=
  match s.value with
  | some value => some (.ok value)
  | none =>
    match timeout with
    | .infinite => none
    | .after duration =>
      if timeout.isOver since now then some (.error ⟨duration⟩) else none

theorem value_set (s : Slot α) (value : α) :
    (s.set value).2.value = some (s.value.getD value) := by
  unfold set
  cases h : s.value <;> simp [h]

/-- A value that is there is found. -/
theorem look_of_set {s : Slot α} {value : α} (h : s.value = some value) (timeout : Timeout)
    (since now : Nat) : s.look timeout since now = some (.ok value) := by
  simp only [look, h]

/-- Without a value, a look finds nothing or that the wait is over. -/
theorem look_of_empty {s : Slot α} (h : s.value = none) (timeout : Timeout) (since now : Nat) :
    s.look timeout since now = none ∨
      ∃ duration, timeout = .after duration ∧ timeout.isOver since now = true ∧
        s.look timeout since now = some (.error ⟨duration⟩) := by
  simp only [look, h]
  cases timeout with
  | infinite => exact Or.inl rfl
  | after duration =>
    dsimp only
    split
    · next ho => exact Or.inr ⟨duration, rfl, ho, rfl⟩
    · exact Or.inl rfl

@[simp] theorem look_infinite_eq_none_iff (s : Slot α) (since now : Nat) :
    s.look .infinite since now = none ↔ s.value = none := by
  unfold look
  cases s.value <;> simp

end Slot

end BrokeredRpc
