import BrokeredRpc.Shutdown
import BrokeredRpc.Table

/-!
# The registry of waiting calls

The registry files, under the id of each call that waits for its reply, the
name of the slot that the call waits on. Whoever takes an entry is the one to
fill its slot. A shutdown first seals the registry, so that no call registers
any more, and then drains it; the two are separate steps, and the first seal
stays.

Results: `insert_of_unsealed`, `get?_pending_take` and `pending_drain` say what
each step leaves pending, `sealedBy_seal` that the first cause is kept.
-/
namespace BrokeredRpc

structure Registry where
  pending : Table String := ∅
  sealedBy : Option Shutdown := none
  deriving DecidableEq

namespace Registry

instance : Inhabited Registry := ⟨{}⟩

/-- Files a slot under a call's id, or tells the cause that sealed the
registry. -/
def insert (r : Registry) (id slot : String) : Except Shutdown Registry :=
  match r.sealedBy with
  | some cause => .error cause
  | none => .ok { r with pending := r.pending.insert id slot }

/-- Removes and returns the slot filed under `id`. -/
def take (r : Registry) (id : String) : Option String × Registry :=
  (r.pending.get? id, { r with pending := r.pending.erase id })

/-- Refuses entries from now on. The cause given first stays. -/
def sealWith (r : Registry) (cause : Shutdown) : Registry :=
  { r with sealedBy := some (r.sealedBy.getD cause) }

/-- Removes and returns all slots. -/
def drain (r : Registry) : List String × Registry :=
  (r.pending.toList.map Prod.snd, { r with pending := ∅ })

/-- Seals the registry, then drains it. -/
def shutdown (r : Registry) (cause : Shutdown) : List String × Registry :=
  (r.sealWith cause).drain

def isSealed (r : Registry) : Bool := r.sealedBy.isSome

def size (r : Registry) : Nat := r.pending.size

theorem insert_of_sealed {r : Registry} {cause : Shutdown} (h : r.sealedBy = some cause)
    (id slot : String) : r.insert id slot = .error cause := by
  simp [insert, h]

theorem insert_of_unsealed {r : Registry} (h : r.sealedBy = none) (id slot : String) :
    r.insert id slot = .ok { r with pending := r.pending.insert id slot } := by
  simp only [insert, h]

theorem get?_pending_take (r : Registry) (id k : String) :
    (r.take id).2.pending.get? k = if id = k then none else r.pending.get? k :=
  Table.get?_erase r.pending id k

/-- A drain returns every slot that is registered. -/
theorem mem_drain {r : Registry} {slot : String} :
    slot ∈ r.drain.1 ↔ ∃ id, r.pending.get? id = some slot := by
  simp only [drain, List.mem_map, Prod.exists, exists_eq_right, Table.mem_toList_iff]

/-- Slots that are filed under their own names are drained once each. -/
theorem nodup_drain {r : Registry} (h : ∀ id slot, r.pending.get? id = some slot → slot = id) :
    r.drain.1.Nodup := by
  have he : r.drain.1 = r.pending.keys :=
    List.map_congr_left fun e hm => h e.1 e.2 (Table.mem_toList_iff.1 hm)
  rw [he]
  exact r.pending.nodup_keys

@[simp] theorem pending_drain (r : Registry) : r.drain.2.pending = ∅ := rfl

@[simp] theorem sealedBy_seal (r : Registry) (cause : Shutdown) :
    (r.sealWith cause).sealedBy = some (r.sealedBy.getD cause) := rfl

@[simp] theorem pending_seal (r : Registry) (cause : Shutdown) :
    (r.sealWith cause).pending = r.pending := rfl

end Registry

end BrokeredRpc
