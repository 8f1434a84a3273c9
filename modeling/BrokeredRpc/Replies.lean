import BrokeredRpc.Message
import BrokeredRpc.Outcome
import BrokeredRpc.Registry
import BrokeredRpc.Slot

/-!
# Replies

The listening end of a reply subscription: the registry of the calls that wait,
and the slots they wait on, by name. A reply is matched to its call by its
correlation id and fills that call's slot; a reply without an id, or with an id
that nobody waits for, is dropped. When the subscription ends, the registry is
sealed and drained and every drained slot is filled with the cause.

Results: `value_slot_fill`, `value_slot_register` and `slot_take` say what each
step does to the slots, `registry_fill`, `register_of_sealed`,
`register_of_unsealed` and `get?_pending_take` what it does to the registry.
-/
namespace BrokeredRpc

structure Replies where
  registry : Registry := {}
  slots : Table (Slot Outcome) := ∅
  deriving DecidableEq

namespace Replies

instance : Inhabited Replies := ⟨{}⟩

/-- The slot of a name; a name not used before stands for an empty slot. -/
def slot (r : Replies) (name : String) : Slot Outcome := (r.slots.get? name).getD {}

/-- Writes an outcome into a slot, and tells whether it was the first. -/
def fill (r : Replies) (name : String) (outcome : Outcome) : Bool × Replies :=
  let (written, slot) := (r.slot name).set outcome
  (written, { r with slots := r.slots.insert name slot })

/-- Fills the slots one after another. -/
def fillAll (r : Replies) (names : List String) (outcome : Outcome) : Replies :=
  names.foldl (fun (r : Replies) name => (r.fill name outcome).2) r

/-- Registers a call under `id`, to wait on the slot `name`. -/
def register (r : Replies) (id name : String) : Except Shutdown Unit × Replies :=
  let slots := r.slots.insert name (r.slot name)
  match r.registry.insert id name with
  | .ok registry => (.ok (), { registry, slots })
  | .error cause => (.error cause, { r with slots })

/-- Takes the slot registered under `id` out of the registry. -/
def take (r : Replies) (id : String) : Option String × Replies :=
  let (name, registry) := r.registry.take id
  (name, { r with registry })

/-- A reply arrives. -/
def deliver (r : Replies) (properties : Properties) (body : Bytes) : Replies :=
  match properties.correlationId with
  | none => r
  | some id =>
    match r.take id with
    | (some name, r) => (r.fill name (.ofReply properties body)).2
    | (none, r) => r

/-- The subscription has ended: no call registers any more, and every call that
waits is told the cause. -/
def endWith (r : Replies) (cause : Shutdown) : Replies :=
  let (names, registry) := r.registry.shutdown cause
  { r with registry }.fillAll names (.shutdown cause)

/-- An event of the subscription `tag`. -/
def handle (r : Replies) (tag : String) : Event → Replies
  | .delivery d => r.deliver d.properties d.body
  | .shutdown cause => r.endWith cause
  | .cancelled => r.endWith (.consumerCancelled tag)

/-- The slots that are filled, by name. -/
def filled (r : Replies) : List (String × Outcome) :=
  r.slots.toList.filterMap fun e => e.2.value.map (e.1, ·)

/-! ## Slots and registry after each step -/

variable (r : Replies)

/-- A slot that holds a value keeps it. -/
theorem value_slot_fill (name : String) (outcome : Outcome) (k : String) :
    ((r.fill name outcome).2.slot k).value =
      if name = k then some ((r.slot name).value.getD outcome) else (r.slot k).value := by
  simp only [fill, slot, Table.get?_insert]
  split
  · exact Slot.value_set _ outcome
  · rfl

@[simp] theorem registry_fill (name : String) (outcome : Outcome) :
    (r.fill name outcome).2.registry = r.registry := rfl

@[simp] theorem slot_take (id k : String) : (r.take id).2.slot k = r.slot k := rfl

@[simp] theorem sealedBy_take (id : String) :
    (r.take id).2.registry.sealedBy = r.registry.sealedBy := rfl

theorem get?_pending_take (id k : String) :
    (r.take id).2.registry.pending.get? k = if id = k then none else r.registry.pending.get? k :=
  r.registry.get?_pending_take id k

/-- Taking what is not there changes nothing. -/
theorem take_of_absent {r : Replies} {id : String} (h : r.registry.pending.get? id = none) :
    r.take id = (none, r) := by
  simp only [take, Registry.take, h, Table.erase_of_absent h]

/-- A slot that is registered is empty or known already. -/
theorem value_slot_register (id name k : String) :
    ((r.register id name).2.slot k).value = (r.slot k).value := by
  have hv : ((r.slots.insert name (r.slot name)).get? k).getD {} = r.slot k := by
    rw [Table.get?_insert]
    split
    · next hk => rw [← hk]; rfl
    · rfl
  unfold register
  dsimp only
  split <;> exact congrArg Slot.value hv

theorem register_of_sealed {r : Replies} {cause : Shutdown} (h : r.registry.sealedBy = some cause)
    (id name : String) :
    (r.register id name).1 = .error cause ∧ (r.register id name).2.registry = r.registry := by
  simp only [register, Registry.insert_of_sealed h]
  exact ⟨trivial, trivial⟩

theorem register_of_unsealed {r : Replies} (h : r.registry.sealedBy = none) (id name : String) :
    (r.register id name).1 = .ok () ∧ (r.register id name).2.registry.sealedBy = none ∧
      ∀ k, (r.register id name).2.registry.pending.get? k =
        if id = k then some name else r.registry.pending.get? k := by
  simp only [register, Registry.insert, h]
  exact ⟨trivial, trivial, Table.get?_insert _ id name⟩

end Replies

end BrokeredRpc
