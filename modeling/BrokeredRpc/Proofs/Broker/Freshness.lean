import BrokeredRpc.Proofs.Broker.Bindings
import BrokeredRpc.Proofs.Broker.Naming

/-!
# Fresh names for exclusive queues

An exclusive queue gets its name from a counter, and the broker files it under
that name without a look at what stands there. So the name is fresh exactly
when no queue has it already, and only a caller can have put one there, by
declaring a shared queue under the name to come.

* `declareExclusive_fresh_iff`: when an exclusive declaration adds a queue and
  changes nothing else, and what it takes away otherwise.
* `declareExclusive_clash`: a history in which a waiting message is lost.
-/
namespace BrokeredRpc.Broker

open Operation (Value)

/-- An empty queue appears under a free name, for one channel, and all other queues, the
bindings and the subscriptions are as they were. -/
structure AddsFresh (b : Broker) (c : Nat) (name : String) (b' : Broker) : Prop where
  free : b.queues.get? name = none
  added : b'.queues.get? name = some { owner := some c }
  unbound : ∀ x bindings, b'.exchanges.get? x = some bindings → ∀ m ∈ bindings, m.queue ≠ name
  others : ∀ other, other ≠ name → b'.queues.get? other = b.queues.get? other
  exchanges : b'.exchanges = b.exchanges
  subscriptions : b'.subscriptions = b.subscriptions

/-- An exclusive declaration answers a name, adds a queue under it and does nothing else. -/
def DeclaresFresh (b : Broker) (c : Nat) (effect : Effect Value) : Prop :=
  ∃ name, effect.answer = .ok (.name name) ∧ AddsFresh b c name effect.broker ∧ effect.sent = []

variable {b : Broker} {c : Nat}

/-- The name that the next exclusive queue gets. -/
def nextName (b : Broker) : String := generatedName (b.namedQueues + 1)

theorem perform_declareExclusive (ho : b.isOpen c = true) :
    b.perform (.declareExclusive c) =
      { b with
        namedQueues := b.namedQueues + 1
        queues := b.queues.insert b.nextName { owner := some c } }.grant (.name b.nextName) := by
  rw [isOpen_iff] at ho
  simp only [perform, declareExclusive, onChannel, ho]
  rfl

/-- Under a free name nothing else changes, because no binding waits for the name. -/
theorem declaresFresh_of_free (hb : b.Bound) (ho : b.isOpen c = true)
    (hn : b.queues.get? b.nextName = none) :
    DeclaresFresh b c (b.perform (.declareExclusive c)) := by
  rw [perform_declareExclusive ho]
  refine ⟨b.nextName, rfl, ⟨hn, ?_, fun x bindings hx m hm he => ?_, fun other hne => ?_, rfl, rfl⟩,
    rfl⟩
  · exact Table.get?_insert_self _ _ _
  · have hs := hb.existing x bindings hx m hm
    rw [he, hn] at hs; cases hs
  · exact (Table.get?_insert _ _ _ _).trans (if_neg (Ne.symm hne))

theorem free_of_declaresFresh (ho : b.isOpen c = true)
    (h : DeclaresFresh b c (b.perform (.declareExclusive c))) :
    b.queues.get? b.nextName = none := by
  rw [perform_declareExclusive ho] at h
  obtain ⟨name, hans, hadd, -⟩ := h
  cases hans
  exact hadd.free

/-- **When exclusive queues are fresh.** After every history and on every open channel, an
exclusive declaration adds a fresh queue and changes nothing else exactly if no queue has the
next generated name; that is so unless a caller has declared that very name. In any case it
answers the name, and files an empty queue there instead of whatever stood there. -/
theorem declareExclusive_fresh_iff {ops : List Operation} {b : Broker} {c : Nat}
    (hi : OnIssued {} ops) (hb : b = (run {} ops).1) (ho : b.isOpen c = true) :
    (DeclaresFresh b c (b.perform (.declareExclusive c)) ↔ b.queues.get? b.nextName = none) ∧
      ((∀ d, .declareQueue d b.nextName ∉ ops) → b.queues.get? b.nextName = none) ∧
      (b.perform (.declareExclusive c)).answer = .ok (.name b.nextName) ∧
      (b.perform (.declareExclusive c)).broker.queues =
        b.queues.insert b.nextName { owner := some c } := by
  subst hb
  refine ⟨⟨free_of_declaresFresh ho, declaresFresh_of_free (run_bound hi) ho⟩, fun hd => ?_, ?_⟩
  · rw [← Option.not_isSome_iff_eq_none]
    intro hs
    obtain ⟨d, hm⟩ := (run_named hi).queues _ (Nat.lt_succ_self _) hs
    exact hd d hm
  · rw [perform_declareExclusive ho]
    exact ⟨rfl, rfl⟩

/-- A message waits under the name that the broker is about to generate. -/
def clashHistory : List Operation :=
  [.openChannel, .declareQueue 1 "amq.gen-1",
    .publish 1 { routingKey := "amq.gen-1", body := [104, 105] }]

theorem declareExclusive_fresh_after_delete :
    DeclaresFresh (run {} (clashHistory ++ [.deleteQueue 1 "amq.gen-1"])).1 1
      ((run {} (clashHistory ++ [.deleteQueue 1 "amq.gen-1"])).1.perform (.declareExclusive 1)) :=
  (declareExclusive_fresh_iff (by decide) rfl (by decide)).1.2 (by decide)

/-- **A clash.** The declaration answers a name in use, and the message that waited in that
queue is gone. -/
theorem declareExclusive_clash :
    OnIssued {} clashHistory ∧ (run {} clashHistory).1.isOpen 1 = true ∧
      ¬DeclaresFresh (run {} clashHistory).1 1
        ((run {} clashHistory).1.perform (.declareExclusive 1)) ∧
      (run {} clashHistory).1.queueDepth? "amq.gen-1" = some 1 ∧
      ((run {} clashHistory).1.perform (.declareExclusive 1)).broker.queueDepth? "amq.gen-1" =
        some 0 := by
  refine ⟨by decide, by decide, fun ⟨name, hans, hadd, _⟩ => ?_, by decide, by decide⟩
  have hname : name = "amq.gen-1" := by
    have h : (.ok (.name "amq.gen-1") : Except TransportError Value) = .ok (.name name) := hans
    cases h; rfl
  have hfree := hadd.free
  rw [hname] at hfree
  exact absurd hfree (by decide)

end BrokeredRpc.Broker
