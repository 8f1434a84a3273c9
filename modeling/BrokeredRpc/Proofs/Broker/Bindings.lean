import BrokeredRpc.Proofs.Broker.Histories

/-!
# Bindings and the queues they name

A binding stands in an exchange, and the queue it names stands in another
table. The only step that takes a queue away takes its bindings with it, and the
only operation that adds a binding has looked the queue up, so no binding ever
dangles.

* `run_bound`: after every history, every binding of every exchange names an
  existing queue, no exchange holds a binding twice, and the default exchange
  has no entry. It asks nothing of the names that callers choose.
-/
namespace BrokeredRpc.Broker

structure Bound (b : Broker) : Prop where
  existing : ∀ x bindings, b.exchanges.get? x = some bindings →
    ∀ m ∈ bindings, (b.queues.get? m.queue).isSome
  nodup : ∀ x bindings, b.exchanges.get? x = some bindings → bindings.Nodup
  unlisted : b.exchanges.get? defaultExchange = none

namespace Bound

theorem empty : Bound {} := by
  refine ⟨fun x bindings h => ?_, fun x bindings h => ?_, rfl⟩
  · cases h
  · cases h

/-- A step that touches no exchange and takes no queue away. -/
theorem of_grows {b b' : Broker} (h : b.Bound) (hx : b'.exchanges = b.exchanges)
    (hq : ∀ name, (b.queues.get? name).isSome → (b'.queues.get? name).isSome) : b'.Bound := by
  refine ⟨fun x bindings hb m hm => ?_, fun x bindings hb => ?_, ?_⟩
  · rw [hx] at hb
    exact hq _ (h.existing x bindings hb m hm)
  · rw [hx] at hb
    exact h.nodup x bindings hb
  · rw [hx]; exact h.unlisted

theorem insertQueue {b : Broker} (h : b.Bound) (name : String) (q : Queue) :
    Bound { b with queues := b.queues.insert name q } := by
  refine h.of_grows rfl fun name' hs => ?_
  rw [Table.get?_insert]
  split
  · rfl
  · exact hs

theorem removeQueue {b : Broker} (h : b.Bound) (name : String) : (b.removeQueue name).Bound := by
  refine ⟨fun x kept hk m hm => ?_, fun x kept hk => ?_, ?_⟩
  · rw [get?_exchanges_removeQueue, Option.map_eq_some_iff] at hk
    obtain ⟨bindings, hb, rfl⟩ := hk
    obtain ⟨hm, hne⟩ := List.mem_filter.1 hm
    rw [get?_queues_removeQueue, if_neg (Ne.symm (bne_iff_ne.1 hne))]
    exact h.existing x bindings hb m hm
  · rw [get?_exchanges_removeQueue, Option.map_eq_some_iff] at hk
    obtain ⟨bindings, hb, rfl⟩ := hk
    exact (h.nodup x bindings hb).filter _
  · rw [get?_exchanges_removeQueue, h.unlisted]; rfl

theorem detach {b : Broker} (h : b.Bound) (name : String) : (b.detach name).Bound := by
  unfold Broker.detach
  split
  · exact h
  · next q hq =>
    split
    · exact h.removeQueue name
    · exact h.insertQueue name _

theorem endSubscription {b : Broker} (h : b.Bound) (tag : String) (last : Event) :
    (b.endSubscription tag last).1.Bound := by
  unfold Broker.endSubscription
  split
  · exact h
  · next s hs =>
    have he : Bound { b with subscriptions := b.subscriptions.erase tag } :=
      h.of_grows rfl fun _ hs => hs
    exact he.detach s.queue

theorem enqueue {b : Broker} (h : b.Bound) (name : String) (m : Message) :
    (b.enqueue name m).1.Bound := by
  unfold Broker.enqueue
  split
  · exact h
  · next q hq =>
    split
    · exact h.of_grows rfl fun _ hs => hs
    · exact h.insertQueue name _

theorem foldl_removeQueue (names : List String) :
    ∀ {b : Broker}, b.Bound → (names.foldl Broker.removeQueue b).Bound := by
  induction names with
  | nil => exact fun h => h
  | cons name rest ih => exact fun h => ih (h.removeQueue name)

theorem shutdownChannel {b : Broker} (h : b.Bound) (cause : Shutdown) (c : Nat) :
    (b.shutdownChannel cause c).1.Bound := by
  unfold Broker.shutdownChannel
  split
  · have hr : (b.recordClosed c cause).Bound := h.of_grows rfl fun _ hs => hs
    have he : ((b.recordClosed c cause).endSubscriptions (.shutdown cause)
        ((b.recordClosed c cause).tagsOf c)).1.Bound :=
      forEach_induct _ _ (fun b tag _ hb => hb.endSubscription tag _) hr
    exact foldl_removeQueue _ he
  · exact h

theorem addBinding {b : Broker} (h : b.Bound) {x : String} {bindings : List Binding} {m : Binding}
    (hx : b.exchanges.get? x = some bindings) (hm : m ∉ bindings)
    (hq : (b.queues.get? m.queue).isSome) :
    Bound { b with exchanges := b.exchanges.insert x (bindings ++ [m]) } := by
  have hd : x ≠ defaultExchange := by
    rintro rfl
    rw [h.unlisted] at hx; cases hx
  refine ⟨fun x' bindings' hb m' hm' => ?_, fun x' bindings' hb => ?_, ?_⟩
  · simp only [Table.get?_insert] at hb
    split at hb
    · cases hb
      rcases List.mem_append.1 hm' with hm' | hm'
      · exact h.existing x bindings hx m' hm'
      · rw [List.mem_singleton.1 hm']; exact hq
    · exact h.existing x' bindings' hb m' hm'
  · simp only [Table.get?_insert] at hb
    split at hb
    · cases hb
      refine List.nodup_append.2 ⟨h.nodup x bindings hx, by simp, ?_⟩
      intro m₁ h₁ m₂ h₂ he
      rw [List.mem_singleton.1 h₂] at he
      exact hm (he ▸ h₁)
    · exact h.nodup x' bindings' hb
  · simp only [Table.get?_insert, if_neg hd]; exact h.unlisted

end Bound

theorem bound_perform {b : Broker} (h : b.Bound) (op : Operation) :
    (b.perform op).broker.Bound := by
  rcases perform_cases b op with ⟨e, hr⟩ | hg
  · rw [hr]; exact h
  generalize b.perform op = effect at hg
  cases hg with
  | opened => exact h.of_grows rfl fun _ hs => hs
  | exchangeKept => exact h
  | @exchangeAdded c x hc hd hx =>
    refine ⟨fun x' bindings hb => ?_, fun x' bindings hb => ?_, ?_⟩
    · simp only [grant, Table.get?_insert] at hb
      split at hb
      · cases hb; exact fun m hm => absurd hm List.not_mem_nil
      · exact h.existing x' bindings hb
    · simp only [grant, Table.get?_insert] at hb
      split at hb
      · cases hb; exact List.nodup_nil
      · exact h.nodup x' bindings hb
    · simp only [grant, Table.get?_insert, if_neg hd]; exact h.unlisted
  | queueKept => exact h
  | queueAdded => exact h.insertQueue _ _
  | exclusiveAdded => exact (h.insertQueue _ _).of_grows rfl fun _ hs => hs
  | bindingKept => exact h
  | bindingAdded hc hq hx hm => exact h.addBinding hx hm (Option.isSome_of_eq_some hq)
  | subscribed => exact (h.insertQueue _ _).of_grows rfl fun _ hs => hs
  | @deletedBusy c name tag q hc hq ha ht =>
    have he : Bound { b with subscriptions := b.subscriptions.erase tag } :=
      h.of_grows rfl fun _ hs => hs
    exact he.removeQueue name
  | deletedIdle => exact h.removeQueue _
  | cancelled => exact h.endSubscription _ _
  | @published c m queues hc hr =>
    exact forEach_induct queues b (fun b name _ hb => hb.enqueue name m) h
  | closed => exact h.shutdownChannel _ _
  | aborted => exact h.shutdownChannel _ _
  | @lost reason =>
    exact forEach_induct _ b (fun b c _ hb => hb.shutdownChannel _ c) h

/-- **No binding dangles**, whatever names callers choose. -/
theorem run_bound {ops : List Operation} (hi : OnIssued {} ops) : (run {} ops).1.Bound :=
  run_induct (P := fun _ b => b.Bound) (fun _ _ op h _ => bound_perform h op) ops [] {} .empty hi

end BrokeredRpc.Broker
