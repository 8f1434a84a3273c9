import BrokeredRpc.Broker.Operation

/-!
# Taking queues and subscriptions away

A broker takes things away in many small steps: it erases a subscription, takes
the consumer off its queue, removes a queue, filters every exchange. `trim` is
all of that at once, told which tags end and which queues go. Two trims are one
(`trim_trim`), and removing queues one after another is a trim
(`foldl_removeQueue_eq_trim`).
-/
namespace BrokeredRpc

/-- The queue without its consumer, if that one ends. -/
def Queue.release (q : Queue) (ended : String → Bool) : Queue :=
  { q with consumer := q.consumer.filter fun tag => !ended tag }

namespace Queue

theorem release_release (q : Queue) (ended ended' : String → Bool) :
    (q.release ended).release ended' = q.release fun tag => ended tag || ended' tag := by
  unfold release
  rw [Option.filter_filter]
  simp only [Bool.not_or]

theorem release_of_kept {q : Queue} {ended : String → Bool}
    (h : ∀ tag, q.consumer = some tag → ended tag = false) : q.release ended = q := by
  obtain ⟨owner, backlog, consumer⟩ := q
  cases consumer with
  | none => rfl
  | some tag => simp only [release, Option.filter, h tag rfl, Bool.not_false, if_true]

theorem consumer_release {q : Queue} {ended : String → Bool} {tag : String} :
    (q.release ended).consumer = some tag ↔ q.consumer = some tag ∧ ended tag = false := by
  simp only [release, Option.filter_eq_some_iff, Bool.not_eq_true']

end Queue

namespace Broker

/-- The broker without the subscriptions that end and the queues that are removed. -/
def trim (b : Broker) (ended removed : String → Bool) : Broker :=
  { b with
    exchanges := b.exchanges.mapValues fun bindings => bindings.filter fun m => !removed m.queue
    queues := (b.queues.filter fun name _ => !removed name).mapValues fun q => q.release ended
    subscriptions := b.subscriptions.filter fun tag _ => !ended tag }

/-- No tag ends, or no queue is removed. -/
def never : String → Bool := fun _ => false

theorem release_never (q : Queue) : q.release never = q := Queue.release_of_kept fun _ _ => rfl

variable {b : Broker} {ended removed : String → Bool}

theorem get?_subscriptions_trim (tag : String) :
    (b.trim ended removed).subscriptions.get? tag =
      if ended tag then none else b.subscriptions.get? tag := by
  rw [trim, Table.get?_filter]
  cases h : ended tag <;> cases b.subscriptions.get? tag <;> simp [Option.filter]

theorem get?_queues_trim (name : String) :
    (b.trim ended removed).queues.get? name =
      if removed name then none else (b.queues.get? name).map fun q => q.release ended := by
  rw [trim, Table.get?_mapValues, Table.get?_filter]
  cases h : removed name <;> cases b.queues.get? name <;> simp [Option.filter]

theorem get?_exchanges_trim (x : String) :
    (b.trim ended removed).exchanges.get? x =
      (b.exchanges.get? x).map fun bindings => bindings.filter fun m => !removed m.queue :=
  Table.get?_mapValues _ b.exchanges x

theorem get?_subscriptions_trim_some {tag : String} {s : Subscription} :
    (b.trim ended removed).subscriptions.get? tag = some s ↔
      b.subscriptions.get? tag = some s ∧ ended tag = false := by
  rw [get?_subscriptions_trim]
  cases ended tag <;> simp

theorem get?_queues_trim_some {name : String} {q : Queue} :
    (b.trim ended removed).queues.get? name = some q ↔
      ∃ p, b.queues.get? name = some p ∧ removed name = false ∧ p.release ended = q := by
  rw [get?_queues_trim]
  cases removed name <;> simp

/-- Brokers that agree on every lookup, on the channels and on the counters are equal. -/
theorem eq_of_lookups {b b' : Broker} (hc : b.channels = b'.channels)
    (hn : b.namedQueues = b'.namedQueues) (hi : b.issuedTags = b'.issuedTags)
    (hd : b.deliveries = b'.deliveries) (hx : ∀ x, b.exchanges.get? x = b'.exchanges.get? x)
    (hq : ∀ name, b.queues.get? name = b'.queues.get? name)
    (hs : ∀ tag, b.subscriptions.get? tag = b'.subscriptions.get? tag) : b = b' := by
  obtain ⟨channels, namedQueues, issuedTags, deliveries, exchanges, queues, subscriptions⟩ := b
  cases hc; cases hn; cases hi; cases hd
  cases Table.ext_get? hx
  cases Table.ext_get? hq
  cases Table.ext_get? hs
  rfl

theorem trim_never (b : Broker) : b.trim never never = b := by
  refine eq_of_lookups rfl rfl rfl rfl (fun x => ?_) (fun name => ?_) fun tag => ?_
  · rw [get?_exchanges_trim]
    cases b.exchanges.get? x with
    | none => rfl
    | some bindings => exact congrArg some (List.filter_eq_self.2 fun _ _ => rfl)
  · rw [get?_queues_trim]
    cases b.queues.get? name with
    | none => rfl
    | some q => exact congrArg some (release_never q)
  · rw [get?_subscriptions_trim]; rfl

theorem trim_trim (b : Broker) (ended removed ended' removed' : String → Bool) :
    (b.trim ended removed).trim ended' removed' =
      b.trim (fun tag => ended tag || ended' tag) fun name => removed name || removed' name := by
  refine eq_of_lookups rfl rfl rfl rfl (fun x => ?_) (fun name => ?_) fun tag => ?_
  · simp only [get?_exchanges_trim]
    cases b.exchanges.get? x with
    | none => rfl
    | some bindings =>
      simp only [Option.map_some, List.filter_filter, Bool.not_or, Bool.and_comm]
  · simp only [get?_queues_trim]
    cases removed name <;> cases removed' name <;> cases b.queues.get? name <;>
      simp [Queue.release_release]
  · simp only [get?_subscriptions_trim]
    cases ended tag <;> cases ended' tag <;> rfl

theorem removeQueue_eq_trim (b : Broker) (name : String) :
    b.removeQueue name = b.trim never (name == ·) := by
  refine eq_of_lookups rfl rfl rfl rfl (fun x => ?_) (fun name' => ?_) fun tag => ?_
  · rw [get?_exchanges_removeQueue, get?_exchanges_trim]
    refine congrArg (fun f => (b.exchanges.get? x).map (List.filter f)) ?_
    funext m
    rw [bne, Bool.beq_comm]
  · rw [get?_queues_removeQueue, get?_queues_trim]
    simp only [beq_iff_eq]
    cases b.queues.get? name' with
    | none => rfl
    | some q => rw [Option.map_some, release_never]
  · rw [get?_subscriptions_trim]; rfl

/-- Removing queues one after another is removing them at once. -/
theorem foldl_removeQueue_eq_trim (names : List String) :
    ∀ b : Broker, names.foldl removeQueue b = b.trim never names.contains := by
  induction names with
  | nil => exact fun b => (trim_never b).symm
  | cons name rest ih =>
    intro b
    rw [List.foldl_cons, ih, removeQueue_eq_trim, trim_trim]
    refine congrArg (b.trim never) ?_
    funext name'
    rw [List.contains_cons, Bool.beq_comm]

end Broker

end BrokeredRpc
