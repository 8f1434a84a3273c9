import BrokeredRpc.Proofs.Broker.Fates
import BrokeredRpc.Proofs.Broker.Trim
import BrokeredRpc.Proofs.Client.Acts

/-!
# Ends do not depend on the order of enumeration

A shutdown goes through several collections that have no order of their own: the
subscriptions of the channel, the queues exclusive to it, and, each time a queue
is removed, all exchanges. The end of a reply subscription goes through the slots
that were filed. The broker and the replies of this library take them in one
fixed order. Here they are taken in any order: `shutdownIn` is told whose turn it
is and in which order the exchanges are visited at each turn, and a drained
registry is handed over as any permutation of its slots.

Nothing is asked of the broker, so the order does not matter in broken states
either, such as a subscription whose queue has been replaced by another.

* `detach_comm`, `endSubscriptions_perm`: ends commute, also on one queue;
* `shutdown_in_any_order`: a shutdown leaves the same broker and sends the same
  events to each subscription, and the slots get the same values, in any order.
-/
namespace BrokeredRpc

namespace Table

variable {α : Type}

theorem get?_foldl_modify (f : α → α) (k : String) {order : List String} (hn : order.Nodup) :
    ∀ t : Table α, (order.foldl (fun t key => t.modify key f) t).get? k =
      if k ∈ order then (t.get? k).map f else t.get? k := by
  induction order with
  | nil => exact fun _ => (if_neg List.not_mem_nil).symm
  | cons key rest ih =>
    intro t
    obtain ⟨hnot, hrest⟩ := List.nodup_cons.1 hn
    rw [List.foldl_cons, ih hrest, get?_modify]
    by_cases hk : key = k
    · subst hk
      simp [hnot]
    · simp [hk, Ne.symm hk]

theorem foldl_modify (f : α → α) {t : Table α} {order : List String} (ho : order.Perm t.keys) :
    order.foldl (fun t key => t.modify key f) t = t.mapValues f := by
  refine ext_get? fun k => ?_
  rw [get?_foldl_modify f k (ho.nodup_iff.2 t.nodup_keys), get?_mapValues]
  split
  · rfl
  · next hk =>
    have habsent : t.get? k = none := by
      rw [← Option.not_isSome_iff_eq_none, ← mem_keys_iff]
      exact fun hm => hk (ho.mem_iff.2 hm)
    rw [habsent]
    rfl

end Table

namespace Broker

/-! ## Steps in a given order -/

/-- A subscription that ends or a queue that is removed, and the order in which the exchanges are
visited when it is its turn. -/
structure Turn where
  name : String
  exchanges : List String

/-- Removes a queue; the exchanges are visited one after another. -/
def removeQueueIn (b : Broker) (order : List String) (queue : String) : Broker :=
  { b with
    queues := b.queues.erase queue
    exchanges := order.foldl
      (fun exchanges x => exchanges.modify x (·.filter (·.queue != queue))) b.exchanges }

def detachIn (b : Broker) (order : List String) (queue : String) : Broker :=
  match b.queues.get? queue with
  | none => b
  | some q =>
    if q.owner.isSome then b.removeQueueIn order queue
    else { b with queues := b.queues.insert queue { q with consumer := none } }

def endSubscriptionIn (b : Broker) (last : Event) (t : Turn) : Broker × List Dispatch :=
  match b.subscriptions.get? t.name with
  | none => (b, [])
  | some s =>
    ({ b with subscriptions := b.subscriptions.erase t.name }.detachIn t.exchanges s.queue,
      [⟨t.name, last⟩])

/-- The subscriptions end, each at its turn. -/
def endSubscriptionsIn (b : Broker) (last : Event) (turns : List Turn) : Broker × List Dispatch :=
  b.forEach turns fun b t => b.endSubscriptionIn last t

/-- Shuts a channel down: its subscriptions end and its queues are removed, each at its turn. -/
def shutdownIn (b : Broker) (cause : Shutdown) (channel : Nat) (ends removals : List Turn) :
    Broker × List Dispatch :=
  if b.isOpen channel then
    let (b, sent) := (b.recordClosed channel cause).endSubscriptionsIn (.shutdown cause) ends
    (removals.foldl (fun b t => b.removeQueueIn t.exchanges t.name) b, sent)
  else (b, [])

/-- The turns enumerate what a shutdown of the channel goes through: its subscriptions, then the
queues exclusive to it that are left, and at each turn all exchanges. -/
structure Enumerates (b : Broker) (cause : Shutdown) (channel : Nat) (ends removals : List Turn) :
    Prop where
  subscriptions : (ends.map Turn.name).Perm (b.tagsOf channel)
  queues : (removals.map Turn.name).Perm
    (((b.recordClosed channel cause).endSubscriptionsIn (.shutdown cause) ends).1.queuesOf channel)
  exchanges : ∀ t ∈ ends ++ removals, t.exchanges.Perm b.exchanges.keys

/-! ## The exchanges -/

section Exchanges

variable {b : Broker} {order : List String}

theorem removeQueueIn_eq (ho : order.Perm b.exchanges.keys) (queue : String) :
    b.removeQueueIn order queue = b.removeQueue queue := by
  rw [removeQueueIn, removeQueue, Table.foldl_modify _ ho]

theorem detachIn_eq (ho : order.Perm b.exchanges.keys) (queue : String) :
    b.detachIn order queue = b.detach queue := by
  rw [detachIn, detach]
  cases b.queues.get? queue with
  | none => rfl
  | some q =>
    dsimp only
    rw [removeQueueIn_eq ho]

theorem endSubscriptionIn_eq {t : Turn} (ho : t.exchanges.Perm b.exchanges.keys) (last : Event) :
    b.endSubscriptionIn last t = b.endSubscription t.name last := by
  rw [endSubscriptionIn, endSubscription]
  cases b.subscriptions.get? t.name with
  | none => rfl
  | some s =>
    dsimp only
    rw [detachIn_eq]
    exact ho

theorem keys_removeQueue (b : Broker) (queue : String) :
    (b.removeQueue queue).exchanges.keys = b.exchanges.keys := Table.keys_mapValues _ _

theorem keys_detach (b : Broker) (queue : String) :
    (b.detach queue).exchanges.keys = b.exchanges.keys := by
  rw [detach]
  split
  · rfl
  · split
    · exact b.keys_removeQueue queue
    · rfl

theorem keys_endSubscription (b : Broker) (tag : String) (last : Event) :
    (b.endSubscription tag last).1.exchanges.keys = b.exchanges.keys := by
  rw [endSubscription]
  split
  · rfl
  · exact keys_detach _ _

theorem keys_endSubscriptions (last : Event) (tags : List String) (b : Broker) :
    (b.endSubscriptions last tags).1.exchanges.keys = b.exchanges.keys :=
  forEach_induct (P := fun b' => b'.exchanges.keys = b.exchanges.keys) tags b
    (fun b' tag _ h => (keys_endSubscription b' tag last).trans h) rfl

theorem endSubscriptionsIn_eq (last : Event) {turns : List Turn} :
    ∀ {b : Broker}, (∀ t ∈ turns, t.exchanges.Perm b.exchanges.keys) →
      b.endSubscriptionsIn last turns = b.endSubscriptions last (turns.map Turn.name) := by
  induction turns with
  | nil => exact fun _ => rfl
  | cons t rest ih =>
    intro b ho
    have hrest := ih (b := (b.endSubscription t.name last).1) fun t' ht' =>
      (keys_endSubscription b t.name last).symm ▸ ho t' (List.mem_cons_of_mem _ ht')
    rw [endSubscriptionsIn, endSubscriptions] at hrest ⊢
    rw [List.map_cons, forEach_cons, forEach_cons, endSubscriptionIn_eq (ho t List.mem_cons_self),
      hrest]

theorem foldl_removeQueueIn_eq {turns : List Turn} :
    ∀ {b : Broker}, (∀ t ∈ turns, t.exchanges.Perm b.exchanges.keys) →
      turns.foldl (fun b t => b.removeQueueIn t.exchanges t.name) b =
        (turns.map Turn.name).foldl removeQueue b := by
  induction turns with
  | nil => exact fun _ => rfl
  | cons t rest ih =>
    intro b ho
    rw [List.map_cons, List.foldl_cons, List.foldl_cons,
      removeQueueIn_eq (ho t List.mem_cons_self)]
    exact ih fun t' ht' => (b.keys_removeQueue t.name).symm ▸ ho t' (List.mem_cons_of_mem _ ht')

end Exchanges

/-! ## The subscriptions -/

/-- Whether a queue goes away with its consumer. -/
def isExclusive (b : Broker) (queue : String) : Bool :=
  (b.queues.get? queue).any (·.owner.isSome)

theorem get?_exchanges_detach (b : Broker) (queue x : String) :
    (b.detach queue).exchanges.get? x =
      (b.exchanges.get? x).map (·.filter fun m => !(b.isExclusive queue && m.queue == queue)) := by
  have hkeep : (b.exchanges.get? x).map (·.filter fun m => !(false && m.queue == queue)) =
      b.exchanges.get? x := by
    cases b.exchanges.get? x with
    | none => rfl
    | some bindings => exact congrArg some (List.filter_eq_self.2 fun _ _ => rfl)
  rw [detach, isExclusive]
  cases b.queues.get? queue with
  | none => exact hkeep.symm
  | some q =>
    rw [Option.any_some]
    dsimp only
    split
    · next ho =>
      rw [ho]
      exact get?_exchanges_removeQueue b queue x
    · next ho =>
      rw [Bool.not_eq_true] at ho
      rw [ho]
      exact hkeep.symm

theorem isExclusive_detach {b : Broker} {queue name : String} (hne : queue ≠ name) :
    (b.detach queue).isExclusive name = b.isExclusive name := by
  rw [isExclusive, get?_queues_detach, if_neg hne, isExclusive]

theorem detach_fields (b : Broker) (queue : String) :
    (b.detach queue).namedQueues = b.namedQueues ∧
      (b.detach queue).issuedTags = b.issuedTags ∧
      (b.detach queue).deliveries = b.deliveries := by
  rw [detach]
  split
  · exact ⟨rfl, rfl, rfl⟩
  · split <;> exact ⟨rfl, rfl, rfl⟩

/-- **Two queues lose their consumers** in either order, also if they are one queue. -/
theorem detach_comm (b : Broker) (queue name : String) :
    (b.detach queue).detach name = (b.detach name).detach queue := by
  by_cases he : queue = name
  · rw [he]
  obtain ⟨hn, hi, hd⟩ := b.detach_fields queue
  obtain ⟨hn', hi', hd'⟩ := b.detach_fields name
  obtain ⟨hn₂, hi₂, hd₂⟩ := (b.detach queue).detach_fields name
  obtain ⟨hn₃, hi₃, hd₃⟩ := (b.detach name).detach_fields queue
  refine eq_of_lookups ?_ ?_ ?_ ?_ (fun x => ?_) (fun q => ?_) fun tag => ?_
  · simp only [channels_detach]
  · rw [hn₂, hn, hn₃, hn']
  · rw [hi₂, hi, hi₃, hi']
  · rw [hd₂, hd, hd₃, hd']
  · rw [get?_exchanges_detach, get?_exchanges_detach, get?_exchanges_detach,
      get?_exchanges_detach, isExclusive_detach he, isExclusive_detach (Ne.symm he)]
    cases b.exchanges.get? x with
    | none => rfl
    | some bindings =>
      simp only [Option.map_some, List.filter_filter]
      refine congrArg (fun p => some (bindings.filter p)) ?_
      funext m
      exact Bool.and_comm _ _
  · simp only [get?_queues_detach]
    by_cases hq : queue = q
    · have hname : name ≠ q := fun hname => he (hq.trans hname.symm)
      rw [if_neg hname, if_neg hname]
    · rw [if_neg hq, if_neg hq]
  · simp only [subscriptions_detach]

/-- The queue of a subscription loses its consumer. -/
def vacate (b : Broker) : Option Subscription → Broker
  | none => b
  | some s => b.detach s.queue

theorem vacate_comm (b : Broker) (s s' : Option Subscription) :
    (b.vacate s).vacate s' = (b.vacate s').vacate s := by
  cases s <;> cases s' <;> first | rfl | exact b.detach_comm _ _

theorem vacate_withSubscriptions (b : Broker) (subscriptions : Table Subscription)
    (s : Option Subscription) :
    { b with subscriptions }.vacate s = { b.vacate s with subscriptions } := by
  cases s with
  | none => rfl
  | some s =>
    rw [vacate, vacate, detach, detach]
    dsimp only
    split
    · rfl
    · split <;> rfl

theorem endSubscription_eq (b : Broker) (tag : String) (last : Event) :
    (b.endSubscription tag last).1 =
      { b.vacate (b.subscriptions.get? tag) with subscriptions := b.subscriptions.erase tag } := by
  rw [endSubscription]
  cases hs : b.subscriptions.get? tag with
  | none =>
    rw [vacate, Table.erase_of_absent hs]
  | some s => exact b.vacate_withSubscriptions _ (some s)

/-- **Two subscriptions end** in either order. -/
theorem endSubscription_comm (b : Broker) (last : Event) (tag tag' : String) :
    ((b.endSubscription tag last).1.endSubscription tag' last).1 =
      ((b.endSubscription tag' last).1.endSubscription tag last).1 := by
  by_cases he : tag = tag'
  · rw [he]
  have hboth : ∀ {tag tag' : String}, tag ≠ tag' →
      ((b.endSubscription tag last).1.endSubscription tag' last).1 =
        { (b.vacate (b.subscriptions.get? tag)).vacate (b.subscriptions.get? tag') with
          subscriptions := (b.subscriptions.erase tag).erase tag' } := by
    intro tag tag' hne
    rw [endSubscription_eq, endSubscription_eq]
    dsimp only
    rw [vacate_withSubscriptions, Table.get?_erase, if_neg hne]
  rw [hboth he, hboth (Ne.symm he), vacate_comm, Table.erase_comm]

theorem endSubscriptions_perm (last : Event) {tags tags' : List String} (hp : tags.Perm tags') :
    ∀ b : Broker, (b.endSubscriptions last tags).1 = (b.endSubscriptions last tags').1 := by
  induction hp with
  | nil => exact fun _ => rfl
  | cons tag _ ih =>
    intro b
    rw [endSubscriptions, endSubscriptions, forEach_cons, forEach_cons]
    exact ih (b.endSubscription tag last).1
  | swap tag tag' rest =>
    intro b
    rw [endSubscriptions, endSubscriptions, forEach_cons, forEach_cons, forEach_cons, forEach_cons]
    dsimp only
    rw [endSubscription_comm]
  | trans _ _ ih ih' => exact fun b => (ih b).trans (ih' b)

theorem foldl_removeQueue_perm (b : Broker) {names names' : List String}
    (hp : names.Perm names') : names.foldl removeQueue b = names'.foldl removeQueue b := by
  rw [foldl_removeQueue_eq_trim, foldl_removeQueue_eq_trim]
  refine congrArg (b.trim never) ?_
  funext name
  exact hp.contains_eq

/-! ## A channel is shut down -/

theorem nodup_tagsOf (b : Broker) (channel : Nat) : (b.tagsOf channel).Nodup :=
  Table.nodup_keys _

/-- **A shutdown in any order** leaves the same broker and sends each subscription the same. -/
theorem shutdownIn_eq {b : Broker} {cause : Shutdown} {channel : Nat} {ends removals : List Turn}
    (h : b.Enumerates cause channel ends removals) :
    (b.shutdownIn cause channel ends removals).1 = (b.shutdownChannel cause channel).1 ∧
      ∀ tag, eventsTo tag (b.shutdownIn cause channel ends removals).2 =
        eventsTo tag (b.shutdownChannel cause channel).2 := by
  obtain ⟨hsubscriptions, hqueues, hexchanges⟩ := h
  rw [shutdownIn, shutdownChannel]
  split
  · have hends : (b.recordClosed channel cause).endSubscriptionsIn (.shutdown cause) ends =
        (b.recordClosed channel cause).endSubscriptions (.shutdown cause) (ends.map Turn.name) :=
      endSubscriptionsIn_eq _ fun t ht => hexchanges t (List.mem_append_left _ ht)
    have hbroker := endSubscriptions_perm (.shutdown cause) hsubscriptions
      (b.recordClosed channel cause)
    rw [hends] at hqueues ⊢
    rw [hbroker] at hqueues
    dsimp only
    refine ⟨?_, fun tag => ?_⟩
    · rw [foldl_removeQueueIn_eq, hbroker, foldl_removeQueue_perm _ hqueues]
      · rfl
      · exact fun t ht => (keys_endSubscriptions _ _ (b.recordClosed channel cause)).symm ▸
          hexchanges t (List.mem_append_right _ ht)
    · rw [eventsTo_endSubscriptions _ tag (hsubscriptions.nodup_iff.2 (b.nodup_tagsOf channel))]
      refine Eq.trans ?_ (eventsTo_endSubscriptions _ tag (nodup_tagsOf _ channel)
        (b.recordClosed channel cause)).symm
      simp only [hsubscriptions.mem_iff]
      rfl
  · exact ⟨rfl, fun _ => rfl⟩

end Broker

namespace Replies

/-! ## Drained slots are filled -/

/-- The subscription has ended; the drained slots are filled in the given order. -/
def endIn (r : Replies) (cause : Shutdown) (order : List String) : Replies :=
  { r with registry := (r.registry.shutdown cause).2 }.fillAll order (.shutdown cause)

/-- An event of the subscription `tag`. One that ends it has the slots filled in the given order. -/
def handleIn (r : Replies) (tag : String) (order : List String) : Event → Replies
  | .delivery d => r.deliver d.properties d.body
  | .shutdown cause => r.endIn cause order
  | .cancelled => r.endIn (.consumerCancelled tag) order

theorem get?_slots_fill (r : Replies) (name : String) (outcome : Outcome) (k : String) :
    (r.fill name outcome).2.slots.get? k =
      if name = k then some ((r.slot name).set outcome).2 else r.slots.get? k :=
  Table.get?_insert r.slots name _ k

theorem slot_fill_of_ne (r : Replies) {name other : String} (outcome : Outcome)
    (hne : name ≠ other) : (r.fill name outcome).2.slot other = r.slot other := by
  rw [slot, get?_slots_fill, if_neg hne, slot]

/-- **Two slots are filled with one outcome** in either order, also if they are one slot. -/
theorem fill_comm (r : Replies) (outcome : Outcome) (name other : String) :
    ((r.fill name outcome).2.fill other outcome).2 =
      ((r.fill other outcome).2.fill name outcome).2 := by
  by_cases he : name = other
  · rw [he]
  suffices hslots : ((r.fill name outcome).2.fill other outcome).2.slots =
      ((r.fill other outcome).2.fill name outcome).2.slots from
    congrArg (Replies.mk r.registry) hslots
  refine Table.ext_get? fun k => ?_
  simp only [get?_slots_fill, slot_fill_of_ne r outcome he,
    slot_fill_of_ne r outcome (Ne.symm he)]
  by_cases hname : name = k
  · rw [if_neg fun hother => he (hname.trans hother.symm)]
    simp only [if_pos hname]
  · simp only [if_neg hname]

theorem fillAll_perm (r : Replies) (outcome : Outcome) {names names' : List String}
    (hp : names.Perm names') : r.fillAll names outcome = r.fillAll names' outcome :=
  hp.foldl_eq' (fun name _ other _ r => r.fill_comm outcome name other) r

/-- **The end of a subscription in any order** leaves the same registry and the same slots. A slot
that is filed under several ids is drained several times. -/
theorem handleIn_eq (r : Replies) (tag : String) {order : List String}
    (ho : order.Perm r.registry.drain.1) (event : Event) :
    r.handleIn tag order event = r.handle tag event := by
  cases event with
  | delivery => rfl
  | shutdown cause => exact fillAll_perm _ _ ho
  | cancelled => exact fillAll_perm _ _ ho

end Replies

/-! ## The order does not show -/

/-- **What a shutdown does is the same in any order**: in whatever order the subscriptions, the
exclusive queues and, each time, the exchanges are enumerated, the broker is left in one state and
each subscription gets the same events; and in whatever order the drained slots are filled when
the reply subscription ends, they end up with the same values. -/
theorem shutdown_in_any_order {b : Broker} {cause : Shutdown} {channel : Nat}
    {ends removals : List Broker.Turn} (h : b.Enumerates cause channel ends removals) {r : Replies}
    {order : List String} (ho : order.Perm r.registry.drain.1) :
    (b.shutdownIn cause channel ends removals).1 = (b.shutdownChannel cause channel).1 ∧
      (∀ tag, eventsTo tag (b.shutdownIn cause channel ends removals).2 =
        eventsTo tag (b.shutdownChannel cause channel).2) ∧
      ∀ tag event, r.handleIn tag order event = r.handle tag event := by
  obtain ⟨hbroker, hevents⟩ := Broker.shutdownIn_eq h
  exact ⟨hbroker, hevents, fun tag => r.handleIn_eq tag ho⟩

/-- The channel has three exclusive queues and a shared one, all bound; it consumes from the first
exclusive queue and from the shared one. -/
def boundQueues : Broker :=
  (Broker.run {} [.openChannel, .declareExchange 1 "jobs", .declareExchange 1 "logs",
    .declareExclusive 1, .declareExclusive 1, .declareExclusive 1, .declareQueue 1 "work",
    .bind 1 "amq.gen-1" "jobs" "new", .bind 1 "amq.gen-2" "jobs" "new",
    .bind 1 "work" "jobs" "new", .bind 1 "amq.gen-3" "logs" "old", .consume 1 "amq.gen-1",
    .consume 1 "work"]).1

/-- One slot is filed under two ids, another one is filled already. -/
def sharedSlot : Replies where
  registry := { pending := .ofList [("1", "a"), ("2", "b"), ("3", "a")] }
  slots := .ofList [("a", {}), ("b", { value := some (.shutdown (.channelClosed 7)) })]

theorem shutdown_in_any_order_backwards :
    ∃ ends removals, ends = [⟨"ctag-1.2", ["logs", "jobs"]⟩, ⟨"ctag-1.1", ["jobs", "logs"]⟩] ∧
      removals = [⟨"amq.gen-3", ["logs", "jobs"]⟩, ⟨"amq.gen-2", ["logs", "jobs"]⟩] ∧
      (boundQueues.shutdownIn (.channelClosed 1) 1 ends removals).1 =
        (boundQueues.shutdownChannel (.channelClosed 1) 1).1 ∧
      (boundQueues.shutdownChannel (.channelClosed 1) 1).1.exchanges.get? "jobs" =
        some [⟨"new", "work"⟩] ∧
      eventsTo "ctag-1.1" (boundQueues.shutdownIn (.channelClosed 1) 1 ends removals).2 =
        [.shutdown (.channelClosed 1)] ∧
      sharedSlot.handleIn "t" ["b", "a", "a"] .cancelled = sharedSlot.handle "t" .cancelled ∧
      (sharedSlot.handle "t" .cancelled).filled =
        [("a", .shutdown (.consumerCancelled "t")), ("b", .shutdown (.channelClosed 7))] := by
  have h : boundQueues.Enumerates (.channelClosed 1) 1
      [⟨"ctag-1.2", ["logs", "jobs"]⟩, ⟨"ctag-1.1", ["jobs", "logs"]⟩]
      [⟨"amq.gen-3", ["logs", "jobs"]⟩, ⟨"amq.gen-2", ["logs", "jobs"]⟩] :=
    ⟨by decide, by decide, by decide⟩
  have ho : ["b", "a", "a"].Perm sharedSlot.registry.drain.1 := by decide
  obtain ⟨hbroker, hevents, hreplies⟩ := shutdown_in_any_order h ho
  refine ⟨_, _, rfl, rfl, hbroker, by decide, ?_, hreplies "t" .cancelled, by decide⟩
  exact (hevents "ctag-1.1").trans (by decide)

end BrokeredRpc
