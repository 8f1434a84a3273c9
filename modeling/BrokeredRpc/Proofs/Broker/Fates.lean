import BrokeredRpc.Proofs.Broker.Consistency

/-!
# What an operation means to a subscription

A subscription is made, goes on, or ends, and an operation does one of these to
each tag: `Fate` lists the cases, with the events that the consumer gets.
`Ends` says when an operation ends a subscription, by what it does to the
channel or to the queue and not by what it sends. Nothing is asked of the names
that callers choose; all that is needed is that a queue's consumer is subscribed
to it (`Serving`), which every operation keeps.

* `perform_fate`: the cases are all there is;
* `Ends.perform`: an operation that ends a subscription takes it out of the
  table and sends one event, the one that belongs to the way it ended;
* `closedBy?_perform`: the cause that closes a channel stays recorded.
-/
namespace BrokeredRpc.Broker

open Operation (Value)

variable {b : Broker}

/-! ## Consumers and their subscriptions -/

/-- A queue's consumer has a subscription, and on that queue. -/
def Serving (b : Broker) : Prop :=
  ∀ name q tag, b.queues.get? name = some q → q.consumer = some tag →
    ∃ s, b.subscriptions.get? tag = some s ∧ s.queue = name

theorem get?_queues_detach (b : Broker) (queue name : String) :
    (b.detach queue).queues.get? name =
      if queue = name then
        (b.queues.get? name).bind fun q =>
          if q.owner.isSome then none else some { q with consumer := none }
      else b.queues.get? name := by
  unfold detach
  by_cases he : queue = name
  · subst he
    rw [if_pos rfl]
    cases hq : b.queues.get? queue with
    | none => exact hq
    | some q =>
      dsimp only [Option.bind_some]
      split
      · rw [get?_queues_removeQueue, if_pos rfl]
      · exact Table.get?_insert_self _ _ _
  · rw [if_neg he]
    split
    · rfl
    · split
      · rw [get?_queues_removeQueue, if_neg he]
      · exact (Table.get?_insert _ _ _ _).trans (if_neg he)

namespace Serving

theorem empty : Serving {} := by
  intro name q tag hq
  cases hq

theorem of_queues {b' : Broker} (h : b.Serving) (hs : b'.subscriptions = b.subscriptions)
    (hq : ∀ name q' tag, b'.queues.get? name = some q' → q'.consumer = some tag →
      ∃ q, b.queues.get? name = some q ∧ q.consumer = some tag) : b'.Serving := by
  intro name q' tag hq' hc
  obtain ⟨q, hqb, hcb⟩ := hq name q' tag hq' hc
  rw [hs]
  exact h name q tag hqb hcb

theorem insertQueue (h : b.Serving) (name : String) {q' : Queue}
    (hc : ∀ tag, q'.consumer = some tag → ∃ q, b.queues.get? name = some q ∧
      q.consumer = some tag) : Serving { b with queues := b.queues.insert name q' } := by
  refine h.of_queues rfl fun name' r tag hr hrc => ?_
  simp only [Table.get?_insert] at hr
  split at hr
  · next he => cases hr; exact he ▸ hc tag hrc
  · exact ⟨r, hr, hrc⟩

theorem removeQueue (h : b.Serving) (name : String) : (b.removeQueue name).Serving := by
  refine h.of_queues rfl fun name' r tag hr hrc => ?_
  rw [get?_queues_removeQueue] at hr
  split at hr
  · cases hr
  · exact ⟨r, hr, hrc⟩

theorem foldl_removeQueue (names : List String) :
    ∀ {b : Broker}, b.Serving → (names.foldl Broker.removeQueue b).Serving := by
  induction names with
  | nil => exact fun h => h
  | cons name rest ih => exact fun h => ih (h.removeQueue name)

theorem endSubscription (h : b.Serving) (tag : String) (last : Event) :
    (b.endSubscription tag last).1.Serving := by
  intro name q tag' hq hc
  rw [get?_subscriptions_endSubscription]
  unfold Broker.endSubscription at hq
  split at hq
  · next hn =>
    obtain ⟨s, hs, he⟩ := h name q tag' hq hc
    rw [if_neg, hs]
    · exact ⟨s, rfl, he⟩
    · rintro rfl
      rw [hn] at hs; cases hs
  · next s hs =>
    simp only [get?_queues_detach] at hq
    split at hq
    · -- The queue of the subscription has no consumer left.
      obtain ⟨p, -, hp⟩ := Option.bind_eq_some_iff.1 hq
      split at hp
      · cases hp
      · cases hp; cases hc
    · next hne =>
      obtain ⟨s', hs', he⟩ := h name q tag' hq hc
      rw [if_neg, hs']
      · exact ⟨s', rfl, he⟩
      · rintro rfl
        rw [hs] at hs'; cases hs'
        exact hne he

theorem enqueue (h : b.Serving) (name : String) (m : Message) : (b.enqueue name m).1.Serving := by
  unfold Broker.enqueue
  split
  · exact h
  · next q hq =>
    split
    · exact h.of_queues rfl fun _ r _ hr hrc => ⟨r, hr, hrc⟩
    · exact h.insertQueue name fun tag hc => ⟨q, hq, hc⟩

theorem shutdownChannel (h : b.Serving) (cause : Shutdown) (c : Nat) :
    (b.shutdownChannel cause c).1.Serving := by
  unfold Broker.shutdownChannel
  split
  · have hr : (b.recordClosed c cause).Serving := h
    have he : ((b.recordClosed c cause).endSubscriptions (.shutdown cause)
        ((b.recordClosed c cause).tagsOf c)).1.Serving :=
      forEach_induct _ _ (fun b tag _ hb => hb.endSubscription tag _) hr
    exact foldl_removeQueue _ he
  · exact h

theorem subscribe (h : b.Serving) {name tag : String} {c : Nat} (q : Queue)
    (hn : b.subscriptions.get? tag = none) :
    Serving { b with
      queues := b.queues.insert name { q with consumer := some tag }
      subscriptions := b.subscriptions.insert tag ⟨c, name⟩ } := by
  intro name' r tag' hr hrc
  simp only [Table.get?_insert] at hr ⊢
  split at hr
  · next he =>
    cases hr; cases hrc
    exact ⟨⟨c, name⟩, if_pos rfl, he⟩
  · obtain ⟨s, hs, he⟩ := h name' r tag' hr hrc
    refine ⟨s, ?_, he⟩
    rw [if_neg, hs]
    rintro rfl
    rw [hn] at hs; cases hs

end Serving

theorem Linked.serving (h : b.Linked) : b.Serving := fun _ _ _ hq hc => h.subscription hq hc

theorem serving_perform (h : b.Serving) (op : Operation)
    (htags : ∀ c n, b.issuedTags < n → b.subscriptions.get? (tagName c n) = none) :
    (b.perform op).broker.Serving := by
  rcases perform_cases b op with ⟨e, hr⟩ | hg
  · rw [hr]; exact h
  generalize b.perform op = effect at hg
  cases hg with
  | opened => exact h
  | exchangeKept => exact h
  | exchangeAdded => exact h
  | queueKept => exact h
  | queueAdded => exact h.insertQueue _ fun _ hc => nomatch hc
  | exclusiveAdded => exact h.insertQueue _ fun _ hc => nomatch hc
  | bindingKept => exact h
  | bindingAdded => exact h
  | @subscribed c name q =>
    intro name' r tag' hr hrc
    exact h.subscribe (c := c) { q with backlog := ∅ } (htags c _ (Nat.lt_succ_self _))
      name' r tag' hr hrc
  | @deletedBusy c name tag q hc hq ha ht =>
    intro name' r tag' hr hrc
    obtain ⟨hne, hr⟩ : name ≠ name' ∧ b.queues.get? name' = some r := by
      have hr' := (get?_queues_removeQueue _ name name').symm.trans hr
      split at hr'
      · cases hr'
      · next hne => exact ⟨hne, hr'⟩
    obtain ⟨s, hs, he⟩ := h name' r tag' hr hrc
    refine ⟨s, ?_, he⟩
    refine (Table.get?_erase _ _ _).trans ?_
    rw [if_neg, hs]
    rintro rfl
    obtain ⟨s', hs', he'⟩ := h name q tag hq (Option.filter_eq_some_iff.1 ht).1
    rw [hs] at hs'; cases hs'
    exact hne (he'.symm.trans he)
  | deletedIdle => exact h.removeQueue _
  | cancelled => exact h.endSubscription _ _
  | @published c m queues => exact forEach_induct queues b (fun b' name _ hb => hb.enqueue name m) h
  | closed => exact h.shutdownChannel _ _
  | aborted => exact h.shutdownChannel _ _
  | lost => exact forEach_induct _ b (fun b' c _ hb => hb.shutdownChannel _ c) h

/-! ## One operation -/

/-- The operation cancels the subscription, or deletes its queue on a channel that may. -/
inductive Cancels (b : Broker) (tag : String) (s : Subscription) : Operation → Prop
  | cancel : Cancels b tag s (.cancel s.channel tag)
  | delete {c : Nat} {q : Queue} (ho : b.isOpen c = true) (hq : b.queues.get? s.queue = some q)
      (ha : q.admits c = true) (hc : q.consumer = some tag) :
      Cancels b tag s (.deleteQueue c s.queue)

/-- What an operation means to one subscription: there is none, it is made, it goes on, or it
ends because its channel is shut down or because it is cancelled. -/
inductive Fate (b : Broker) (op : Operation) (tag : String) (effect : Effect Value) : Prop
  | absent (h : b.subscriptions.get? tag = none)
      (h' : effect.broker.subscriptions.get? tag = none) (he : eventsTo tag effect.sent = [])
  | made {c : Nat} {name : String} (deliveries : List Delivery) (ho : op = .consume c name)
      (ht : tag = tagName c (b.issuedTags + 1)) (h : b.subscriptions.get? tag = none)
      (h' : effect.broker.subscriptions.get? tag = some ⟨c, name⟩)
      (ha : effect.answer = .ok (.name tag))
      (he : eventsTo tag effect.sent = deliveries.map .delivery)
  | goesOn {s : Subscription} (deliveries : List Delivery) (h : b.subscriptions.get? tag = some s)
      (h' : effect.broker.subscriptions.get? tag = some s)
      (he : eventsTo tag effect.sent = deliveries.map .delivery)
  | shutDown {s : Subscription} {cause : Shutdown} (h : b.subscriptions.get? tag = some s)
      (h' : effect.broker.subscriptions.get? tag = none) (ho : b.isOpen s.channel = true)
      (hc : effect.broker.closedBy? s.channel = some cause)
      (he : eventsTo tag effect.sent = [.shutdown cause])
  | cancelled {s : Subscription} (h : b.subscriptions.get? tag = some s)
      (h' : effect.broker.subscriptions.get? tag = none) (hc : Cancels b tag s op)
      (he : eventsTo tag effect.sent = [.cancelled])

theorem Fate.quiet {op : Operation} {tag : String} {effect : Effect Value}
    (hs : effect.broker.subscriptions.get? tag = b.subscriptions.get? tag)
    (he : eventsTo tag effect.sent = []) : Fate b op tag effect := by
  cases h : b.subscriptions.get? tag with
  | none => exact .absent h (hs.trans h) he
  | some s => exact .goesOn [] h (hs.trans h) he

theorem eventsTo_deliveries (tag t : String) (deliveries : List Delivery) :
    eventsTo t (deliveries.map fun d => ⟨tag, .delivery d⟩) =
      if tag = t then deliveries.map .delivery else [] := by
  have h := eventsTo_map tag t (deliveries.map .delivery)
  rwa [List.map_map] at h

theorem subscriptions_enqueue (b : Broker) (name : String) (m : Message) :
    (b.enqueue name m).1.subscriptions = b.subscriptions := by
  unfold enqueue
  split
  · rfl
  · split <;> rfl

theorem eventsTo_enqueue (b : Broker) (name : String) (m : Message) (t : String) :
    eventsTo t (b.enqueue name m).2 = [] ∨
      (b.subscriptions.get? t).isSome ∧ ∃ d, eventsTo t (b.enqueue name m).2 = [.delivery d] := by
  unfold enqueue
  split
  · exact Or.inl rfl
  · split
    · next tag ht =>
      simp only [eventsTo_cons, eventsTo_nil, List.append_nil]
      split
      · next he =>
        exact Or.inr ⟨he ▸ (Option.filter_eq_some_iff.1 ht).2, _, rfl⟩
      · exact Or.inl rfl
    · exact Or.inl rfl

theorem subscriptions_enqueueAll (b : Broker) (m : Message) (queues : List String) :
    (b.enqueueAll m queues).1.subscriptions = b.subscriptions :=
  forEach_induct (P := fun b' => b'.subscriptions = b.subscriptions) queues b
    (fun b' name _ h => (subscriptions_enqueue b' name m).trans h) rfl

theorem eventsTo_enqueueAll (m : Message) (t : String) (queues : List String) :
    ∀ b : Broker, ∃ deliveries : List Delivery,
      eventsTo t (b.enqueueAll m queues).2 = deliveries.map .delivery ∧
        (b.subscriptions.get? t = none → deliveries = []) := by
  induction queues with
  | nil => exact fun b => ⟨[], rfl, fun _ => rfl⟩
  | cons name rest ih =>
    intro b
    obtain ⟨more, hmore, hnone⟩ := ih (b.enqueue name m).1
    rw [subscriptions_enqueue] at hnone
    rw [enqueueAll, forEach_cons, eventsTo_append]
    rcases eventsTo_enqueue b name m t with h | ⟨hs, d, h⟩ <;> rw [h]
    · exact ⟨more, hmore, hnone⟩
    · refine ⟨d :: more, congrArg (_ :: ·) hmore, fun hn => ?_⟩
      rw [hn] at hs; cases hs

theorem fate_shutdownChannel (op : Operation) (tag : String) (cause : Shutdown) {c : Nat}
    (hi : b.Issued c) (answer : Value) :
    Fate b op tag
      ((b.shutdownChannel cause c).1.grant answer (b.shutdownChannel cause c).2) := by
  cases hs : b.subscriptions.get? tag with
  | none =>
    refine .absent hs ?_ ?_
    · exact (get?_subscriptions_shutdownChannel b cause c tag).trans (by rw [hs]; rfl)
    · exact (eventsTo_shutdownChannel b cause c tag).trans (by rw [hs]; rfl)
  | some s =>
    rcases shutdownChannel_cases hi cause hs with ⟨h', he⟩ | ⟨h', he, ho, hc⟩
    · exact .goesOn [] hs h' he
    · exact .shutDown hs h' ho hc he

/-- **One operation and one subscription.** -/
theorem perform_fate (h : b.Serving) {op : Operation} (hi : ∀ c ∈ op.channel?, b.Issued c)
    (htags : ∀ c n, b.issuedTags < n → b.subscriptions.get? (tagName c n) = none) (t : String) :
    Fate b op t (b.perform op) := by
  rcases perform_cases b op with ⟨e, hr⟩ | hg
  · rw [hr]; exact .quiet rfl rfl
  generalize b.perform op = effect at hg
  cases hg with
  | opened => exact .quiet rfl rfl
  | exchangeKept => exact .quiet rfl rfl
  | exchangeAdded => exact .quiet rfl rfl
  | queueKept => exact .quiet rfl rfl
  | queueAdded => exact .quiet rfl rfl
  | exclusiveAdded => exact .quiet rfl rfl
  | bindingKept => exact .quiet rfl rfl
  | bindingAdded => exact .quiet rfl rfl
  | @subscribed c name q hc hq ha hn =>
    by_cases ht : tagName c (b.issuedTags + 1) = t
    · subst ht
      refine .made (numbered (b.deliveries + 1) q.backlog.toList) rfl rfl
        (htags c _ (Nat.lt_succ_self _)) (Table.get?_insert_self _ _ _) rfl ?_
      exact (eventsTo_deliveries _ _ _).trans (if_pos rfl)
    · refine .quiet ?_ ((eventsTo_deliveries _ _ _).trans (if_neg ht))
      exact (Table.get?_insert _ _ _ _).trans (if_neg ht)
  | @deletedBusy c name tag q hc hq ha ht =>
    by_cases he : tag = t
    · subst he
      have hcon := (Option.filter_eq_some_iff.1 ht).1
      obtain ⟨s, hs, rfl⟩ := h name q tag hq hcon
      refine .cancelled hs (Table.get?_erase_self _ _) (.delete hc hq ha hcon) ?_
      exact (eventsTo_cons _ _ _).trans (by rw [if_pos rfl]; rfl)
    · refine .quiet ((Table.get?_erase _ _ _).trans (if_neg he)) ?_
      exact (eventsTo_cons _ _ _).trans (by rw [if_neg he]; rfl)
  | deletedIdle => exact .quiet rfl rfl
  | @cancelled c tag s hc hs hch =>
    have hget := get?_subscriptions_endSubscription b tag .cancelled t
    have hsent := eventsTo_endSubscription b tag .cancelled t
    by_cases he : tag = t
    · subst he hch
      rw [if_pos rfl] at hget
      rw [if_pos ⟨rfl, by rw [hs]; rfl⟩] at hsent
      exact .cancelled hs hget .cancel hsent
    · rw [if_neg he] at hget
      rw [if_neg fun hc => he hc.1] at hsent
      exact .quiet hget hsent
  | @published c m queues hc hr =>
    obtain ⟨deliveries, he, hnone⟩ := eventsTo_enqueueAll m t queues b
    have hkept : (b.enqueueAll m queues).1.subscriptions.get? t = b.subscriptions.get? t := by
      rw [subscriptions_enqueueAll]
    cases hs : b.subscriptions.get? t with
    | none => exact .absent hs (hkept.trans hs) (he.trans (by rw [hnone hs]; rfl))
    | some s => exact .goesOn deliveries hs (hkept.trans hs) he
  | closed => exact fate_shutdownChannel _ t _ (hi _ rfl) _
  | aborted => exact fate_shutdownChannel _ t _ (hi _ rfl) _
  | @lost reason =>
    cases hs : b.subscriptions.get? t with
    | none =>
      obtain ⟨h', he⟩ := shutdownChannels_of_absent (.connectionAborted reason)
        (List.range' 1 b.channels.size) hs
      exact .absent hs h' he
    | some s =>
      rcases shutdownChannels_cases (.connectionAborted reason)
        (List.range' 1 b.channels.size) (issued_range' b) hs with ⟨h', he⟩ | ⟨h', he, ho, hc⟩
      · exact .goesOn [] hs h' he
      · exact .shutDown hs h' ho hc he

/-! ## What ends a subscription -/

/-- A granted subscription is new, in the table, and numbered by the broker. -/
theorem of_consume_answer {c : Nat} {name tag : String}
    (h : (b.perform (.consume c name)).answer = .ok (.name tag)) :
    tag = tagName c (b.issuedTags + 1) ∧
      (b.perform (.consume c name)).broker.subscriptions.get? tag = some ⟨c, name⟩ ∧
      (b.perform (.consume c name)).broker.issuedTags = b.issuedTags + 1 := by
  rcases perform_cases b (.consume c name) with ⟨e, hr⟩ | hg
  · rw [hr] at h; cases h
  generalize b.perform (.consume c name) = effect at hg h
  cases hg
  cases h
  exact ⟨rfl, Table.get?_insert_self _ _ _, rfl⟩

theorem issuedTags_le_perform (b : Broker) (op : Operation) :
    b.issuedTags ≤ (b.perform op).broker.issuedTags := by
  rcases perform_cases b op with ⟨e, hr⟩ | hg
  · rw [hr]; exact Nat.le_refl _
  generalize b.perform op = effect at hg
  cases hg with
  | subscribed => exact Nat.le_succ _
  | cancelled => exact Nat.le_of_eq (Shrinks.endSubscription b _ _).issued.symm
  | @published c m queues =>
    exact Nat.le_of_eq (Shrinks.repeated (fun b name => .enqueue b name m) queues b).issued.symm
  | closed => exact Nat.le_of_eq (Shrinks.shutdownChannel b _ _).issued.symm
  | aborted => exact Nat.le_of_eq (Shrinks.shutdownChannel b _ _).issued.symm
  | lost => exact Nat.le_of_eq (Shrinks.shutdownChannels b _ _).issued.symm
  | _ => exact Nat.le_refl _

theorem issued_perform {op : Operation} {d : Nat} (h : b.Issued d) :
    (b.perform op).broker.Issued d := by
  rcases perform_cases b op with ⟨e, hr⟩ | hg
  · rw [hr]; exact h
  generalize b.perform op = effect at hg
  cases hg with
  | opened => exact ⟨h.1, Nat.le_trans h.2 (by simp [grant, openChannel])⟩
  | cancelled => exact (issued_congr (congrArg Array.size (channels_endSubscription b _ _))).2 h
  | @published c m queues =>
    exact (issued_congr (congrArg Array.size (channels_enqueueAll b m queues))).2 h
  | closed => exact (issued_congr (size_channels_shutdownChannel b _ _)).2 h
  | aborted => exact (issued_congr (size_channels_shutdownChannel b _ _)).2 h
  | lost => exact (issued_congr (size_channels_shutdownChannels _ _ b)).2 h
  | _ => exact h

/-- The first cause that closes a channel is the one recorded for it ever after. -/
theorem closedBy?_perform {op : Operation} (hi : ∀ c ∈ op.channel?, b.Issued c) {d : Nat}
    {cause : Shutdown} (h : b.closedBy? d = some cause) :
    (b.perform op).broker.closedBy? d = some cause := by
  have hshut : ∀ (other : Shutdown) {c : Nat}, b.Issued c →
      (b.shutdownChannel other c).1.closedBy? d = some cause := by
    intro other c hc
    rw [closedBy?_shutdownChannel hc, if_neg, h]
    rintro ⟨rfl, ho⟩
    rw [isOpen_iff, h] at ho; cases ho
  rcases perform_cases b op with ⟨e, hr⟩ | hg
  · rw [hr]; exact h
  generalize b.perform op = effect at hg
  cases hg with
  | opened => exact (closedBy?_openChannel b d).trans h
  | cancelled => exact (closedBy?_congr (channels_endSubscription b _ _) d).trans h
  | @published c m queues => exact (closedBy?_congr (channels_enqueueAll b m queues) d).trans h
  | closed => exact hshut _ (hi _ rfl)
  | aborted => exact hshut _ (hi _ rfl)
  | lost => exact closedBy?_shutdownChannels _ (issued_range' b) h
  | _ => exact (closedBy?_congr rfl d).trans h

/-- A cancellation on an open channel takes the subscription out, and shuts no channel down. -/
theorem Cancels.perform {op : Operation} {tag : String} {s : Subscription}
    (h : Cancels b tag s op) (hs : b.subscriptions.get? tag = some s)
    (ho : b.isOpen s.channel = true) :
    (b.perform op).broker.subscriptions.get? tag = none ∧
      (b.perform op).broker.channels = b.channels := by
  cases h with
  | cancel =>
    have hp : b.perform (.cancel s.channel tag) =
        (b.endSubscription tag .cancelled).1.grant .nothing
          (b.endSubscription tag .cancelled).2 := by
      simp only [Broker.perform, Broker.cancel, onChannel, isOpen_iff.1 ho, hs, if_true]
      rfl
    rw [hp]
    refine ⟨?_, channels_endSubscription b tag _⟩
    exact (get?_subscriptions_endSubscription b tag _ tag).trans (if_pos rfl)
  | @delete c q hoc hq ha hc =>
    have ht : b.consumerOf? q = some tag :=
      Option.filter_eq_some_iff.2 ⟨hc, Option.isSome_of_eq_some hs⟩
    have hp : b.perform (.deleteQueue c s.queue) =
        ({ b with subscriptions := b.subscriptions.erase tag }.removeQueue s.queue).grant .nothing
          [⟨tag, .cancelled⟩] := by
      simp only [Broker.perform, Broker.deleteQueue, onChannel, onQueue, isOpen_iff.1 hoc, hq, ha,
        ht, Bool.not_true, Bool.false_eq_true, if_false]
      rfl
    rw [hp]
    exact ⟨Table.get?_erase_self _ _, rfl⟩

/-- The operation ends the subscription, and `last` is what its consumer is told. -/
inductive Ends (b : Broker) (op : Operation) (tag : String) (s : Subscription) : Event → Prop
  | shutDown {cause : Shutdown} (hs : b.subscriptions.get? tag = some s)
      (ho : b.isOpen s.channel = true)
      (hc : (b.perform op).broker.closedBy? s.channel = some cause) :
      Ends b op tag s (.shutdown cause)
  | cancelled (hs : b.subscriptions.get? tag = some s) (hc : Cancels b tag s op) :
      Ends b op tag s .cancelled

theorem ends_shutdown_iff {op : Operation} {tag : String} {s : Subscription} {cause : Shutdown} :
    Ends b op tag s (.shutdown cause) ↔ b.subscriptions.get? tag = some s ∧
      b.isOpen s.channel = true ∧ (b.perform op).broker.closedBy? s.channel = some cause := by
  refine ⟨fun h => ?_, fun ⟨hs, ho, hc⟩ => .shutDown hs ho hc⟩
  cases h with
  | shutDown hs ho hc => exact ⟨hs, ho, hc⟩

theorem ends_cancelled_iff {op : Operation} {tag : String} {s : Subscription} :
    Ends b op tag s .cancelled ↔ b.subscriptions.get? tag = some s ∧ Cancels b tag s op := by
  refine ⟨fun h => ?_, fun ⟨hs, hc⟩ => .cancelled hs hc⟩
  cases h with
  | cancelled hs hc => exact ⟨hs, hc⟩

theorem Ends.isTerminal {op : Operation} {tag : String} {s : Subscription} {last : Event}
    (h : Ends b op tag s last) : last.isTerminal = true := by
  cases h <;> rfl

theorem Ends.subscribed {op : Operation} {tag : String} {s : Subscription} {last : Event}
    (h : Ends b op tag s last) : b.subscriptions.get? tag = some s := by
  cases h <;> assumption

/-- An operation ends a subscription in one way, and takes it out of the table. -/
theorem Ends.perform (hb : b.Serving) (hh : b.Held) {op : Operation}
    (hi : ∀ c ∈ op.channel?, b.Issued c)
    (htags : ∀ c n, b.issuedTags < n → b.subscriptions.get? (tagName c n) = none) {tag : String}
    {s : Subscription} {last : Event} (h : Ends b op tag s last) :
    (b.perform op).broker.subscriptions.get? tag = none ∧
      eventsTo tag (b.perform op).sent = [last] := by
  have hs := h.subscribed
  have ho := (hh.subscriber tag s hs).2
  cases perform_fate hb hi htags tag with
  | absent h₀ => rw [hs] at h₀; cases h₀
  | made _ _ _ h₀ => rw [hs] at h₀; cases h₀
  | @goesOn s' _ h₀ h₁ =>
    rw [hs] at h₀; cases h₀
    cases h with
    | shutDown _ _ hc =>
      have := ((held_perform hh hi).subscriber tag s h₁).2
      rw [isOpen_iff, hc] at this; cases this
    | cancelled _ hc => rw [(hc.perform hs ho).1] at h₁; cases h₁
  | @shutDown s' cause h₀ h₁ _ hc he =>
    rw [hs] at h₀; cases h₀
    refine ⟨h₁, he.trans ?_⟩
    cases h with
    | shutDown _ _ hc' => rw [hc] at hc'; cases hc'; rfl
    | cancelled _ hc' =>
      rw [closedBy?_congr (hc'.perform hs ho).2, isOpen_iff.1 ho] at hc; cases hc
  | @cancelled s' h₀ h₁ hc he =>
    rw [hs] at h₀; cases h₀
    refine ⟨h₁, he.trans ?_⟩
    cases h with
    | shutDown _ _ hc' =>
      rw [closedBy?_congr (hc.perform hs ho).2, isOpen_iff.1 ho] at hc'; cases hc'
    | cancelled => rfl

end BrokeredRpc.Broker
