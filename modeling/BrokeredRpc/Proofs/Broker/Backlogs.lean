import BrokeredRpc.Proofs.Broker.Consistency

/-!
# Backlogs and what is handed out

A message that comes to a queue is handed to the queue's consumer, or waits in
the backlog until there is one. Here is what single steps do to the messages
that wait in a queue (`waiting`) and which deliveries they send (`deliveriesTo`):
steps that end something leave the backlogs of the queues that stay as they are
and send no delivery, and a message that goes to several queues reaches each of
them once (`enqueueAll_busy`, `enqueueAll_idle`).
-/
namespace BrokeredRpc

/-! ## Deliveries in a stream -/

def Event.delivery? : Event → Option Delivery
  | .delivery d => some d
  | .shutdown _ | .cancelled => none

/-- The deliveries sent to one subscription, in order. -/
def deliveriesTo (tag : String) (sent : List Dispatch) : List Delivery :=
  (eventsTo tag sent).filterMap Event.delivery?

@[simp] theorem deliveriesTo_append (tag : String) (sent more : List Dispatch) :
    deliveriesTo tag (sent ++ more) = deliveriesTo tag sent ++ deliveriesTo tag more := by
  rw [deliveriesTo, eventsTo_append, List.filterMap_append]
  rfl

theorem deliveriesTo_of_eventsTo {tag : String} {sent : List Dispatch} {deliveries : List Delivery}
    (h : eventsTo tag sent = deliveries.map .delivery) : deliveriesTo tag sent = deliveries := by
  rw [deliveriesTo, h, List.filterMap_map]
  exact List.filterMap_some

theorem deliveriesTo_of_terminal {tag : String} {sent : List Dispatch} {last : Event}
    (hl : last.isTerminal = true) (h : eventsTo tag sent = [last]) :
    deliveriesTo tag sent = [] := by
  rw [deliveriesTo, h]
  cases last with
  | delivery => cases hl
  | shutdown => rfl
  | cancelled => rfl

/-- What the subscriptions were handed, one subscription after another. -/
def handed (tags : List String) (sent : List Dispatch) : List Delivery :=
  tags.flatMap fun tag => deliveriesTo tag sent

/-- Delivery numbers increase. -/
def Ascending (deliveries : List Delivery) : Prop :=
  deliveries.Pairwise fun d d' => d.envelope.deliveryTag < d'.envelope.deliveryTag

theorem handed_of_silent {tags : List String} {sent more : List Dispatch}
    (h : ∀ tag ∈ tags, deliveriesTo tag more = []) :
    handed tags (sent ++ more) = handed tags sent := by
  unfold handed
  rw [List.flatMap_def, List.flatMap_def]
  refine congrArg List.flatten (List.map_congr_left fun tag ht => ?_)
  rw [deliveriesTo_append, h tag ht, List.append_nil]

theorem handed_of_last {former : List String} {tag : String} {sent more : List Dispatch}
    (h : ∀ tag ∈ former, deliveriesTo tag more = []) :
    handed (former ++ [tag]) (sent ++ more) =
      handed (former ++ [tag]) sent ++ deliveriesTo tag more := by
  have hformer : handed former (sent ++ more) = handed former sent := handed_of_silent h
  unfold handed at hformer ⊢
  rw [List.flatMap_append, List.flatMap_append, hformer]
  simp

namespace Broker

open Operation (Value)

/-! ## Numbered deliveries -/

theorem map_message_numbered (msgs : List Message) :
    ∀ next, (numbered next msgs).map Delivery.message = msgs := by
  induction msgs with
  | nil => exact fun _ => rfl
  | cons m rest ih => exact fun next => congrArg (m :: ·) (ih (next + 1))

theorem deliveryTag_of_mem_numbered {d : Delivery} (msgs : List Message) :
    ∀ {next}, d ∈ numbered next msgs →
      next ≤ d.envelope.deliveryTag ∧ d.envelope.deliveryTag < next + msgs.length := by
  induction msgs with
  | nil => exact fun h => absurd h List.not_mem_nil
  | cons m rest ih =>
    intro next h
    rw [List.length_cons]
    rcases List.mem_cons.1 h with rfl | h
    · exact ⟨Nat.le_refl _, Nat.lt_add_of_pos_right (Nat.succ_pos _)⟩
    · have := ih h
      omega

theorem ascending_numbered (msgs : List Message) : ∀ next, Ascending (numbered next msgs) := by
  induction msgs with
  | nil => exact fun _ => .nil
  | cons m rest ih =>
    refine fun next => .cons (fun d hd => ?_) (ih (next + 1))
    exact (deliveryTag_of_mem_numbered rest hd).1

/-! ## What waits in a queue -/

variable {b : Broker} {name : String}

/-- The messages in the queue's backlog, oldest first. -/
def waiting (name : String) (b : Broker) : List Message :=
  (b.queues.get? name).elim [] fun q => q.backlog.toList

def consumerOn? (name : String) (b : Broker) : Option String :=
  (b.queues.get? name).bind (·.consumer)

theorem waiting_of_get? {q : Queue} (h : b.queues.get? name = some q) :
    b.waiting name = q.backlog.toList := by
  rw [waiting, h]; rfl

theorem consumerOn?_of_get? {q : Queue} (h : b.queues.get? name = some q) :
    b.consumerOn? name = q.consumer := by
  rw [consumerOn?, h]; rfl

theorem waiting_congr {b' : Broker} (h : b'.queues.get? name = b.queues.get? name) :
    b'.waiting name = b.waiting name := by
  rw [waiting, waiting, h]

/-- In a linked broker, the consumer of a queue is who is subscribed to it. -/
theorem Linked.consumerOn?_iff (h : b.Linked) {tag : String} :
    b.consumerOn? name = some tag ↔ ∃ s, b.subscriptions.get? tag = some s ∧ s.queue = name := by
  rw [h.subscribed_iff, consumerOn?, Option.bind_eq_some_iff]

theorem waiting_trim {ended removed : String → Bool}
    (hs : ((b.trim ended removed).queues.get? name).isSome) :
    (b.trim ended removed).waiting name = b.waiting name := by
  obtain ⟨q, hq⟩ := Option.isSome_iff_exists.1 hs
  obtain ⟨p, hp, -, rfl⟩ := get?_queues_trim_some.1 hq
  rw [waiting_of_get? hq, waiting_of_get? hp]
  rfl

theorem waiting_shutdownChannel (h : b.Linked) (cause : Shutdown) (c : Nat)
    (hs : ((b.shutdownChannel cause c).1.queues.get? name).isSome) :
    (b.shutdownChannel cause c).1.waiting name = b.waiting name := by
  by_cases ho : b.isOpen c = true
  · rw [shutdownChannel_eq_trim h cause ho] at hs ⊢
    exact waiting_trim hs
  · rw [shutdownChannel, if_neg ho]

theorem waiting_shutdownChannels (cause : Shutdown) (cs : List Nat) :
    ∀ {b : Broker}, b.Linked → ((b.shutdownChannels cause cs).1.queues.get? name).isSome →
      (b.shutdownChannels cause cs).1.waiting name = b.waiting name := by
  induction cs with
  | nil => exact fun _ _ => rfl
  | cons c rest ih =>
    intro b h hs
    rw [shutdownChannels, forEach_cons] at hs ⊢
    obtain ⟨q, hq⟩ := Option.isSome_iff_exists.1 hs
    obtain ⟨p, hp, -⟩ := (Shrinks.shutdownChannels _ cause rest).queues name q hq
    have hrest := ih (h.shutdownChannel cause c) hs
    exact hrest.trans (waiting_shutdownChannel h cause c (Option.isSome_of_eq_some hp))

theorem deliveries_endSubscription (b : Broker) (tag : String) (last : Event) :
    (b.endSubscription tag last).1.deliveries = b.deliveries := by
  unfold endSubscription
  split
  · rfl
  · unfold detach
    split
    · rfl
    · split <;> rfl

theorem deliveries_shutdownChannel (b : Broker) (cause : Shutdown) (c : Nat) :
    (b.shutdownChannel cause c).1.deliveries = b.deliveries := by
  unfold shutdownChannel
  split
  · simp only [foldl_removeQueue_eq_trim]
    exact forEach_induct (P := fun b' => b'.deliveries = b.deliveries) _ (b.recordClosed c cause)
      (fun b' tag _ h => (deliveries_endSubscription b' tag _).trans h) rfl
  · rfl

theorem deliveries_shutdownChannels (b : Broker) (cause : Shutdown) (cs : List Nat) :
    (b.shutdownChannels cause cs).1.deliveries = b.deliveries :=
  forEach_induct (P := fun b' => b'.deliveries = b.deliveries) cs b
    (fun b' c _ h => (deliveries_shutdownChannel b' cause c).trans h) rfl

theorem deliveriesTo_endSubscription (b : Broker) {tag : String} {last : Event}
    (hl : last.isTerminal = true) (t : String) :
    deliveriesTo t (b.endSubscription tag last).2 = [] := by
  have he := eventsTo_endSubscription b tag last t
  split at he
  · exact deliveriesTo_of_terminal hl he
  · rw [deliveriesTo, he]; rfl

theorem deliveriesTo_shutdownChannel (b : Broker) (cause : Shutdown) (c : Nat) (t : String) :
    deliveriesTo t (b.shutdownChannel cause c).2 = [] := by
  have he := eventsTo_shutdownChannel b cause c t
  split at he
  · exact deliveriesTo_of_terminal rfl he
  · rw [deliveriesTo, he]; rfl

theorem deliveriesTo_shutdownChannels (cause : Shutdown) (t : String) (cs : List Nat) :
    ∀ b : Broker, deliveriesTo t (b.shutdownChannels cause cs).2 = [] := by
  induction cs with
  | nil => exact fun _ => rfl
  | cons c rest ih =>
    intro b
    rw [shutdownChannels, forEach_cons, deliveriesTo_append, deliveriesTo_shutdownChannel]
    exact ih (b.shutdownChannel cause c).1

/-! ## A message goes to several queues -/

theorem deliveries_le_enqueue (b : Broker) (other : String) (m : Message) :
    b.deliveries ≤ (b.enqueue other m).1.deliveries := by
  unfold enqueue
  split
  · exact Nat.le_refl _
  · split
    · exact Nat.le_succ _
    · exact Nat.le_refl _

theorem deliveries_le_enqueueAll (b : Broker) (m : Message) (queues : List String) :
    b.deliveries ≤ (b.enqueueAll m queues).1.deliveries :=
  forEach_induct (P := fun b' => b.deliveries ≤ b'.deliveries) queues b
    (fun b' other _ h => Nat.le_trans h (deliveries_le_enqueue b' other m)) (Nat.le_refl _)

theorem get?_queues_enqueue_of_ne {other : String} (hne : other ≠ name) (b : Broker)
    (m : Message) : (b.enqueue other m).1.queues.get? name = b.queues.get? name := by
  unfold enqueue
  split
  · rfl
  · split
    · rfl
    · exact (Table.get?_insert _ _ _ _).trans (if_neg hne)

theorem deliveriesTo_enqueue_of_ne (h : b.Linked) {other tag : String} (hne : other ≠ name)
    (hc : b.consumerOn? name = some tag) (m : Message) :
    deliveriesTo tag (b.enqueue other m).2 = [] := by
  unfold enqueue
  split
  · rfl
  · next q hq =>
    rw [h.consumerOf? hq]
    split
    · next t ht =>
      obtain ⟨s, hs, he⟩ := h.consumerOn?_iff.1 hc
      obtain ⟨s', hs', he'⟩ := h.subscription hq ht
      have htag : t ≠ tag := by
        rintro rfl
        rw [hs] at hs'; cases hs'
        exact hne (he'.symm.trans he)
      rw [deliveriesTo, eventsTo_cons, if_neg htag]
      rfl
    · rfl

theorem enqueueAll_of_notMem (m : Message) {queues : List String} (hn : name ∉ queues) :
    ∀ {b : Broker}, b.Linked → (b.enqueueAll m queues).1.queues.get? name = b.queues.get? name ∧
      ∀ tag, b.consumerOn? name = some tag → deliveriesTo tag (b.enqueueAll m queues).2 = [] := by
  induction queues with
  | nil => exact fun _ => ⟨rfl, fun _ _ => rfl⟩
  | cons other rest ih =>
    intro b h
    obtain ⟨hne, hn⟩ := not_or.1 (mt List.mem_cons.2 hn)
    have hget := get?_queues_enqueue_of_ne (Ne.symm hne) b m
    obtain ⟨hrest, hsent⟩ := ih hn (h.enqueue other m)
    rw [enqueueAll, forEach_cons]
    refine ⟨hrest.trans hget, fun tag hc => ?_⟩
    rw [deliveriesTo_append, deliveriesTo_enqueue_of_ne h (Ne.symm hne) hc]
    exact hsent tag (by rw [consumerOn?, hget]; exact hc)

/-- The consumer of a queue is handed the message, once. -/
theorem enqueueAll_busy (m : Message) {q : Queue} {tag : String} (hc : q.consumer = some tag)
    {queues : List String} (hm : name ∈ queues) (hn : queues.Nodup) :
    ∀ {b : Broker}, b.Linked → b.queues.get? name = some q →
      (b.enqueueAll m queues).1.queues.get? name = some q ∧
        ∃ number, b.deliveries < number ∧ number ≤ (b.enqueueAll m queues).1.deliveries ∧
          deliveriesTo tag (b.enqueueAll m queues).2 = [m.deliver number] := by
  induction queues with
  | nil => exact absurd hm List.not_mem_nil
  | cons other rest ih =>
    intro b h hq
    obtain ⟨hnot, hn⟩ := List.nodup_cons.1 hn
    have hcon : b.consumerOn? name = some tag := (consumerOn?_of_get? hq).trans hc
    rw [enqueueAll, forEach_cons]
    by_cases he : other = name
    · subst he
      have hstep : b.enqueue other m =
          ({ b with deliveries := b.deliveries + 1 },
            [⟨tag, .delivery (m.deliver (b.deliveries + 1))⟩]) := by
        simp only [enqueue, hq, h.consumerOf? hq, hc]
      have hl : Linked { b with deliveries := b.deliveries + 1 } := h.of_same rfl rfl
      obtain ⟨hget, hsent⟩ := enqueueAll_of_notMem m hnot hl
      rw [hstep]
      refine ⟨hget.trans hq, b.deliveries + 1, Nat.lt_succ_self _,
        deliveries_le_enqueueAll { b with deliveries := b.deliveries + 1 } m rest, ?_⟩
      rw [deliveriesTo_append]
      refine (congrArg _ (hsent tag hcon)).trans ?_
      rw [List.append_nil, deliveriesTo, eventsTo_cons, if_pos rfl]
      rfl
    · have hget := get?_queues_enqueue_of_ne he b m
      obtain ⟨hkept, number, hlt, hle, hsent⟩ :=
        ih ((List.mem_cons.1 hm).resolve_left (Ne.symm he)) hn (h.enqueue other m)
          (hget.trans hq)
      refine ⟨hkept, number, Nat.lt_of_le_of_lt (deliveries_le_enqueue b other m) hlt, hle, ?_⟩
      rw [deliveriesTo_append, deliveriesTo_enqueue_of_ne h he hcon]
      exact hsent

/-- A queue without a consumer keeps the message back, once. -/
theorem enqueueAll_idle (m : Message) {queues : List String} (hm : name ∈ queues)
    (hn : queues.Nodup) :
    ∀ {b : Broker} {q : Queue}, b.Linked → b.queues.get? name = some q → q.consumer = none →
      (b.enqueueAll m queues).1.queues.get? name =
        some { q with backlog := q.backlog.push m } := by
  induction queues with
  | nil => exact absurd hm List.not_mem_nil
  | cons other rest ih =>
    intro b q h hq hc
    obtain ⟨hnot, hn⟩ := List.nodup_cons.1 hn
    rw [enqueueAll, forEach_cons]
    by_cases he : other = name
    · subst he
      refine (enqueueAll_of_notMem m hnot (h.enqueue other m)).1.trans ?_
      have hstep : (b.enqueue other m).1 =
          { b with queues := b.queues.insert other { q with backlog := q.backlog.push m } } := by
        simp only [enqueue, hq, h.consumerOf? hq, hc]
      rw [hstep]
      exact Table.get?_insert_self _ _ _
    · exact ih ((List.mem_cons.1 hm).resolve_left (Ne.symm he)) hn (h.enqueue other m)
        ((get?_queues_enqueue_of_ne he b m).trans hq) hc

end Broker

end BrokeredRpc
