import BrokeredRpc.Proofs.Broker.Bystanders
import BrokeredRpc.Proofs.Broker.Refusals

/-!
# Exclusive queues are protected

A queue that is exclusive to a channel can be read, taken over and removed on that
channel only. What the other channels can do is publish to it and bind it. `Receives`
says that this is all that happens to a queue: messages come to it, which its consumer
is handed or which wait (`Queue.receive`), and bindings are added. It is put together
from one step after another (`Receives.trans`), and each step asks for little
(`Guarded`): the queue is there, has its owner, and whoever is subscribed to it is its
consumer, on the channel of the owner.

* `perform_receives`: one operation on another channel;
* `Trespass.refused`: what is answered to an operation that claims the queue or its
  consumer;
* `run_protected`: both, for every sequence of operations on other channels. It asks
  nothing of the names that these declare.
-/
namespace BrokeredRpc

/-- The queue after messages have come to it: its consumer was handed them, or they wait. -/
def Queue.receive (q : Queue) (arrived : List Message) : Queue :=
  if q.consumer.isSome then q else { q with backlog := q.backlog.append arrived }

namespace Queue

@[simp] theorem owner_receive (q : Queue) (arrived : List Message) :
    (q.receive arrived).owner = q.owner := by
  unfold receive
  split <;> rfl

@[simp] theorem consumer_receive (q : Queue) (arrived : List Message) :
    (q.receive arrived).consumer = q.consumer := by
  unfold receive
  split <;> rfl

@[simp] theorem receive_nil (q : Queue) : q.receive [] = q := by
  unfold receive
  split <;> rfl

@[simp] theorem receive_receive (q : Queue) (arrived more : List Message) :
    (q.receive arrived).receive more = q.receive (arrived ++ more) := by
  unfold receive
  cases hc : q.consumer with
  | none => simp [Log.append]
  | some tag => simp [hc]

end Queue

namespace Broker

variable {b b' b'' : Broker} {name : String} {q : Queue} {c : Nat} {ops : List Operation}
  {sent sent' : List Dispatch} {arrived arrived' : List Message}

/-! ## What can come to a queue -/

/-- The bindings of the queue to an exchange. -/
def bindingsOf (b : Broker) (x name : String) : List Binding :=
  ((b.exchanges.get? x).getD []).filter (·.queue == name)

/-- All that happens to the queue `q` is that messages come to it, and that bindings are added
which the operations ask for. -/
structure Receives (name : String) (q : Queue) (ops : List Operation) (b b' : Broker)
    (sent : List Dispatch) (arrived : List Message) : Prop where
  queue : b'.queues.get? name = some (q.receive arrived)
  /-- Who was subscribed to the queue still is, and nobody else. -/
  subscriptions : ∀ tag s, s.queue = name →
    (b'.subscriptions.get? tag = some s ↔ b.subscriptions.get? tag = some s)
  /-- The consumer is sent the messages, and nothing that would end its subscription. -/
  told : ∀ tag, q.consumer = some tag → ∃ deliveries : List Delivery,
    eventsTo tag sent = deliveries.map .delivery ∧ deliveries.map Delivery.message = arrived
  bindings : ∀ x, ∃ added, b'.bindingsOf x name = b.bindingsOf x name ++ added ∧
    ∀ m ∈ added, ∃ d, .bind d name x m.key ∈ ops

namespace Receives

theorem nothing (hq : b.queues.get? name = some q)
    (hq' : b'.queues.get? name = b.queues.get? name)
    (hs : ∀ tag s, s.queue = name →
      (b'.subscriptions.get? tag = some s ↔ b.subscriptions.get? tag = some s))
    (ht : ∀ tag, q.consumer = some tag → eventsTo tag sent = [])
    (hx : ∀ x, b'.bindingsOf x name = b.bindingsOf x name) :
    Receives name q ops b b' sent [] where
  queue := by rw [hq', hq, Queue.receive_nil]
  subscriptions := hs
  told tag hc := ⟨[], ht tag hc, rfl⟩
  bindings x := ⟨[], by rw [hx, List.append_nil], nofun⟩

/-- Queues, subscriptions and exchanges stay as they are as far as the queue goes, and nothing
is sent. -/
theorem of_same (hq : b.queues.get? name = some q)
    (hq' : b'.queues.get? name = b.queues.get? name) (hs : b'.subscriptions = b.subscriptions)
    (hx : b'.exchanges = b.exchanges) : Receives name q ops b b' [] [] :=
  .nothing hq hq' (fun _ _ _ => by rw [hs]) (fun _ _ => rfl)
    fun x => by rw [bindingsOf, bindingsOf, hx]

theorem refl (hq : b.queues.get? name = some q) : Receives name q ops b b [] [] :=
  .of_same hq rfl rfl rfl

theorem mono {ops' : List Operation} (h : Receives name q ops b b' sent arrived)
    (hle : ops ⊆ ops') : Receives name q ops' b b' sent arrived where
  queue := h.queue
  subscriptions := h.subscriptions
  told := h.told
  bindings x := by
    obtain ⟨added, he, hm⟩ := h.bindings x
    refine ⟨added, he, fun m hadd => ?_⟩
    obtain ⟨d, hd⟩ := hm m hadd
    exact ⟨d, hle hd⟩

/-- **One step after another.** -/
theorem trans (h : Receives name q ops b b' sent arrived)
    (h' : Receives name (q.receive arrived) ops b' b'' sent' arrived') :
    Receives name q ops b b'' (sent ++ sent') (arrived ++ arrived') where
  queue := by rw [h'.queue, Queue.receive_receive]
  subscriptions tag s hs := (h'.subscriptions tag s hs).trans (h.subscriptions tag s hs)
  told tag hc := by
    obtain ⟨deliveries, he, hd⟩ := h.told tag hc
    obtain ⟨more, he', hd'⟩ := h'.told tag ((Queue.consumer_receive q arrived).trans hc)
    exact ⟨deliveries ++ more, by simp [he, he'], by simp [hd, hd']⟩
  bindings x := by
    obtain ⟨added, he, hm⟩ := h.bindings x
    obtain ⟨more, he', hm'⟩ := h'.bindings x
    refine ⟨added ++ more, by rw [he', he, List.append_assoc], fun m hadd => ?_⟩
    exact (List.mem_append.1 hadd).elim (hm m) (hm' m)

theorem and_then (h : Receives name q ops b b' sent [])
    (h' : Receives name q ops b' b'' sent' arrived) :
    Receives name q ops b b'' (sent ++ sent') arrived :=
  h.trans (by rwa [Queue.receive_nil])

end Receives

/-! ## Guarded queues -/

/-- The queue is exclusive to the channel, and who is subscribed to it is its consumer and on
that channel. -/
structure Guarded (name : String) (c : Nat) (q : Queue) (b : Broker) : Prop where
  queue : b.queues.get? name = some q
  owner : q.owner = some c
  subscribed : ∀ tag s, b.subscriptions.get? tag = some s → s.queue = name →
    s.channel = c ∧ q.consumer = some tag

namespace Guarded

theorem of_linked (hl : b.Linked) (hq : b.queues.get? name = some q) (ho : q.owner = some c) :
    Guarded name c q b := by
  refine ⟨hq, ho, fun tag s hs hname => ?_⟩
  subst hname
  obtain ⟨r, hr, hc⟩ := hl.consumer hs
  rw [hq] at hr; cases hr
  exact ⟨hl.exclusive tag s q c hs hq ho, hc⟩

theorem receives (hg : Guarded name c q b) (h : Receives name q ops b b' sent arrived) :
    Guarded name c (q.receive arrived) b' := by
  refine ⟨h.queue, (Queue.owner_receive q arrived).trans hg.owner, fun tag s hs hname => ?_⟩
  rw [Queue.consumer_receive]
  exact hg.subscribed tag s ((h.subscriptions tag s hname).1 hs) hname

theorem eq_of_admits (hg : Guarded name c q b) {d : Nat} {p : Queue}
    (hp : b.queues.get? name = some p) (ha : p.admits d = true) : d = c := by
  rw [hg.queue] at hp; cases hp
  exact Queue.eq_of_admits ha hg.owner

theorem subscription (hg : Guarded name c q b) (hv : b.Serving) {tag : String}
    (hc : q.consumer = some tag) : b.subscriptions.get? tag = some ⟨c, name⟩ := by
  obtain ⟨⟨d, other⟩, hs, hname⟩ := hv name q tag hg.queue hc
  cases hname
  obtain rfl := (hg.subscribed tag _ hs rfl).1
  exact hs

/-- A subscription on another channel is on another queue, and under another tag than that of
the consumer. -/
theorem elsewhere (hg : Guarded name c q b) (hv : b.Serving) {tag : String} {s : Subscription}
    (hs : b.subscriptions.get? tag = some s) (hne : s.channel ≠ c) :
    s.queue ≠ name ∧ q.consumer ≠ some tag := by
  refine ⟨fun he => hne (hg.subscribed tag s hs he).1, fun hc => hne ?_⟩
  have hown := hg.subscription hv hc
  rw [hs] at hown; cases hown
  rfl

/-! ## Steps -/

theorem consumer_ne (hg : Guarded name c q b) (hv : b.Serving) {other tag : String} {p : Queue}
    (hp : b.queues.get? other = some p) (hc : p.consumer = some tag) (hne : other ≠ name) :
    q.consumer ≠ some tag := by
  intro hown
  obtain ⟨s, hs, he⟩ := hv other p tag hp hc
  rw [hg.subscription hv hown] at hs; cases hs
  exact hne he.symm

end Guarded

theorem exchanges_enqueue (b : Broker) (other : String) (m : Message) :
    (b.enqueue other m).1.exchanges = b.exchanges := by
  unfold enqueue
  split
  · rfl
  · split <;> rfl

theorem receives_enqueue (hg : Guarded name c q b) (hv : b.Serving) (other : String) (m : Message) :
    Receives name q ops b (b.enqueue other m).1 (b.enqueue other m).2
      (List.replicate (if other == name then 1 else 0) m) := by
  have hx : ∀ x, (b.enqueue other m).1.bindingsOf x name = b.bindingsOf x name := fun x => by
    rw [bindingsOf, bindingsOf, exchanges_enqueue]
  have hs : ∀ tag s, s.queue = name →
      ((b.enqueue other m).1.subscriptions.get? tag = some s ↔
        b.subscriptions.get? tag = some s) := fun tag s _ => by rw [subscriptions_enqueue]
  by_cases he : other = name
  · subst he
    rw [if_pos (beq_self_eq_true other)]
    refine ⟨?_, hs, fun tag hc => ?_, fun x => ⟨[], by rw [hx, List.append_nil], nofun⟩⟩
    · cases hc : q.consumer with
      | none =>
        have hcon : b.consumerOf? q = none := by rw [consumerOf?, hc]; rfl
        simp only [enqueue, hg.queue, hcon]
        simp [Queue.receive, hc, Log.append]
      | some tag =>
        have hcon : b.consumerOf? q = some tag := Option.filter_eq_some_iff.2
          ⟨hc, Option.isSome_of_eq_some (hg.subscription hv hc)⟩
        simp only [enqueue, hg.queue, hcon]
        simp [Queue.receive, hc]
    · have hcon : b.consumerOf? q = some tag := Option.filter_eq_some_iff.2
        ⟨hc, Option.isSome_of_eq_some (hg.subscription hv hc)⟩
      refine ⟨[m.deliver (b.deliveries + 1)], ?_, rfl⟩
      simp only [enqueue, hg.queue, hcon]
      simp [eventsTo_cons]
  · rw [if_neg (by simpa using he)]
    refine .nothing hg.queue (get?_queues_enqueue_of_ne he b m) hs (fun tag hc => ?_) hx
    unfold enqueue
    split
    · rfl
    · next p hp =>
      split
      · next t ht =>
        have hne := hg.consumer_ne hv hp (Option.filter_eq_some_iff.1 ht).1 he
        have htag : t ≠ tag := by
          rintro rfl
          exact hne hc
        rw [eventsTo_cons, if_neg htag]
        rfl
      · rfl

theorem receives_enqueueAll (m : Message) (queues : List String) :
    ∀ {b : Broker} {q : Queue}, Guarded name c q b → b.Serving →
      Receives name q ops b (b.enqueueAll m queues).1 (b.enqueueAll m queues).2
        (List.replicate (queues.count name) m) := by
  induction queues with
  | nil => exact fun hg _ => .refl hg.queue
  | cons other rest ih =>
    intro b q hg hv
    have hfirst : Receives name q ops b _ _ _ := receives_enqueue hg hv other m
    rw [enqueueAll, forEach_cons, List.count_cons, Nat.add_comm, ← List.replicate_append_replicate]
    exact hfirst.trans (ih (hg.receives hfirst) (hv.enqueue other m))

theorem bindingsOf_removeQueue {other : String} (hne : other ≠ name) (b : Broker) (x : String) :
    (b.removeQueue other).bindingsOf x name = b.bindingsOf x name := by
  unfold bindingsOf
  rw [get?_exchanges_removeQueue]
  cases b.exchanges.get? x with
  | none => rfl
  | some bindings =>
    refine (List.filter_filter ..).trans (List.filter_congr fun m _ => ?_)
    by_cases he : m.queue = name <;> simp [he, Ne.symm hne]

theorem receives_removeQueue (hq : b.queues.get? name = some q) {other : String}
    (hne : other ≠ name) : Receives name q ops b (b.removeQueue other) [] [] := by
  refine .nothing hq ?_ (fun _ _ _ => Iff.rfl) (fun _ _ => rfl) (bindingsOf_removeQueue hne b)
  rw [get?_queues_removeQueue, if_neg hne]

theorem receives_foldl_removeQueue (names : List String) (hn : name ∉ names) :
    ∀ {b : Broker}, b.queues.get? name = some q →
      Receives name q ops b (names.foldl removeQueue b) [] [] := by
  induction names with
  | nil => exact fun hq => .refl hq
  | cons other rest ih =>
    intro b hq
    obtain ⟨hne, hn⟩ := not_or.1 (mt List.mem_cons.2 hn)
    have hfirst : Receives name q ops b _ _ _ := receives_removeQueue hq (Ne.symm hne)
    exact hfirst.and_then (ih hn (by simpa using hfirst.queue))

theorem bindingsOf_detach {other : String} (hne : other ≠ name) (b : Broker) (x : String) :
    (b.detach other).bindingsOf x name = b.bindingsOf x name := by
  unfold detach
  split
  · rfl
  · split
    · exact bindingsOf_removeQueue hne b x
    · rfl

theorem receives_endSubscription (hg : Guarded name c q b) (hv : b.Serving) {tag : String}
    (hne : ∀ s, b.subscriptions.get? tag = some s → s.channel ≠ c) (last : Event) :
    Receives name q ops b (b.endSubscription tag last).1 (b.endSubscription tag last).2 [] := by
  cases hs : b.subscriptions.get? tag with
  | none =>
    simp only [endSubscription, hs]
    exact .refl hg.queue
  | some s =>
    obtain ⟨hqueue, hcon⟩ := hg.elsewhere hv hs (hne s hs)
    refine .nothing hg.queue ?_ (fun t r hr => ?_) (fun t ht => ?_) fun x => ?_
    · simp only [endSubscription, hs, get?_queues_detach, if_neg hqueue]
    · rw [get?_subscriptions_endSubscription]
      split
      · next he =>
        subst he
        refine iff_of_false (fun h => by cases h) fun hr' => ?_
        rw [hs] at hr'; cases hr'
        exact hqueue hr
      · rfl
    · rw [eventsTo_endSubscription, if_neg]
      rintro ⟨rfl, -⟩
      exact hcon ht
    · simp only [endSubscription, hs]
      exact bindingsOf_detach hqueue _ x

theorem receives_endSubscriptions (last : Event) (tags : List String) :
    ∀ {b : Broker}, Guarded name c q b → b.Serving →
      (∀ tag ∈ tags, ∀ s, b.subscriptions.get? tag = some s → s.channel ≠ c) →
      Receives name q ops b (b.endSubscriptions last tags).1
        (b.endSubscriptions last tags).2 [] := by
  induction tags with
  | nil => exact fun hg _ _ => .refl hg.queue
  | cons tag rest ih =>
    intro b hg hv hne
    have hfirst : Receives name q ops b _ _ _ :=
      receives_endSubscription hg hv (hne tag List.mem_cons_self) last
    have hg' : Guarded name c q (b.endSubscription tag last).1 := by
      simpa using hg.receives hfirst
    rw [endSubscriptions, forEach_cons]
    refine hfirst.and_then (ih hg' (hv.endSubscription tag last) fun t ht s hs => ?_)
    rw [get?_subscriptions_endSubscription] at hs
    split at hs
    · cases hs
    · exact hne t (List.mem_cons_of_mem _ ht) s hs

theorem receives_shutdownChannel (hg : Guarded name c q b) (hv : b.Serving) (cause : Shutdown)
    {d : Nat} (hne : d ≠ c) :
    Receives name q ops b (b.shutdownChannel cause d).1 (b.shutdownChannel cause d).2 [] := by
  unfold shutdownChannel
  split
  · have hg₀ : Guarded name c q (b.recordClosed d cause) := ⟨hg.queue, hg.owner, hg.subscribed⟩
    have hends : Receives name q ops (b.recordClosed d cause) _ _ _ :=
      receives_endSubscriptions (.shutdown cause) ((b.recordClosed d cause).tagsOf d) hg₀ hv
        fun tag ht s hs => by
        obtain ⟨r, hr, he⟩ := mem_tagsOf.1 ht
        rw [hs] at hr; cases hr
        exact he ▸ hne
    have hqueue := hends.queue
    rw [Queue.receive_nil] at hqueue
    -- What is exclusive to the channel that is shut down is not the queue.
    have hkept : ∀ {b₁ : Broker}, b₁.queues.get? name = some q → name ∉ b₁.queuesOf d := by
      intro b₁ hq₁ hm
      obtain ⟨p, hp, hown⟩ := mem_queuesOf.1 hm
      rw [hq₁] at hp; cases hp
      rw [hg.owner] at hown; cases hown
      exact hne rfl
    have hrecorded : Receives name q ops b (b.recordClosed d cause) [] [] :=
      .of_same hg.queue rfl rfl rfl
    have hremoved : Receives name q ops _ _ _ _ :=
      receives_foldl_removeQueue _ (hkept hqueue) hqueue
    simpa using (hrecorded.and_then hends).and_then hremoved
  · exact .refl hg.queue

/-! ## Operations on other channels -/

/-- The operation is performed on another channel, or opens one. -/
def Operation.Elsewhere (c : Nat) (op : Operation) : Prop :=
  op.channel? ≠ some c ∧ ¬op.Shuts c

/-- **One operation on another channel.** A message may come to the queue, or a binding be
added, and that is all. -/
theorem perform_receives (hg : Guarded name c q b) (hv : b.Serving) (hb : b.Bound)
    (htags : ∀ c n, b.issuedTags < n → b.subscriptions.get? (tagName c n) = none)
    (hnext : b.nextName ≠ name) {op : Operation} (hop : op.Elsewhere c) :
    Receives name q [op] b (b.perform op).broker (b.perform op).sent (arrival name b op) := by
  rcases perform_cases b op with ⟨e, hr⟩ | hgrants
  · rw [arrival_of_refused hr, hr]
    exact .refl hg.queue
  generalize b.perform op = effect at hgrants
  have hinsert : ∀ {other : String} (p : Queue), other ≠ name →
      (b.queues.insert other p).get? name = b.queues.get? name := fun p hne => by
    rw [Table.get?_insert, if_neg hne]
  -- The channel of the operation is not that of the owner.
  have hother : ∀ {d : Nat} {other : String} {p : Queue}, op.channel? = some d →
      b.queues.get? other = some p → p.admits d = true → other ≠ name := by
    intro d other p hd hp ha he
    subst he
    exact hop.1 (hd.trans (congrArg some (hg.eq_of_admits hp ha)))
  cases hgrants with
  | opened => exact .of_same hg.queue rfl rfl rfl
  | exchangeKept => exact .refl hg.queue
  | @exchangeAdded d x hc hd hx =>
    refine .nothing hg.queue rfl (fun _ _ _ => Iff.rfl) (fun _ _ => rfl) fun x' => ?_
    simp only [bindingsOf, grant, Table.get?_insert]
    split
    · next he => rw [← he, hx]; rfl
    · rfl
  | queueKept => exact .refl hg.queue
  | @queueAdded d other hc hq =>
    refine .of_same hg.queue (hinsert _ ?_) rfl rfl
    rintro rfl
    rw [hg.queue] at hq; cases hq
  | exclusiveAdded => exact .of_same hg.queue (hinsert _ hnext) rfl rfl
  | bindingKept => exact .refl hg.queue
  | @bindingAdded d other x key p bindings hc hq hx hm =>
    refine ⟨?_, fun _ _ _ => Iff.rfl, fun _ _ => ⟨[], rfl, rfl⟩, fun x' => ?_⟩
    · exact hg.queue.trans (congrArg some (Queue.receive_nil q).symm)
    · simp only [bindingsOf, grant, Table.get?_insert]
      by_cases he : x = x' ∧ other = name
      · obtain ⟨rfl, rfl⟩ := he
        refine ⟨[⟨key, other⟩], by simp [hx], fun m hadd => ⟨d, ?_⟩⟩
        rw [List.mem_singleton.1 hadd]
        exact List.mem_singleton_self _
      · refine ⟨[], ?_, fun _ h => by cases h⟩
        split
        · next hxe =>
          have hne : other ≠ name := fun ho => he ⟨hxe, ho⟩
          simp [← hxe, hx, hne]
        · simp
  | @subscribed d other p hc hq ha hn =>
    have hne := hother rfl hq ha
    have htag : ∀ {tag : String}, (b.subscriptions.get? tag).isSome →
        tagName d (b.issuedTags + 1) ≠ tag := by
      rintro tag hs rfl
      rw [htags d _ (Nat.lt_succ_self _)] at hs; cases hs
    refine .nothing hg.queue (hinsert _ hne) (fun tag s hs => ?_) (fun tag ht => ?_) fun _ => rfl
    · simp only [grant, Table.get?_insert]
      split
      · next he =>
        refine iff_of_false (fun h => ?_) fun h => htag (Option.isSome_of_eq_some h) he
        cases h
        exact hne hs
      · rfl
    · refine (eventsTo_deliveries _ _ _).trans (if_neg (htag ?_))
      exact Option.isSome_of_eq_some (hg.subscription hv ht)
  | @deletedBusy d other tag p hc hq ha ht =>
    have hne := hother rfl hq ha
    have hcon := (Option.filter_eq_some_iff.1 ht).1
    obtain ⟨s, hs, he⟩ := hv other p tag hq hcon
    have herased : Receives name q [Operation.deleteQueue d other] b
        { b with subscriptions := b.subscriptions.erase tag } [⟨tag, .cancelled⟩] [] := by
      refine .nothing hg.queue rfl (fun t r hr => ?_) (fun t ht => ?_) fun _ => rfl
      · simp only [Table.get?_erase]
        split
        · next hte =>
          subst hte
          refine iff_of_false (fun h => by cases h) fun hr' => ?_
          rw [hs] at hr'; cases hr'
          exact hne (he.symm.trans hr)
        · rfl
      · rw [eventsTo_cons, if_neg]
        · rfl
        · rintro rfl
          exact hg.consumer_ne hv hq hcon hne ht
    exact herased.and_then
      (receives_removeQueue (b := { b with subscriptions := b.subscriptions.erase tag })
        hg.queue hne)
  | deletedIdle hc hq ha => exact receives_removeQueue hg.queue (hother rfl hq ha)
  | @cancelled d tag s hc hs hch =>
    refine receives_endSubscription hg hv (fun r hr he => ?_) _
    rw [hs] at hr; cases hr
    exact hop.1 (congrArg some (hch.symm.trans he))
  | @published d m queues hc hr =>
    have ha : arrival name b (.publish d m) = List.replicate (queues.count name) m := by
      simp only [arrival, hc, hr, Option.getD_some, true_and, (nodup_route? hb hr).count]
      split <;> rfl
    rw [ha]
    exact receives_enqueueAll m queues hg hv
  | closed => exact receives_shutdownChannel hg hv _ fun he => hop.1 (congrArg some he)
  | aborted => exact receives_shutdownChannel hg hv _ fun he => hop.1 (congrArg some he)
  | lost => exact absurd trivial hop.2

/-- An operation on channel `d` claims the queue, or the subscription of its consumer, and `e`
is what it gets. -/
inductive Trespass (name : String) (q : Queue) : Operation → Nat → TransportError → Prop
  | declare {d : Nat} : Trespass name q (.declareQueue d name) d (.accessRefused name)
  | consume {d : Nat} : Trespass name q (.consume d name) d (.accessRefused name)
  | delete {d : Nat} : Trespass name q (.deleteQueue d name) d (.accessRefused name)
  | cancel {d : Nat} {tag : String} (hc : q.consumer = some tag) :
    Trespass name q (.cancel d tag) d (.unknownConsumer tag)

/-- **Trespassers** on open channels are turned away. -/
theorem Trespass.refused {op : Operation} {d : Nat} {e : TransportError}
    (h : Trespass name q op d e) (hg : Guarded name c q b) (hv : b.Serving) (hd : d ≠ c)
    (ho : b.isOpen d = true) : (b.perform op).answer = .error e := by
  rw [isOpen_iff] at ho
  have ha : q.admits d = false := by
    rw [← Bool.not_eq_true]
    exact fun ha => hd (hg.eq_of_admits hg.queue ha)
  cases h with
  | declare =>
    simp only [perform, declareQueue, onChannel, ho, hg.queue, ha]
    rfl
  | consume =>
    simp only [perform, Broker.consume, onChannel, onQueue, ho, hg.queue, ha]
    rfl
  | delete =>
    simp only [perform, deleteQueue, onChannel, onQueue, ho, hg.queue, ha]
    rfl
  | @cancel _ tag hc =>
    simp only [perform, Broker.cancel, onChannel, ho, hg.subscription hv hc, if_neg (Ne.symm hd)]
    rfl

/-! ## Histories -/

theorem run_exclusive_named {ops : List Operation} (hi : OnIssued {} ops) :
    ∀ {name : String} {q : Queue} {c : Nat}, (run {} ops).1.queues.get? name = some q →
      q.owner = some c → ∃ n ≤ (run {} ops).1.namedQueues, name = generatedName n := by
  refine history_induct (P := fun ops => ∀ {name q c}, (run {} ops).1.queues.get? name = some q →
    q.owner = some c → ∃ n ≤ (run {} ops).1.namedQueues, name = generatedName n)
    (fun hq => ?_) (fun past op _ _ ih name q' c hq' ho => ?_) hi
  · cases hq
  have hle := namedQueues_le_perform (run {} past).1 op
  rw [run_concat] at hq' ⊢
  have hbefore : ∀ {q : Queue}, (run {} past).1.queues.get? name = some q → q.owner = some c →
      ∃ n ≤ ((run {} past).1.perform op).broker.namedQueues, name = generatedName n := by
    intro q hq hown
    obtain ⟨n, hn, he⟩ := ih hq hown
    exact ⟨n, Nat.le_trans hn hle, he⟩
  rcases owner_perform hq' with ⟨q, hq, hown⟩ | ⟨d, rfl⟩ | ⟨d, rfl, hname, -⟩
  · exact hbefore hq (hown.trans ho)
  · -- A queue that has just been declared is shared.
    rw [broker_declareQueue] at hq'
    split at hq'
    · rw [Table.get?_insert_self] at hq'
      cases hq'; cases ho
    · exact hbefore hq' ho
  · rcases perform_cases (run {} past).1 (.declareExclusive d) with ⟨e, hr⟩ | hg
    · rw [hr] at hq'
      exact hbefore hq' ho
    · generalize (run {} past).1.perform (.declareExclusive d) = effect at hg
      cases hg
      exact ⟨_, Nat.le_refl _, hname⟩

/-- A history on other channels, in a state in which the queue is guarded. -/
theorem receives_run {before during : List Operation} (hi : OnIssued {} (before ++ during))
    (hg : Guarded name c q (run {} before).1) (hd : ∀ op ∈ during, op.Elsewhere c) :
    Receives name q during (run {} before).1 (run {} (before ++ during)).1
      (run (run {} before).1 during).2 (routed name (run {} before).1 during) := by
  refine history_induct_after (P := fun during => (∀ op ∈ during, op.Elsewhere c) →
    Receives name q during (run {} before).1 (run {} (before ++ during)).1
      (run (run {} before).1 during).2 (routed name (run {} before).1 during))
    (fun _ => ?_) (fun past op hpast hop ih hd => ?_) hi hd
  · rw [List.append_nil]
    exact .refl hg.queue
  have hsofar := ih fun op hm => hd op (List.mem_append_left _ hm)
  have hg' := hg.receives hsofar
  have hnext : (run {} (before ++ past)).1.nextName ≠ name := by
    obtain ⟨n, hn, rfl⟩ := run_exclusive_named hpast hg'.queue hg'.owner
    intro he
    have := generatedName_inj.1 he
    omega
  have hstep := perform_receives hg' (run_serving hpast) (run_bound hpast)
    (fun c n => (run_named hpast).tag_free c) hnext (hd op (by simp))
  have hrun : (run (run {} before).1 past).1 = (run {} (before ++ past)).1 := by rw [run_append]
  rw [← List.append_assoc, run_concat, sent_concat, hrun, routed, gather_concat, hrun]
  exact (hsofar.mono (List.subset_append_left _ _)).trans
    (hstep.mono (List.subset_append_right _ _))

/-- **Protection.** In every broker in which no caller has declared a generated name, take a
queue that is exclusive to a channel, and operations on other channels, whatever they are. The
queue is there after them with the same owner and the same consumer, who is subscribed to it as
before and has been sent no last event; all that has happened to it is that the messages routed
to it were handed to that consumer or wait behind those that waited, and that the operations have
bound it. Whoever on an open channel claimed the queue, or its consumer, was turned away. -/
theorem run_protected {before during : List Operation} (hi : OnIssued {} (before ++ during))
    (hnames : ∀ c n, .declareQueue c (generatedName n) ∉ before)
    (hq : (run {} before).1.queues.get? name = some q) (ho : q.owner = some c)
    (hd : ∀ op ∈ during, op.Elsewhere c) :
    Receives name q during (run {} before).1 (run {} (before ++ during)).1
        (run (run {} before).1 during).2 (routed name (run {} before).1 during) ∧
      (∀ tag, q.consumer = some tag →
        (run {} before).1.subscriptions.get? tag = some ⟨c, name⟩ ∧
        (run {} (before ++ during)).1.subscriptions.get? tag = some ⟨c, name⟩) ∧
      ∀ past op d e, past ++ [op] <+: during → Trespass name q op d e →
        (run {} (before ++ past)).1.isOpen d = true →
        ((run {} (before ++ past)).1.perform op).answer = .error e := by
  have hbefore := (onIssued_append.1 hi).1
  have hg : Guarded name c q (run {} before).1 := .of_linked (run_linked hbefore hnames) hq ho
  have hall := receives_run hi hg hd
  refine ⟨hall, fun tag hc => ?_, fun past op d e hp htres hopen => ?_⟩
  · have hs := hg.subscription (run_serving hbefore) hc
    exact ⟨hs, (hall.subscriptions tag ⟨c, name⟩ rfl).2 hs⟩
  · obtain ⟨rest, rfl⟩ := hp
    rw [← List.append_assoc, ← List.append_assoc] at hi
    have hpast := (onIssued_append.1 (onIssued_append.1 hi).1).1
    have hsofar := receives_run hpast hg fun op hm => hd op (by simp [hm])
    have hop : op.Elsewhere c := hd op (by simp)
    have hne : d ≠ c := by
      rintro rfl
      cases htres <;> exact hop.1 rfl
    have htres' : Trespass name (q.receive (routed name (run {} before).1 past)) op d e := by
      cases htres with
      | cancel hc => exact .cancel ((Queue.consumer_receive _ _).trans hc)
      | declare => exact .declare
      | consume => exact .consume
      | delete => exact .delete
    exact htres'.refused (hg.receives hsofar) (run_serving hpast) hne hopen

/-- The first channel consumes from an exclusive queue. -/
def ownerHistory : List Operation :=
  [.openChannel, .openChannel, .declareExchange 1 "jobs", .declareExclusive 1,
    .consume 1 "amq.gen-1"]

/-- The others claim the queue in all ways, bind it, publish to it and go. One of them has guessed
the tag of the consumer. -/
def strangers : List Operation :=
  [.declareQueue 2 "amq.gen-1", .consume 2 "amq.gen-1", .deleteQueue 2 "amq.gen-1",
    .cancel 2 "ctag-1.1", .bind 2 "amq.gen-1" "jobs" "new",
    .publish 2 { routingKey := "amq.gen-1", body := [1] }, .openChannel,
    .publish 3 { exchange := "jobs", routingKey := "new", body := [2] }, .closeChannel 2,
    .abortChannel 3 "gone"]

theorem run_protected_strangers :
    (run {} (ownerHistory ++ strangers)).1.queues.get? "amq.gen-1" =
        some { owner := some 1, consumer := some "ctag-1.1" } ∧
      (run {} (ownerHistory ++ strangers)).1.subscriptions.get? "ctag-1.1" =
        some ⟨1, "amq.gen-1"⟩ ∧
      (∃ deliveries : List Delivery,
        eventsTo "ctag-1.1" (run (run {} ownerHistory).1 strangers).2 =
          deliveries.map .delivery ∧
        deliveries.map (·.body) = [[1], [2]]) ∧
      ((run {} (ownerHistory ++ strangers.take 3)).1.perform (.cancel 2 "ctag-1.1")).answer =
        .error (.unknownConsumer "ctag-1.1") := by
  have hi : OnIssued {} (ownerHistory ++ strangers) := by decide
  obtain ⟨hall, hsubs, hturned⟩ := run_protected hi (fun c n hm => by simp [ownerHistory] at hm)
    (show (run {} ownerHistory).1.queues.get? "amq.gen-1" =
      some { owner := some 1, consumer := some "ctag-1.1" } by decide) rfl
    (by simp [strangers, Operation.Elsewhere, Operation.channel?, Operation.Shuts])
  refine ⟨hall.queue, (hsubs _ rfl).2, ?_, ?_⟩
  · obtain ⟨deliveries, he, hd⟩ := hall.told "ctag-1.1" rfl
    have hbodies := congrArg (List.map Message.body) hd
    rw [List.map_map] at hbodies
    exact ⟨deliveries, he, hbodies.trans (by decide)⟩
  · exact hturned (strangers.take 3) _ 2 _ ⟨strangers.drop 4, rfl⟩ (.cancel rfl) (by decide)

end Broker

end BrokeredRpc
