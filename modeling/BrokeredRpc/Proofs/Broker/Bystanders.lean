import BrokeredRpc.Proofs.Broker.Delivery
import BrokeredRpc.Proofs.Broker.Freshness
import BrokeredRpc.Proofs.Broker.Shutdowns

/-!
# Queues that an operation is not about

Whoever shares a broker with others wants his queue, and the subscription on it,
to be left alone by what they do. `Operation.Spares` says of an operation that
it is not about a queue: it names another one, routes its message elsewhere, or
shuts down channels that neither own the queue nor consume from it. Such an
operation leaves the queue with its backlog as it is, and the subscription on it
gets no event (`perform_spares`).

A queue keeps its owner as long as it is there (`owner_perform`). And what is
addressed to a queue by name stays between the publisher and the consumers of
that queue (`run_addressed`).
-/
namespace BrokeredRpc.Broker

variable {b b' : Broker} {name : String} {sent : List Dispatch}

/-- The operation is not about the queue. -/
def Operation.Spares (b : Broker) (name : String) : Operation → Prop
  | .openChannel | .declareExchange .. | .bind .. => True
  | .declareExclusive _ => b.nextName ≠ name
  | .declareQueue _ queue | .consume _ queue | .deleteQueue _ queue => queue ≠ name
  | .cancel _ tag => ∀ s, b.subscriptions.get? tag = some s → s.queue ≠ name
  | .publish _ m => name ∉ (b.route? m.exchange m.routingKey).getD []
  | .closeChannel c | .abortChannel c _ =>
    ∀ q, b.queues.get? name = some q → b.Aside (· = c) q
  | .abortConnection _ =>
    ∀ q, b.queues.get? name = some q → b.Aside (fun c => b.Issued c ∧ b.isOpen c = true) q

/-- Nothing has happened to the queue, nor to the subscription on it. -/
structure Untouched (name : String) (b b' : Broker) (sent : List Dispatch) : Prop where
  queue : b'.queues.get? name = b.queues.get? name
  subscription : ∀ tag s, b.subscriptions.get? tag = some s → s.queue = name →
    b'.subscriptions.get? tag = some s ∧ eventsTo tag sent = []

namespace Untouched

theorem of_same (hq : b'.queues.get? name = b.queues.get? name)
    (hs : b'.subscriptions = b.subscriptions) : Untouched name b b' [] :=
  ⟨hq, fun _ _ hsub _ => ⟨by rw [hs, hsub], rfl⟩⟩

theorem refl (name : String) (b : Broker) : Untouched name b b [] := of_same rfl rfl

theorem enqueueAll (hl : b.Linked) (m : Message) {queues : List String} (hn : name ∉ queues) :
    Untouched name b (b.enqueueAll m queues).1 (b.enqueueAll m queues).2 := by
  obtain ⟨hqueue, hsilent⟩ := enqueueAll_of_notMem m hn hl
  refine ⟨hqueue, fun tag s hs hname => ?_⟩
  obtain ⟨deliveries, he, -⟩ := eventsTo_enqueueAll m tag queues b
  have hnone := hsilent tag (hl.consumerOn?_iff.2 ⟨s, hs, hname⟩)
  rw [deliveriesTo_of_eventsTo he] at hnone
  rw [subscriptions_enqueueAll, he, hnone]
  exact ⟨hs, rfl⟩

theorem endSubscription {tag : String} {s : Subscription}
    (hs : b.subscriptions.get? tag = some s) (hne : s.queue ≠ name) (last : Event) :
    Untouched name b (b.endSubscription tag last).1 (b.endSubscription tag last).2 where
  queue := by
    simp only [Broker.endSubscription, hs, get?_queues_detach, if_neg hne]
  subscription tag' s' hs' hname := by
    have ht : tag ≠ tag' := by
      rintro rfl
      rw [hs] at hs'; cases hs'
      exact hne hname
    rw [get?_subscriptions_endSubscription, eventsTo_endSubscription, if_neg ht,
      if_neg fun h => ht h.1]
    exact ⟨hs', rfl⟩

end Untouched

theorem ShutsDown.untouched {ending : Nat → Prop} {cause : Shutdown}
    (h : b.ShutsDown ending cause b' sent) (hl : b.Linked)
    (ha : ∀ q, b.queues.get? name = some q → b.Aside ending q) : Untouched name b b' sent where
  queue := h.kept name ha
  subscription tag s hs hname := by
    subst hname
    obtain ⟨q, hq, hc⟩ := hl.consumer hs
    have hgoes := h.goesOn tag fun s' hs' => by
      rw [hs] at hs'; cases hs'
      exact (ha q hq).consumer_ne hl hq hc hs
    exact ⟨hgoes.1.trans hs, hgoes.2⟩

/-- **Bystanders.** An operation that is not about a queue leaves it, and the subscription on it,
alone. -/
theorem perform_spares (hl : b.Linked) (hb : b.Bound) {op : Operation}
    (hi : ∀ c ∈ op.channel?, b.Issued c)
    (htags : ∀ c n, b.issuedTags < n → b.subscriptions.get? (tagName c n) = none)
    (hs : op.Spares b name) :
    Untouched name b (b.perform op).broker (b.perform op).sent := by
  rcases perform_cases b op with ⟨e, hr⟩ | hg
  · rw [hr]; exact .refl name b
  generalize b.perform op = effect at hg
  have hinsert : ∀ {other : String} (q : Queue), other ≠ name →
      (b.queues.insert other q).get? name = b.queues.get? name := fun q hne => by
    rw [Table.get?_insert, if_neg hne]
  cases hg with
  | opened => exact .of_same rfl rfl
  | exchangeKept => exact .refl name b
  | exchangeAdded => exact .of_same rfl rfl
  | queueKept => exact .refl name b
  | queueAdded => exact .of_same (hinsert _ hs) rfl
  | exclusiveAdded => exact .of_same (hinsert _ hs) rfl
  | bindingKept => exact .refl name b
  | bindingAdded => exact .of_same rfl rfl
  | @subscribed c other q =>
    refine ⟨hinsert _ hs, fun tag s hsub _ => ?_⟩
    have hne : tagName c (b.issuedTags + 1) ≠ tag := by
      rintro rfl
      rw [htags c _ (Nat.lt_succ_self _)] at hsub; cases hsub
    refine ⟨?_, (eventsTo_deliveries _ _ _).trans (if_neg hne)⟩
    exact ((Table.get?_insert _ _ _ _).trans (if_neg hne)).trans hsub
  | @deletedBusy c other tag q _ hq _ ht =>
    refine ⟨?_, fun tag' s hsub hname => ?_⟩
    · exact (get?_queues_removeQueue _ other name).trans (if_neg hs)
    · have hne : tag ≠ tag' := by
        rintro rfl
        obtain ⟨s', hs', he⟩ := hl.serving other q tag hq (Option.filter_eq_some_iff.1 ht).1
        rw [hsub] at hs'; cases hs'
        exact hs (he.symm.trans hname)
      refine ⟨((Table.get?_erase _ _ _).trans (if_neg hne)).trans hsub, ?_⟩
      exact (eventsTo_cons _ _ _).trans (by rw [if_neg hne]; rfl)
  | @deletedIdle c other =>
    exact .of_same ((get?_queues_removeQueue b other name).trans (if_neg hs)) rfl
  | cancelled _ hsub _ => exact .endSubscription hsub (hs _ hsub) _
  | @published c m queues _ hr =>
    refine Untouched.enqueueAll hl m fun hm => hs ?_
    rw [hr]
    exact hm
  | closed =>
    refine (shutsDown_shutdownChannel hl hb _ (hi _ rfl)).untouched hl fun q hq => ?_
    exact (hs q hq).mono fun _ h => h.1
  | aborted =>
    refine (shutsDown_shutdownChannel hl hb _ (hi _ rfl)).untouched hl fun q hq => ?_
    exact (hs q hq).mono fun _ h => h.1
  | lost => exact (shutsDown_abortConnection hl hb _).untouched hl hs

/-- Where the owner of a queue comes from: it was the owner before, or the queue has just been
declared. -/
theorem owner_perform {op : Operation} {q' : Queue}
    (hq' : (b.perform op).broker.queues.get? name = some q') :
    (∃ q, b.queues.get? name = some q ∧ q.owner = q'.owner) ∨
      (∃ c, op = .declareQueue c name) ∨
        ∃ c, op = .declareExclusive c ∧ name = b.nextName ∧ q'.owner = some c := by
  rcases perform_cases b op with ⟨e, hr⟩ | hg
  · rw [hr] at hq'
    exact Or.inl ⟨q', hq', rfl⟩
  generalize b.perform op = effect at hg hq'
  have hshrinks : ∀ {b' : Broker}, b.Shrinks b' → b'.queues.get? name = some q' →
      ∃ q, b.queues.get? name = some q ∧ q.owner = q'.owner := fun h hq => h.queues name q' hq
  cases hg with
  | opened => exact Or.inl ⟨q', hq', rfl⟩
  | exchangeKept => exact Or.inl ⟨q', hq', rfl⟩
  | exchangeAdded => exact Or.inl ⟨q', hq', rfl⟩
  | queueKept => exact Or.inl ⟨q', hq', rfl⟩
  | @queueAdded c other =>
    replace hq' := (Table.get?_insert _ _ _ _).symm.trans hq'
    split at hq'
    · next he => exact Or.inr (Or.inl ⟨c, he ▸ rfl⟩)
    · exact Or.inl ⟨q', hq', rfl⟩
  | @exclusiveAdded c =>
    replace hq' := (Table.get?_insert _ _ _ _).symm.trans hq'
    split at hq'
    · next he =>
      cases hq'
      exact Or.inr (Or.inr ⟨c, rfl, he.symm, rfl⟩)
    · exact Or.inl ⟨q', hq', rfl⟩
  | bindingKept => exact Or.inl ⟨q', hq', rfl⟩
  | bindingAdded => exact Or.inl ⟨q', hq', rfl⟩
  | @subscribed c other q _ hq =>
    replace hq' := (Table.get?_insert _ _ _ _).symm.trans hq'
    split at hq'
    · next he =>
      cases hq'
      exact Or.inl ⟨q, he ▸ hq, rfl⟩
    · exact Or.inl ⟨q', hq', rfl⟩
  | @deletedBusy c other tag =>
    exact Or.inl (hshrinks ((Shrinks.eraseSubscription b tag).trans (.removeQueue _ other)) hq')
  | @deletedIdle c other => exact Or.inl (hshrinks (.removeQueue b other) hq')
  | cancelled => exact Or.inl (hshrinks (.endSubscription b _ _) hq')
  | @published c m queues =>
    exact Or.inl (hshrinks (.repeated (fun b name => .enqueue b name m) queues b) hq')
  | closed => exact Or.inl (hshrinks (.shutdownChannel b _ _) hq')
  | aborted => exact Or.inl (hshrinks (.shutdownChannel b _ _) hq')
  | lost => exact Or.inl (hshrinks (.shutdownChannels b _ _) hq')

/-! ## Addresses -/

/-- A message that was published to the default exchange bears the name of the queue. -/
def Addressed (m : Message) (name : String) : Prop :=
  m.exchange = defaultExchange → m.routingKey = name

theorem addressed_of_arrival {op : Operation} {m : Message} (hm : m ∈ arrival name b op) :
    Addressed m name := by
  intro hx
  cases op with
  | publish c m' =>
    rw [arrival] at hm
    split at hm
    · next h =>
      obtain rfl := List.mem_singleton.1 hm
      have hroute := mem_route?.1 h.2
      rw [if_pos hx] at hroute
      exact hroute.1
    · cases hm
  | _ => cases hm

/-- A tag stands for one subscription. -/
theorem subscribed_unique {ops : List Operation} (hi : OnIssued {} ops) {tag : String}
    {s s' : Subscription} (hs : Subscribed ops tag s) (hs' : Subscribed ops tag s') : s = s' := by
  cases run_stream hi tag with
  | unused _ _ hn => exact absurd hs (hn s).1
  | used _ _ hu => exact ((hu s).1 hs).trans ((hu s').1 hs').symm

theorem subscribed_of_live {ops : List Operation} (hi : OnIssued {} ops) {tag : String}
    {s : Subscription} (hs : (run {} ops).1.subscriptions.get? tag = some s) :
    Subscribed ops tag s := by
  cases run_stream hi tag with
  | unused hn => rw [hs] at hn; cases hn
  | used _ _ hu hst =>
    refine (hu s).2 ?_
    cases hst with
    | goesOn _ _ hs' => rw [hs] at hs'; exact Option.some.inj hs'
    | ended _ _ _ hs' => rw [hs] at hs'; cases hs'

theorem EndedBy.made {ops : List Operation} (hi : OnIssued {} ops) {tag : String}
    {s : Subscription} {last : Event} (h : EndedBy ops tag s last) : Subscribed ops tag s := by
  obtain ⟨past, op, ⟨rest, rfl⟩, hends⟩ := h
  have hpast := (onIssued_append.1 (onIssued_append.1 hi).1).1
  rw [List.append_assoc]
  exact (subscribed_of_live hpast hends.subscribed).append _

theorem EndedBy.stream {ops : List Operation} (hi : OnIssued {} ops) {tag : String}
    {s : Subscription} {last : Event} (h : EndedBy ops tag s last) :
    (run {} ops).1.subscriptions.get? tag = none ∧ ∃ deliveries : List Delivery,
      eventsTo tag (run {} ops).2 = deliveries.map .delivery ++ [last] := by
  cases run_stream hi tag with
  | unused _ _ hn => exact absurd h ((hn s).2 last)
  | used _ _ hs hst =>
    obtain rfl := (hs s).1 (h.made hi)
    cases hst with
    | goesOn _ _ _ hn => exact absurd h (hn last)
    | ended deliveries last' he hs hl =>
      obtain rfl := (hl last).1 h
      exact ⟨hs, deliveries, he⟩

/-- A subscription that is over stays so, and is sent nothing. -/
theorem Subscribed.quiet {ops : List Operation} (hi : OnIssued {} ops) {tag : String}
    {s : Subscription} (hs : Subscribed ops tag s)
    (hnone : (run {} ops).1.subscriptions.get? tag = none) {op : Operation}
    (hop : ∀ c ∈ op.channel?, (run {} ops).1.Issued c) :
    ((run {} ops).1.perform op).broker.subscriptions.get? tag = none ∧
      eventsTo tag ((run {} ops).1.perform op).sent = [] := by
  cases run_stream hi tag with
  | unused _ _ hn => exact absurd hs (hn s).1
  | used ht hn =>
    cases perform_fate (run_serving hi) hop (fun c n => (run_named hi).tag_free c) tag with
    | absent _ h' he => exact ⟨h', he⟩
    | made _ _ ht' =>
      have := (tagName_inj.1 (ht.symm.trans ht')).2
      omega
    | goesOn _ h => rw [hnone] at h; cases h
    | shutDown h => rw [hnone] at h; cases h
    | cancelled h => rw [hnone] at h; cases h

theorem deliveriesTo_of_over {past : List Operation} {op : Operation} (hpast : OnIssued {} past)
    (hi : ∀ c ∈ op.channel?, (run {} past).1.Issued c) {tag : String}
    (hs : ((run {} past).1.perform op).broker.subscriptions.get? tag = none) :
    deliveriesTo tag ((run {} past).1.perform op).sent = [] := by
  cases perform_fate (run_serving hpast) hi (fun c n => (run_named hpast).tag_free c) tag with
  | absent _ _ he => rw [deliveriesTo, he]; rfl
  | made _ _ _ _ h' => rw [hs] at h'; cases h'
  | goesOn _ _ h' => rw [hs] at h'; cases h'
  | shutDown _ _ _ _ he => exact deliveriesTo_of_terminal rfl he
  | cancelled _ _ _ he => exact deliveriesTo_of_terminal rfl he

/-- Everything that waits in a queue or was delivered from it bears its address. -/
structure AllAddressed (ops : List Operation) : Prop where
  waiting : ∀ name, ∀ m ∈ (run {} ops).1.waiting name, Addressed m name
  delivered : ∀ tag s, Subscribed ops tag s → ∀ d ∈ deliveriesTo tag (run {} ops).2,
    Addressed d.message s.queue

/-- **Addresses.** A message that is published to the default exchange under the name of a queue
never waits in another queue, nor is it ever delivered to the consumer of another one. -/
theorem run_addressed {ops : List Operation} (hi : OnIssued {} ops)
    (hnames : ∀ c n, .declareQueue c (generatedName n) ∉ ops) : AllAddressed ops := by
  refine history_induct
    (P := fun ops => (∀ c n, .declareQueue c (generatedName n) ∉ ops) → AllAddressed ops)
    (fun _ => ⟨fun name m hm => ?_, fun tag s hs => ?_⟩) (fun past op hpast hop ih hp => ?_)
    hi hnames
  · cases hm
  · exact absurd hs not_happened_nil
  have hp' : ∀ c n, .declareQueue c (generatedName n) ∉ past := fun c n hm =>
    hp c n (List.mem_append_left _ hm)
  have hnamed := run_named hpast
  have hnext : OnIssued {} (past ++ [op]) := onIssued_append.2 ⟨hpast, hop, trivial⟩
  have hl' := run_linked hnext hp
  rw [run_concat] at hl'
  obtain ⟨hwaiting, hdelivered⟩ := ih hp'
  have hstep : ∀ name, (((run {} past).1.perform op).broker.queues.get? name).isSome →
      ∃ out, HandsOut name (run {} past).1 op ((run {} past).1.perform op) out := fun name =>
    perform_handsOut (run_linked hpast hp') (run_bound hpast) (fun n => hnamed.name_free hp')
      fun c n => hnamed.tag_free c
  -- What is handed out, or waits on, has waited before or has just arrived.
  have hsource : ∀ {name m}, m ∈ (run {} past).1.waiting name ++ arrival name (run {} past).1 op →
      Addressed m name := fun hm =>
    (List.mem_append.1 hm).elim (hwaiting _ _) addressed_of_arrival
  refine ⟨fun name m hm => ?_, fun tag s hs d hd => ?_⟩
  · rw [run_concat] at hm
    cases hq : ((run {} past).1.perform op).broker.queues.get? name with
    | none => rw [Broker.waiting, hq] at hm; cases hm
    | some q =>
      obtain ⟨out, hout⟩ := hstep name (Option.isSome_of_eq_some hq)
      refine hsource ?_
      rw [hout.whole]
      exact List.mem_append_right _ hm
  · rw [sent_concat, deliveriesTo_append] at hd
    rcases List.mem_append.1 hd with hd | hd
    · cases run_stream hpast tag with
      | unused _ he => rw [deliveriesTo, he] at hd; cases hd
      | @used _ r _ _ hr =>
        have hmade := (hr r).2 rfl
        obtain rfl := subscribed_unique hnext hs (hmade.append [op])
        exact hdelivered tag s hmade d hd
    · cases hlive : ((run {} past).1.perform op).broker.subscriptions.get? tag with
      | none => rw [deliveriesTo_of_over hpast hop hlive] at hd; cases hd
      | some r =>
        obtain rfl := subscribed_unique hnext hs (subscribed_of_live hnext (by rwa [run_concat]))
        obtain ⟨q, hq, hc⟩ := hl'.consumer hlive
        obtain ⟨out, hout⟩ := hstep s.queue (Option.isSome_of_eq_some hq)
        rw [hout.sent tag ((consumerOn?_of_get? hq).trans hc)] at hd
        refine @hsource s.queue d.message ?_
        rw [hout.whole]
        exact List.mem_append_left _ (List.mem_map_of_mem hd)

end BrokeredRpc.Broker
