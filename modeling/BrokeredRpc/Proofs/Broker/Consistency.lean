import BrokeredRpc.Proofs.Broker.Bindings
import BrokeredRpc.Proofs.Broker.Endings
import BrokeredRpc.Proofs.Broker.Links
import BrokeredRpc.Proofs.Broker.Naming

/-!
# Consistent brokers

The tables of a broker repeat each other: queues, subscriptions, bindings and
closed channels all speak of the same things. `Consistent` says that they agree,
and every operation keeps it as long as the names and tags that the broker gives
out are fresh (`consistent_perform`). Tags always are; names are if no caller
has declared one of them.

* `run_consistent`: the broker is consistent after every history without such a
  declaration.
-/
namespace BrokeredRpc.Broker

/-- What is held for a channel is held for an open one. -/
structure Held (b : Broker) : Prop where
  subscriber : ∀ tag s, b.subscriptions.get? tag = some s →
    b.Issued s.channel ∧ b.isOpen s.channel = true
  owner : ∀ name q c, b.queues.get? name = some q → q.owner = some c →
    b.Issued c ∧ b.isOpen c = true

structure Consistent (b : Broker) : Prop where
  linked : b.Linked
  held : b.Held
  bound : b.Bound

variable {b : Broker}

namespace Held

theorem empty : Held {} := by
  refine ⟨fun tag s hs => ?_, fun name q c hq => ?_⟩
  · cases hs
  · cases hq

/-- Nothing is new, and what was held for open channels still is. -/
theorem of_shrinks {b' : Broker} (h : b.Held) (hs : b.Shrinks b')
    (hc : b'.channels = b.channels) : b'.Held := by
  obtain ⟨channels, namedQueues, issuedTags, deliveries, exchanges, queues, subscriptions⟩ := b'
  cases hc
  refine ⟨fun tag s ht => h.subscriber tag s (hs.subscriptions tag s ht), fun name q c hq ho => ?_⟩
  obtain ⟨p, hp, hpo⟩ := hs.queues name q hq
  exact h.owner name p c hp (hpo.trans ho)

theorem openChannel (h : b.Held) : b.openChannel.2.Held := by
  have hkeep : ∀ c, b.Issued c ∧ b.isOpen c = true →
      b.openChannel.2.Issued c ∧ b.openChannel.2.isOpen c = true := by
    intro c ⟨hi, ho⟩
    refine ⟨⟨hi.1, ?_⟩, ?_⟩
    · simp only [Broker.openChannel, Array.size_push]
      exact Nat.le_succ_of_le hi.2
    · rw [isOpen_iff] at ho ⊢
      rw [closedBy?_openChannel, ho]
  exact ⟨fun tag s hs => hkeep _ (h.subscriber tag s hs),
    fun name q c hq ho => hkeep c (h.owner name q c hq ho)⟩

theorem insertQueue (h : b.Held) (name : String) {q : Queue}
    (ho : ∀ c, q.owner = some c → b.Issued c ∧ b.isOpen c = true) :
    Held { b with queues := b.queues.insert name q } := by
  refine ⟨h.subscriber, fun name' r c hr hown => ?_⟩
  simp only [Table.get?_insert] at hr
  split at hr
  · cases hr; exact ho c hown
  · exact h.owner name' r c hr hown

theorem insertSubscription (h : b.Held) (tag : String) {s : Subscription}
    (hs : b.Issued s.channel ∧ b.isOpen s.channel = true) :
    Held { b with subscriptions := b.subscriptions.insert tag s } := by
  refine ⟨fun tag' s' hs' => ?_, h.owner⟩
  simp only [Table.get?_insert] at hs'
  split at hs'
  · cases hs'; exact hs
  · exact h.subscriber tag' s' hs'

end Held

theorem channels_enqueue (b : Broker) (name : String) (m : Message) :
    (b.enqueue name m).1.channels = b.channels := by
  unfold enqueue
  split
  · rfl
  · split <;> rfl

theorem channels_enqueueAll (b : Broker) (m : Message) (queues : List String) :
    (b.enqueueAll m queues).1.channels = b.channels :=
  forEach_induct (P := fun b' => b'.channels = b.channels) queues b
    (fun b' name _ h => (channels_enqueue b' name m).trans h) rfl

theorem Linked.shutdownChannel (h : b.Linked) (cause : Shutdown) (c : Nat) :
    (b.shutdownChannel cause c).1.Linked := by
  by_cases ho : b.isOpen c = true
  · rw [shutdownChannel_eq_trim h cause ho]
    have hr : (b.recordClosed c cause).Linked := h.of_same rfl rfl
    refine hr.trim fun name q tag hq hc hn => ?_
    obtain ⟨q', hq', hown⟩ := mem_queuesOf.1 (List.contains_iff_mem.1 hn)
    rw [show b.queues.get? name = some q from hq] at hq'; cases hq'
    obtain ⟨s, hs, he⟩ := h.subscription hq hc
    exact List.contains_iff_mem.2 (mem_tagsOf.2 ⟨s, hs, h.exclusive tag s q c hs (he ▸ hq) hown⟩)
  · rw [Broker.shutdownChannel, if_neg ho]; exact h

theorem owner_ne_of_shutdownChannel {cause : Shutdown} {c : Nat} (ho : b.isOpen c = true)
    {name : String} {q : Queue}
    (hq : (b.shutdownChannel cause c).1.queues.get? name = some q) : q.owner ≠ some c := by
  rw [shutdownChannel, if_pos ho] at hq
  simp only [foldl_removeQueue_eq_trim] at hq
  obtain ⟨p, hp, hn, rfl⟩ := get?_queues_trim_some.1 hq
  intro hown
  rw [List.contains_iff_mem.2 (mem_queuesOf.2 ⟨p, hp, hown⟩)] at hn; cases hn

theorem Held.shutdownChannel (h : b.Held) (cause : Shutdown) {c : Nat} (hi : b.Issued c) :
    (b.shutdownChannel cause c).1.Held := by
  have hkeep : ∀ d, (d = c → b.isOpen c = false) → b.Issued d ∧ b.isOpen d = true →
      (b.shutdownChannel cause c).1.Issued d ∧
        (b.shutdownChannel cause c).1.isOpen d = true := by
    intro d hd ⟨hid, ho⟩
    refine ⟨(issued_congr (size_channels_shutdownChannel b cause c)).2 hid, ?_⟩
    rw [isOpen_iff] at ho ⊢
    rw [closedBy?_shutdownChannel hi, if_neg, ho]
    rintro ⟨rfl, hoc⟩
    rw [hd rfl] at hoc; cases hoc
  refine ⟨fun tag s hs => ?_, fun name q d hq hown => ?_⟩
  · rw [get?_subscriptions_shutdownChannel, Option.filter_eq_some_iff] at hs
    refine hkeep _ (fun he => ?_) (h.subscriber tag s hs.1)
    simpa [he] using hs.2
  · obtain ⟨p, hp, hpo⟩ := (Shrinks.shutdownChannel b cause c).queues name q hq
    refine hkeep d (fun he => ?_) (h.owner name p d hp (hpo.trans hown))
    rw [← Bool.not_eq_true]
    intro ho
    exact owner_ne_of_shutdownChannel ho hq (he ▸ hown)

theorem Held.shutdownChannels (cause : Shutdown) (cs : List Nat) :
    ∀ {b : Broker}, b.Held → (∀ c ∈ cs, b.Issued c) → (b.shutdownChannels cause cs).1.Held := by
  induction cs with
  | nil => exact fun h _ => h
  | cons c rest ih =>
    intro b h hi
    rw [Broker.shutdownChannels, forEach_cons]
    refine ih (h.shutdownChannel cause (hi c List.mem_cons_self)) fun c' hc' => ?_
    rw [issued_congr (size_channels_shutdownChannel b cause c)]
    exact hi c' (List.mem_cons_of_mem _ hc')

theorem held_perform (h : b.Held) {op : Operation} (hi : ∀ c ∈ op.channel?, b.Issued c) :
    (b.perform op).broker.Held := by
  rcases perform_cases b op with ⟨e, hr⟩ | hg
  · rw [hr]; exact h
  generalize b.perform op = effect at hg
  cases hg with
  | opened => exact h.openChannel
  | exchangeKept => exact h
  | exchangeAdded => exact h.of_shrinks (.of_same rfl rfl rfl rfl) rfl
  | queueKept => exact h
  | @queueAdded c name hc hq => exact h.insertQueue name (fun d ho => nomatch ho)
  | @exclusiveAdded c hc =>
    have hh := h.insertQueue (generatedName (b.namedQueues + 1)) (q := { owner := some c })
      fun d ho => by cases ho; exact ⟨hi c rfl, hc⟩
    exact ⟨hh.subscriber, hh.owner⟩
  | bindingKept => exact h
  | bindingAdded => exact h.of_shrinks (.of_same rfl rfl rfl rfl) rfl
  | @subscribed c name q hc hq ha hn =>
    have hh := h.insertQueue name
      (q := { q with backlog := ∅, consumer := some (tagName c (b.issuedTags + 1)) })
      fun d ho => h.owner name q d hq ho
    have hs := hh.insertSubscription (tagName c (b.issuedTags + 1)) (s := ⟨c, name⟩)
      ⟨hi c rfl, hc⟩
    exact ⟨hs.subscriber, hs.owner⟩
  | @deletedBusy c name tag =>
    exact h.of_shrinks ((Shrinks.eraseSubscription b tag).trans (.removeQueue _ name)) rfl
  | @deletedIdle c name => exact h.of_shrinks (.removeQueue b name) rfl
  | cancelled => exact h.of_shrinks (.endSubscription b _ _) (channels_endSubscription b _ _)
  | @published c m queues =>
    exact h.of_shrinks (.repeated (fun b' name => .enqueue b' name m) queues b)
      (channels_enqueueAll b m queues)
  | closed => exact h.shutdownChannel _ (hi _ rfl)
  | aborted => exact h.shutdownChannel _ (hi _ rfl)
  | lost => exact Held.shutdownChannels _ _ h (issued_range' b)

/-- Every operation keeps queues and subscriptions linked, if the names and tags that it gives
out are fresh. -/
theorem linked_perform (h : b.Linked) (op : Operation)
    (hnames : ∀ n, b.namedQueues < n → b.queues.get? (generatedName n) = none)
    (htags : ∀ c n, b.issuedTags < n → b.subscriptions.get? (tagName c n) = none) :
    (b.perform op).broker.Linked := by
  rcases perform_cases b op with ⟨e, hr⟩ | hg
  · rw [hr]; exact h
  generalize b.perform op = effect at hg
  cases hg with
  | opened => exact h.of_same rfl rfl
  | exchangeKept => exact h
  | exchangeAdded => exact h.of_same rfl rfl
  | queueKept => exact h
  | queueAdded hc hq => exact h.addQueue hq none
  | @exclusiveAdded c hc =>
    exact (h.addQueue (hnames _ (Nat.lt_succ_self _)) (some c)).of_same rfl rfl
  | bindingKept => exact h
  | bindingAdded => exact h.of_same rfl rfl
  | @subscribed c name q hc hq ha hn =>
    exact (h.subscribe hq ha hn (htags c _ (Nat.lt_succ_self _))).of_same rfl rfl
  | @deletedBusy c name tag q hc hq ha ht =>
    rw [h.consumerOf? hq] at ht
    show Linked (removeQueue _ _)
    rw [deleteBusy_eq_trim h hq ht]
    refine h.trim fun name' r tag' hr hrc hn => ?_
    rw [← beq_iff_eq.1 hn, hq] at hr; cases hr
    rw [ht] at hrc; cases hrc
    exact beq_self_eq_true tag
  | @deletedIdle c name q hc hq ha ht =>
    rw [h.consumerOf? hq] at ht
    show Linked (removeQueue _ _)
    rw [removeQueue_eq_trim]
    refine h.trim fun name' r tag' hr hrc hn => ?_
    rw [← beq_iff_eq.1 hn, hq] at hr; cases hr
    rw [ht] at hrc; cases hrc
  | @cancelled c tag =>
    show (b.endSubscription tag .cancelled).1.Linked
    rw [endSubscription_eq_trim h]
    exact h.endTags _
  | @published c m queues =>
    exact forEach_induct queues b (fun b' name _ hl => hl.enqueue name m) h
  | closed => exact h.shutdownChannel _ _
  | aborted => exact h.shutdownChannel _ _
  | lost => exact forEach_induct _ b (fun b' c _ hl => hl.shutdownChannel _ c) h

theorem Consistent.empty : Consistent {} := ⟨.empty, .empty, .empty⟩

/-- **Every operation keeps a broker consistent**, if the names and tags that it gives out
are fresh. -/
theorem consistent_perform (h : b.Consistent) {op : Operation}
    (hi : ∀ c ∈ op.channel?, b.Issued c)
    (hnames : ∀ n, b.namedQueues < n → b.queues.get? (generatedName n) = none)
    (htags : ∀ c n, b.issuedTags < n → b.subscriptions.get? (tagName c n) = none) :
    (b.perform op).broker.Consistent :=
  ⟨linked_perform h.linked op hnames htags, held_perform h.held hi, bound_perform h.bound op⟩

theorem run_linked {ops : List Operation} (hi : OnIssued {} ops)
    (hnames : ∀ c n, .declareQueue c (generatedName n) ∉ ops) : (run {} ops).1.Linked := by
  refine history_induct
    (P := fun ops => (∀ c n, .declareQueue c (generatedName n) ∉ ops) → (run {} ops).1.Linked)
    (fun _ => .empty) (fun past op hpast _ h hp => ?_) hi hnames
  have hp' : ∀ c n, .declareQueue c (generatedName n) ∉ past := fun c n hm =>
    hp c n (List.mem_append_left _ hm)
  have hnamed := run_named hpast
  rw [run_concat]
  exact linked_perform (h hp') op (fun n => hnamed.name_free hp') fun c n => hnamed.tag_free c

theorem Linked.tag_unique (h : b.Linked) {t₁ t₂ : String} {s₁ s₂ : Subscription}
    (h₁ : b.subscriptions.get? t₁ = some s₁) (h₂ : b.subscriptions.get? t₂ = some s₂)
    (he : s₁.queue = s₂.queue) : t₁ = t₂ := by
  obtain ⟨q₁, hq₁, hc₁⟩ := h.consumer h₁
  obtain ⟨q₂, hq₂, hc₂⟩ := h.consumer h₂
  rw [he, hq₂] at hq₁; cases hq₁
  rw [hc₁] at hc₂
  exact Option.some.inj hc₂

/-- **Consistency.** After every history in which no caller declares a name that the
broker generates, the broker is consistent: its queues and subscriptions are linked one to
one, what is held for a channel is held for an open one, and no binding dangles. -/
theorem run_consistent {ops : List Operation} (hi : OnIssued {} ops)
    (hnames : ∀ c n, .declareQueue c (generatedName n) ∉ ops) :
    (run {} ops).1.Consistent ∧
      (∀ t₁ t₂ s₁ s₂, (run {} ops).1.subscriptions.get? t₁ = some s₁ →
        (run {} ops).1.subscriptions.get? t₂ = some s₂ → s₁.queue = s₂.queue → t₁ = t₂) ∧
      ∀ tag s, (run {} ops).1.subscriptions.get? tag = some s →
        ((run {} ops).1.queues.get? s.queue).isSome := by
  have hrun := run_induct
    (P := fun past b => Named past b ∧
      ((∀ c n, .declareQueue c (generatedName n) ∉ past) → b.Consistent))
    (fun past b op ⟨hn, hc⟩ hi => by
      refine ⟨named_perform hn op, fun hp => ?_⟩
      have hp' : ∀ c n, .declareQueue c (generatedName n) ∉ past := fun c n hm =>
        hp c n (List.mem_append_left _ hm)
      exact consistent_perform (hc hp') hi (fun n => hn.name_free hp') fun c n => hn.tag_free c)
    ops [] {} ⟨named_empty, fun _ => .empty⟩ hi
  have hc := hrun.2 hnames
  refine ⟨hc, fun t₁ t₂ s₁ s₂ h₁ h₂ => hc.linked.tag_unique h₁ h₂, fun tag s hs => ?_⟩
  obtain ⟨q, hq, -⟩ := hc.linked.consumer hs
  exact Option.isSome_of_eq_some hq

/-- A history with every kind of operation. -/
def mixedHistory : List Operation :=
  [.openChannel, .openChannel, .declareExchange 1 "jobs", .declareQueue 1 "mail",
    .declareQueue 2 "work", .declareExclusive 2, .bind 1 "mail" "jobs" "new",
    .bind 2 "amq.gen-1" "jobs" "new", .publish 1 { exchange := "jobs", routingKey := "new" },
    .consume 1 "mail", .consume 2 "amq.gen-1", .consume 2 "work", .cancel 2 "ctag-2.3",
    .deleteQueue 1 "mail", .closeChannel 2, .declareExclusive 1, .consume 1 "work",
    .abortChannel 2 "gone", .openChannel, .abortConnection "lost", .openChannel,
    .declareExclusive 4, .consume 4 "amq.gen-3", .consume 4 "work"]

theorem run_consistent_mixed :
    (run {} mixedHistory).1.Consistent ∧ OnIssued {} mixedHistory ∧
      (run {} mixedHistory).1.subscriptions.keys = ["ctag-4.5", "ctag-4.6"] := by
  have hi : OnIssued {} mixedHistory := by decide
  refine ⟨(run_consistent hi fun c n hm => ?_).1, hi, by decide⟩
  simp only [mixedHistory, List.mem_cons, reduceCtorEq, Operation.declareQueue.injEq, false_or,
    List.not_mem_nil, or_false] at hm
  rcases hm with ⟨-, he⟩ | ⟨-, he⟩
  · exact generatedName_ne (by decide) he.symm
  · exact generatedName_ne (by decide) he.symm

end BrokeredRpc.Broker
