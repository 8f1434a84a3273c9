import BrokeredRpc.Proofs.Broker.Trim

/-!
# Links between queues and subscriptions

Who consumes from which queue is written down twice: a subscription names its
queue, and a queue names the tag of its consumer. `Linked` says that the two
agree. It is kept by every step that adds something fresh, and by every trim
that removes no queue under a consumer that stays.

In a linked broker, each way to end something is one trim:
* `endSubscription_eq_trim`, `endSubscriptions_eq_trim`: the tags end, and the
  exclusive queues they consumed from are removed;
* `shutdownChannel_eq_trim`: the tags made on the channel end, and the queues
  exclusive to it are removed, whatever the order of the steps.
-/
namespace BrokeredRpc

theorem Queue.eq_of_admits {q : Queue} {c d : Nat} (ha : q.admits c = true)
    (ho : q.owner = some d) : c = d := by
  rw [admits, ho, Option.all_some, beq_iff_eq] at ha
  exact ha.symm

namespace Broker

structure Linked (b : Broker) : Prop where
  subscribed_iff : ∀ tag name,
    (∃ s, b.subscriptions.get? tag = some s ∧ s.queue = name) ↔
      ∃ q, b.queues.get? name = some q ∧ q.consumer = some tag
  /-- A queue with a consumer keeps nothing back. -/
  drained : ∀ name q, b.queues.get? name = some q → q.consumer.isSome → q.backlog = ∅
  /-- Who consumes from an exclusive queue is its owner. -/
  exclusive : ∀ tag s q c, b.subscriptions.get? tag = some s →
    b.queues.get? s.queue = some q → q.owner = some c → s.channel = c

variable {b : Broker}

namespace Linked

theorem consumer (h : b.Linked) {tag : String} {s : Subscription}
    (hs : b.subscriptions.get? tag = some s) :
    ∃ q, b.queues.get? s.queue = some q ∧ q.consumer = some tag :=
  (h.subscribed_iff tag s.queue).1 ⟨s, hs, rfl⟩

theorem subscription (h : b.Linked) {name tag : String} {q : Queue}
    (hq : b.queues.get? name = some q) (hc : q.consumer = some tag) :
    ∃ s, b.subscriptions.get? tag = some s ∧ s.queue = name :=
  (h.subscribed_iff tag name).2 ⟨q, hq, hc⟩

theorem consumerOf? (h : b.Linked) {name : String} {q : Queue}
    (hq : b.queues.get? name = some q) : b.consumerOf? q = q.consumer := by
  unfold Broker.consumerOf?
  cases hc : q.consumer with
  | none => rfl
  | some tag =>
    obtain ⟨s, hs, -⟩ := h.subscription hq hc
    rw [Option.filter, Table.contains, hs]; rfl

theorem empty : Linked {} := by
  refine ⟨fun tag name => ⟨?_, ?_⟩, fun name q hq => ?_, fun tag s q c hs => ?_⟩
  · rintro ⟨s, hs, -⟩; cases hs
  · rintro ⟨q, hq, -⟩; cases hq
  · cases hq
  · cases hs

theorem of_same {b' : Broker} (h : b.Linked) (hq : b'.queues = b.queues)
    (hs : b'.subscriptions = b.subscriptions) : b'.Linked := by
  refine ⟨fun tag name => ?_, fun name q => ?_, fun tag s q c => ?_⟩
  · rw [hq, hs]; exact h.subscribed_iff tag name
  · rw [hq]; exact h.drained name q
  · rw [hq, hs]; exact h.exclusive tag s q c

/-! ## Steps that add -/

theorem addQueue (h : b.Linked) {name : String} (hn : b.queues.get? name = none)
    (owner : Option Nat) : Linked { b with queues := b.queues.insert name { owner } } := by
  refine ⟨fun tag name' => ?_, fun name' q hq hc => ?_, fun tag s q c hs hq ho => ?_⟩
  · simp only [Table.get?_insert]
    rw [h.subscribed_iff tag name']
    split
    · next he =>
      subst he
      refine ⟨fun ⟨q, hq, hc⟩ => ?_, fun ⟨q, hq, hc⟩ => ?_⟩
      · rw [hn] at hq; cases hq
      · cases hq; cases hc
    · exact Iff.rfl
  · simp only [Table.get?_insert] at hq
    split at hq
    · cases hq; cases hc
    · exact h.drained name' q hq hc
  · obtain ⟨q', hq', -⟩ := h.consumer hs
    have hne : name ≠ s.queue := by
      rintro rfl
      rw [hn] at hq'; cases hq'
    simp only [Table.get?_insert, if_neg hne] at hq
    exact h.exclusive tag s q c hs hq ho

theorem keepMessage (h : b.Linked) {name : String} {q : Queue} (hq : b.queues.get? name = some q)
    (hc : q.consumer = none) (backlog : Log Message) :
    Linked { b with queues := b.queues.insert name { q with backlog } } := by
  refine ⟨fun tag name' => ?_, fun name' r hr hcr => ?_, fun tag s r c hs hr ho => ?_⟩
  · simp only [Table.get?_insert]
    rw [h.subscribed_iff tag name']
    split
    · next he =>
      subst he
      rw [hq]
      simp only [Option.some.injEq, exists_eq_left']
    · exact Iff.rfl
  · simp only [Table.get?_insert] at hr
    split at hr
    · cases hr; rw [hc] at hcr; cases hcr
    · exact h.drained name' r hr hcr
  · simp only [Table.get?_insert] at hr
    split at hr
    · next he => cases hr; exact h.exclusive tag s q c hs (he ▸ hq) ho
    · exact h.exclusive tag s r c hs hr ho

/-- A consumer comes to a queue that has none, under a tag not in use. -/
theorem subscribe (h : b.Linked) {name tag : String} {q : Queue} {c : Nat}
    (hq : b.queues.get? name = some q) (ha : q.admits c = true) (hc : q.consumer = none)
    (hn : b.subscriptions.get? tag = none) :
    Linked { b with
      queues := b.queues.insert name { q with backlog := ∅, consumer := some tag }
      subscriptions := b.subscriptions.insert tag ⟨c, name⟩ } := by
  have hfree : ∀ tag', ¬∃ s, b.subscriptions.get? tag' = some s ∧ s.queue = name := by
    intro tag' hs
    obtain ⟨r, hr, hrc⟩ := (h.subscribed_iff tag' name).1 hs
    rw [hq] at hr; cases hr
    rw [hc] at hrc; cases hrc
  have hother : ∀ name', ¬∃ r, b.queues.get? name' = some r ∧ r.consumer = some tag := by
    intro name' hr
    obtain ⟨s, hs, -⟩ := (h.subscribed_iff tag name').2 hr
    rw [hn] at hs; cases hs
  refine ⟨fun tag' name' => ?_, fun name' r hr hcr => ?_, fun tag' s r d hs hr ho => ?_⟩
  · simp only [Table.get?_insert]
    by_cases ht : tag = tag' <;> by_cases hname : name = name'
    · simp [ht, hname]
    · subst ht
      rw [if_pos rfl, if_neg hname]
      refine ⟨fun ⟨s, hs, he⟩ => ?_, fun hr => absurd hr (hother name')⟩
      cases hs; exact absurd he hname
    · subst hname
      rw [if_neg ht, if_pos rfl]
      refine ⟨fun hs => absurd hs (hfree tag'), fun ⟨r, hr, he⟩ => ?_⟩
      cases hr; exact absurd (Option.some.inj he) ht
    · rw [if_neg ht, if_neg hname]
      exact h.subscribed_iff tag' name'
  · simp only [Table.get?_insert] at hr
    split at hr
    · cases hr; rfl
    · exact h.drained name' r hr hcr
  · simp only [Table.get?_insert] at hs hr
    split at hs
    · cases hs
      rw [if_pos rfl] at hr
      cases hr
      exact Queue.eq_of_admits ha ho
    · have hne : name ≠ s.queue := fun he => hfree tag' ⟨s, hs, he.symm⟩
      rw [if_neg hne] at hr
      exact h.exclusive tag' s r d hs hr ho

theorem enqueue (h : b.Linked) (name : String) (m : Message) : (b.enqueue name m).1.Linked := by
  unfold Broker.enqueue
  split
  · exact h
  · next q hq =>
    rw [h.consumerOf? hq]
    split
    · exact h.of_same rfl rfl
    · next hc => exact h.keepMessage hq hc _

/-! ## Trims -/

theorem trim (h : b.Linked) {ended removed : String → Bool}
    (hr : ∀ name q tag, b.queues.get? name = some q → q.consumer = some tag →
      removed name = true → ended tag = true) : (b.trim ended removed).Linked := by
  refine ⟨fun tag name => ⟨?_, ?_⟩, fun name q hq hc => ?_, fun tag s q c hs hq ho => ?_⟩
  · rintro ⟨s, hs, rfl⟩
    obtain ⟨hs, he⟩ := get?_subscriptions_trim_some.1 hs
    obtain ⟨q, hq, hc⟩ := h.consumer hs
    refine ⟨q.release ended, get?_queues_trim_some.2 ⟨q, hq, ?_, rfl⟩,
      Queue.consumer_release.2 ⟨hc, he⟩⟩
    rw [← Bool.not_eq_true]
    intro hrm
    rw [hr _ q tag hq hc hrm] at he; cases he
  · rintro ⟨q, hq, hc⟩
    obtain ⟨p, hp, -, rfl⟩ := get?_queues_trim_some.1 hq
    obtain ⟨hc, he⟩ := Queue.consumer_release.1 hc
    obtain ⟨s, hs, hsq⟩ := h.subscription hp hc
    exact ⟨s, get?_subscriptions_trim_some.2 ⟨hs, he⟩, hsq⟩
  · obtain ⟨p, hp, -, rfl⟩ := get?_queues_trim_some.1 hq
    obtain ⟨tag, hc⟩ := Option.isSome_iff_exists.1 hc
    exact h.drained name p hp (Option.isSome_of_eq_some (Queue.consumer_release.1 hc).1)
  · obtain ⟨p, hp, -, rfl⟩ := get?_queues_trim_some.1 hq
    exact h.exclusive tag s p c (get?_subscriptions_trim_some.1 hs).1 hp ho

end Linked

/-- The exclusive queues whose consumers end. -/
def orphans (b : Broker) (ended : String → Bool) (name : String) : Bool :=
  (b.queues.get? name).any fun q => q.owner.isSome && q.consumer.any ended

theorem orphans_eq_true {ended : String → Bool} {name : String} :
    b.orphans ended name = true ↔ ∃ q tag, b.queues.get? name = some q ∧ q.owner.isSome ∧
      q.consumer = some tag ∧ ended tag = true := by
  unfold orphans
  cases b.queues.get? name with
  | none => simp
  | some q => cases hc : q.consumer <;> simp [hc]

/-- Ends subscriptions, each with the exclusive queue it was on. -/
def endTags (b : Broker) (ended : String → Bool) : Broker := b.trim ended (b.orphans ended)

theorem Linked.endTags (h : b.Linked) (ended : String → Bool) : (b.endTags ended).Linked := by
  refine h.trim fun name q tag hq hc ho => ?_
  obtain ⟨q', tag', hq', -, hc', he⟩ := orphans_eq_true.1 ho
  rw [hq] at hq'; cases hq'
  rw [hc] at hc'; cases hc'
  exact he

theorem endTags_endTags (b : Broker) (ended ended' : String → Bool) :
    (b.endTags ended).endTags ended' = b.endTags fun tag => ended tag || ended' tag := by
  unfold endTags
  rw [trim_trim]
  refine congrArg (b.trim _) ?_
  funext name
  unfold orphans
  rw [get?_queues_trim]
  cases b.queues.get? name with
  | none => simp
  | some q =>
    obtain ⟨owner, backlog, consumer⟩ := q
    cases owner with
    | none => simp [Queue.release]
    | some c =>
      cases consumer with
      | none => simp [Queue.release]
      | some tag => cases he : ended tag <;> simp [Queue.release, he]

theorem endTags_of_unused {ended : String → Bool}
    (hs : ∀ tag s, b.subscriptions.get? tag = some s → ended tag = false)
    (hq : ∀ name q tag, b.queues.get? name = some q → q.consumer = some tag → ended tag = false) :
    b.endTags ended = b := by
  have ho : b.orphans ended = never := by
    funext name
    rw [never, ← Bool.not_eq_true, orphans_eq_true]
    rintro ⟨q, tag, hqn, -, hc, he⟩
    rw [hq name q tag hqn hc] at he; cases he
  rw [endTags, ho]
  refine eq_of_lookups rfl rfl rfl rfl (fun x => ?_) (fun name => ?_) fun tag => ?_
  · rw [get?_exchanges_trim]
    cases b.exchanges.get? x with
    | none => rfl
    | some bindings => exact congrArg some (List.filter_eq_self.2 fun _ _ => rfl)
  · rw [get?_queues_trim]
    cases hn : b.queues.get? name with
    | none => rfl
    | some q => exact congrArg some (Queue.release_of_kept fun tag hc => hq name q tag hn hc)
  · rw [get?_subscriptions_trim]
    cases ht : b.subscriptions.get? tag with
    | none => exact ite_self none
    | some s => rw [hs tag s ht]; rfl

/-! ## Ends as trims -/

theorem Linked.queue_of_consumer (h : b.Linked) {tag name : String} {s : Subscription} {r : Queue}
    (hs : b.subscriptions.get? tag = some s) (hr : b.queues.get? name = some r)
    (hc : r.consumer = some tag) : s.queue = name := by
  obtain ⟨s', hs', he⟩ := h.subscription hr hc
  rw [hs] at hs'; cases hs'
  exact he

theorem Linked.release_of_ne (h : b.Linked) {tag name : String} {s : Subscription} {r : Queue}
    (hs : b.subscriptions.get? tag = some s) (hr : b.queues.get? name = some r)
    (hne : s.queue ≠ name) : r.release (tag == ·) = r := by
  refine Queue.release_of_kept fun tag' hc => ?_
  rw [beq_eq_false_iff_ne]
  rintro rfl
  exact hne (h.queue_of_consumer hs hr hc)

/-- When a tag ends, its queue is orphaned if it is exclusive. -/
theorem Linked.orphans_tag (h : b.Linked) {tag : String} {s : Subscription} {q : Queue}
    (hs : b.subscriptions.get? tag = some s) (hq : b.queues.get? s.queue = some q)
    (hc : q.consumer = some tag) (name : String) :
    b.orphans (tag == ·) name = (s.queue == name && q.owner.isSome) := by
  rw [Bool.eq_iff_iff, orphans_eq_true, Bool.and_eq_true, beq_iff_eq]
  refine ⟨fun ho => ?_, fun ho => ?_⟩
  · obtain ⟨r, tag', hr, hown, hrc, ht⟩ := ho
    rw [← beq_iff_eq.1 ht] at hrc
    have he := h.queue_of_consumer hs hr hrc
    rw [he, hr] at hq; cases hq
    exact ⟨he, hown⟩
  · obtain ⟨he, hown⟩ := ho
    exact ⟨q, tag, he ▸ hq, hown, hc, beq_self_eq_true tag⟩

/-- **One subscription ends**, and an exclusive queue goes with it. -/
theorem endSubscription_eq_trim (h : b.Linked) (tag : String) (last : Event) :
    (b.endSubscription tag last).1 = b.endTags (tag == ·) := by
  unfold endSubscription
  cases hs : b.subscriptions.get? tag with
  | none =>
    refine (endTags_of_unused (fun tag' s hs' => ?_) fun name q tag' hq hc => ?_).symm
    · rw [beq_eq_false_iff_ne]
      rintro rfl
      rw [hs] at hs'; cases hs'
    · rw [beq_eq_false_iff_ne]
      rintro rfl
      obtain ⟨s, hs', -⟩ := h.subscription hq hc
      rw [hs] at hs'; cases hs'
  | some s =>
    obtain ⟨q, hq, hc⟩ := h.consumer hs
    have ho := h.orphans_tag hs hq hc
    have hsubs : ∀ t, (b.subscriptions.erase tag).get? t =
        (b.endTags (tag == ·)).subscriptions.get? t := by
      intro t
      rw [endTags, get?_subscriptions_trim, Table.get?_erase]
      simp only [beq_iff_eq]
    have hkept : ∀ name, s.queue ≠ name →
        b.queues.get? name = (b.queues.get? name).map (·.release (tag == ·)) := by
      intro name hne
      cases hr : b.queues.get? name with
      | none => rfl
      | some r => rw [Option.map_some, h.release_of_ne hs hr hne]
    simp only [detach, hq]
    split
    · next hown =>
      refine eq_of_lookups rfl rfl rfl rfl (fun x => ?_) (fun name => ?_) hsubs
      · rw [get?_exchanges_removeQueue, endTags, get?_exchanges_trim]
        refine congrArg (fun f => (b.exchanges.get? x).map (List.filter f)) ?_
        funext m
        rw [ho, hown, Bool.and_true, bne, Bool.beq_comm]
      · rw [get?_queues_removeQueue, endTags, get?_queues_trim, ho, hown, Bool.and_true]
        simp only [beq_iff_eq]
        split
        · rfl
        · next hne => exact hkept name hne
    · next hown =>
      rw [Bool.not_eq_true] at hown
      refine eq_of_lookups rfl rfl rfl rfl (fun x => ?_) (fun name => ?_) hsubs
      · rw [endTags, get?_exchanges_trim]
        simp only [ho, hown, Bool.and_false, Bool.not_false]
        cases b.exchanges.get? x with
        | none => rfl
        | some bindings => exact congrArg some (List.filter_eq_self.2 fun _ _ => rfl).symm
      · rw [endTags, get?_queues_trim, ho, hown, Bool.and_false, Table.get?_insert]
        split
        · next he =>
          rw [← he, hq]
          simp only [Bool.false_eq_true, if_false, Option.map_some, Queue.release, hc,
            Option.filter, beq_self_eq_true, Bool.not_true]
        · next hne => exact hkept name hne

/-- **Subscriptions end one after another**, with the same result as all at once. -/
theorem endSubscriptions_eq_trim (last : Event) (tags : List String) :
    ∀ {b : Broker}, b.Linked → (b.endSubscriptions last tags).1 = b.endTags tags.contains := by
  induction tags with
  | nil => exact fun _ => (endTags_of_unused (fun _ _ _ => rfl) fun _ _ _ _ _ => rfl).symm
  | cons tag rest ih =>
    intro b h
    rw [endSubscriptions, forEach_cons]
    have hr := ih (h.endTags (tag == ·))
    rw [← endSubscription_eq_trim h tag last, endSubscriptions] at hr
    rw [hr, endSubscription_eq_trim h, endTags_endTags]
    refine congrArg b.endTags ?_
    funext t
    rw [List.contains_cons, Bool.beq_comm]

/-- **A queue is deleted**, and its consumer ends with it. -/
theorem deleteBusy_eq_trim (h : b.Linked) {name tag : String} {q : Queue}
    (hq : b.queues.get? name = some q) (hc : q.consumer = some tag) :
    { b with subscriptions := b.subscriptions.erase tag }.removeQueue name =
      b.trim (tag == ·) (name == ·) := by
  rw [removeQueue_eq_trim]
  refine eq_of_lookups rfl rfl rfl rfl (fun x => ?_) (fun name' => ?_) fun t => ?_
  · simp only [get?_exchanges_trim]
  · simp only [get?_queues_trim, beq_iff_eq]
    split
    · rfl
    · next hne =>
      cases hr : b.queues.get? name' with
      | none => rfl
      | some r =>
        obtain ⟨s, hs, he⟩ := h.subscription hq hc
        rw [Option.map_some, Option.map_some, release_never, h.release_of_ne hs hr (he ▸ hne)]
  · simp only [get?_subscriptions_trim, Table.get?_erase, beq_iff_eq, never, Bool.false_eq_true,
      if_false]

/-- **A channel is shut down**: its subscriptions end, and its exclusive queues go. -/
theorem shutdownChannel_eq_trim (h : b.Linked) (cause : Shutdown) {c : Nat}
    (ho : b.isOpen c = true) :
    (b.shutdownChannel cause c).1 =
      (b.recordClosed c cause).trim (b.tagsOf c).contains (b.queuesOf c).contains := by
  have hr : (b.recordClosed c cause).Linked := h.of_same rfl rfl
  rw [shutdownChannel, if_pos ho]
  simp only [foldl_removeQueue_eq_trim, endSubscriptions_eq_trim _ _ hr, endTags, trim_trim]
  refine congr (congrArg _ ?_) ?_
  · funext tag
    exact Bool.or_false _
  · funext name
    rw [Bool.eq_iff_iff, Bool.or_eq_true, orphans_eq_true, List.contains_iff_mem,
      List.contains_iff_mem, mem_queuesOf, mem_queuesOf]
    refine ⟨?_, fun ⟨q, hq, hown⟩ => ?_⟩
    · rintro (⟨q, tag, hq, hsome, hc, ht⟩ | ⟨q, hq, hown⟩)
      · -- The owner of an exclusive queue is the one who consumes from it.
        obtain ⟨s, hs, hsc⟩ := mem_tagsOf.1 (List.contains_iff_mem.1 ht)
        obtain ⟨d, hown⟩ := Option.isSome_iff_exists.1 hsome
        obtain ⟨s', hs', he⟩ := h.subscription hq hc
        rw [show b.subscriptions.get? tag = some s from hs] at hs'; cases hs'
        refine ⟨q, hq, ?_⟩
        rw [hown, ← h.exclusive tag s q d hs (he ▸ hq) hown, hsc]
      · obtain ⟨p, hp, -, rfl⟩ := get?_queues_trim_some.1 hq
        exact ⟨p, hp, hown⟩
    · by_cases hor : (b.recordClosed c cause).orphans
          ((b.recordClosed c cause).tagsOf c).contains name = true
      · exact Or.inl (orphans_eq_true.1 hor)
      · rw [Bool.not_eq_true] at hor
        exact Or.inr ⟨q.release _, get?_queues_trim_some.2 ⟨q, hq, hor, rfl⟩, hown⟩

end Broker

end BrokeredRpc
