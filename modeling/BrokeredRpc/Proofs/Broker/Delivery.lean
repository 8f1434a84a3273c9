import BrokeredRpc.Proofs.Broker.Backlogs
import BrokeredRpc.Proofs.Broker.Routing
import BrokeredRpc.Proofs.Broker.Streams

/-!
# Messages reach their consumers once and in order

What is routed to a queue comes out of it: handed to the consumer of the moment,
flushed to the next one, or waiting in the backlog. One operation hands out some
deliveries, and what waited before it together with what arrives with it is
exactly these and what waits after it (`HandsOut`, `perform_handsOut`). `Flow`
adds this up over the life of a queue, from its declaration on and across all its
consumers.

* `run_flow`: what was routed to a queue is what its subscriptions were handed,
  in the order in which they were made, followed by the backlog;
* `run_exactly_once`: the same with delivery numbers that increase, and no matter
  when consumers come and go.
-/
namespace BrokeredRpc.Broker

open Operation (Value)

variable {b : Broker} {name : String}

/-! ## One operation -/

/-- The operation hands these deliveries out to whoever consumes from the queue after it. -/
structure HandsOut (name : String) (b : Broker) (op : Operation) (effect : Effect Value)
    (out : List Delivery) : Prop where
  whole : b.waiting name ++ arrival name b op =
    out.map Delivery.message ++ effect.broker.waiting name
  ascending : Ascending out
  fresh : ∀ d ∈ out, b.deliveries < d.envelope.deliveryTag ∧
    d.envelope.deliveryTag ≤ effect.broker.deliveries
  counted : b.deliveries ≤ effect.broker.deliveries
  sent : ∀ tag, effect.broker.consumerOn? name = some tag → deliveriesTo tag effect.sent = out
  unsent : effect.broker.consumerOn? name = none → out = []

theorem HandsOut.nothing {op : Operation} {effect : Effect Value} (ha : arrival name b op = [])
    (hw : effect.broker.waiting name = b.waiting name)
    (hc : b.deliveries ≤ effect.broker.deliveries)
    (hs : ∀ tag, effect.broker.consumerOn? name = some tag → deliveriesTo tag effect.sent = []) :
    HandsOut name b op effect [] where
  whole := by rw [ha, hw, List.append_nil]; rfl
  ascending := .nil
  fresh _ hd := absurd hd List.not_mem_nil
  counted := hc
  sent := hs
  unsent _ := rfl

theorem arrival_of_refused {op : Operation} {e : TransportError} (h : b.perform op = b.refuse e) :
    arrival name b op = [] := by
  cases op with
  | publish c m =>
    refine if_neg fun ⟨ho, hm⟩ => ?_
    have hanswer := congrArg Effect.answer h
    cases hr : b.route? m.exchange m.routingKey with
    | none =>
      rw [hr] at hm
      exact absurd hm List.not_mem_nil
    | some queues =>
      simp only [perform, publish, onChannel, isOpen_iff.1 ho, hr] at hanswer
      cases hanswer
  | _ => rfl

theorem nodup_route? (h : b.Bound) {x key : String} {queues : List String}
    (hr : b.route? x key = some queues) : queues.Nodup := by
  unfold route? at hr
  split at hr
  · cases hr
    split
    · exact List.pairwise_singleton _ key
    · exact List.nodup_nil
  · rw [Option.map_eq_some_iff] at hr
    obtain ⟨bindings, hb, rfl⟩ := hr
    refine List.pairwise_map.2 (List.Pairwise.imp_of_mem ?_ ((h.nodup x bindings hb).filter _))
    intro m m' hm hm' hne he
    have hk := beq_iff_eq.1 (List.mem_filter.1 hm).2
    have hk' := beq_iff_eq.1 (List.mem_filter.1 hm').2
    obtain ⟨key₁, queue₁⟩ := m
    obtain ⟨key₂, queue₂⟩ := m'
    cases hk; cases hk'; cases he
    exact hne rfl

theorem handsOut_publish (hl : b.Linked) (hb : b.Bound) {c : Nat} {m : Message}
    {queues : List String} (ho : b.isOpen c = true)
    (hr : b.route? m.exchange m.routingKey = some queues)
    (hs : (b.queues.get? name).isSome) :
    ∃ out, HandsOut name b (.publish c m)
      ((b.enqueueAll m queues).1.grant .nothing (b.enqueueAll m queues).2) out := by
  obtain ⟨q, hq⟩ := Option.isSome_iff_exists.1 hs
  have hn := nodup_route? hb hr
  have ha : arrival name b (.publish c m) = if name ∈ queues then [m] else [] := by
    simp only [arrival, ho, hr, Option.getD_some, true_and]
  have hle := deliveries_le_enqueueAll b m queues
  by_cases hm : name ∈ queues
  · rw [if_pos hm] at ha
    cases hc : q.consumer with
    | none =>
      have hget := enqueueAll_idle m hm hn hl hq hc
      refine ⟨[], ?_, .nil, fun d hd => absurd hd List.not_mem_nil, hle, fun tag ht => ?_,
        fun _ => rfl⟩
      · rw [ha, waiting_of_get? hq]
        exact (Log.toList_push _ _).symm.trans (waiting_of_get? hget).symm
      · have := (consumerOn?_of_get? hget).symm.trans ht
        rw [hc] at this; cases this
    | some tag =>
      obtain ⟨hget, number, hlt, hle', hsent⟩ := enqueueAll_busy m hc hm hn hl hq
      have hempty : q.backlog.toList = [] := by
        rw [hl.drained name q hq (Option.isSome_of_eq_some hc)]; rfl
      refine ⟨[m.deliver number], ?_, List.pairwise_singleton _ _, fun d hd => ?_, hle,
        fun tag' ht => ?_, fun ht => ?_⟩
      · rw [ha, waiting_of_get? hq, hempty]
        refine Eq.symm ((congrArg (_ ++ ·) (waiting_of_get? hget)).trans ?_)
        rw [hempty]
        rfl
      · rw [List.mem_singleton.1 hd]
        exact ⟨hlt, hle'⟩
      · have htag := (consumerOn?_of_get? hget).symm.trans ht
        rw [hc] at htag; cases htag
        exact hsent
      · have := (consumerOn?_of_get? hget).symm.trans ht
        rw [hc] at this; cases this
  · rw [if_neg hm] at ha
    obtain ⟨hget, hsent⟩ := enqueueAll_of_notMem m hm hl
    refine ⟨[], .nothing ha (waiting_congr hget) hle fun tag ht => hsent tag ?_⟩
    rw [consumerOn?, ← hget]
    exact ht

theorem handsOut_consume {c : Nat} {q : Queue} (hq : b.queues.get? name = some q) (tag : String) :
    HandsOut name b (.consume c name)
      ({ b with
          issuedTags := b.issuedTags + 1
          deliveries := b.deliveries + q.backlog.size
          queues := b.queues.insert name { q with backlog := ∅, consumer := some tag }
          subscriptions := b.subscriptions.insert tag ⟨c, name⟩ }.grant (.name tag)
        ((numbered (b.deliveries + 1) q.backlog.toList).map fun d => ⟨tag, .delivery d⟩))
      (numbered (b.deliveries + 1) q.backlog.toList) where
  whole := by
    rw [waiting_of_get? hq, map_message_numbered, waiting_of_get? (Table.get?_insert_self _ _ _)]
    rfl
  ascending := ascending_numbered _ _
  fresh d hd := by
    have hn := deliveryTag_of_mem_numbered _ hd
    rw [Log.length_toList] at hn
    show _ ∧ _ ≤ b.deliveries + q.backlog.size
    omega
  counted := Nat.le_add_right _ _
  sent tag' ht := by
    cases (consumerOn?_of_get? (Table.get?_insert_self _ _ _)).symm.trans ht
    exact deliveriesTo_of_eventsTo ((eventsTo_deliveries _ _ _).trans (if_pos rfl))
  unsent ht := by
    cases (consumerOn?_of_get? (Table.get?_insert_self _ _ _)).symm.trans ht

/-- **One operation and one queue.** What waited and what arrives is handed out or waits. -/
theorem perform_handsOut (hl : b.Linked) (hb : b.Bound) {op : Operation}
    (hnames : ∀ n, b.namedQueues < n → b.queues.get? (generatedName n) = none)
    (htags : ∀ c n, b.issuedTags < n → b.subscriptions.get? (tagName c n) = none)
    (hs : ((b.perform op).broker.queues.get? name).isSome) :
    ∃ out, HandsOut name b op (b.perform op) out := by
  rcases perform_cases b op with ⟨e, hr⟩ | hg
  · have ha : arrival name b op = [] := arrival_of_refused hr
    rw [hr]
    exact ⟨[], .nothing ha rfl (Nat.le_refl _) fun _ _ => rfl⟩
  generalize b.perform op = effect at hg hs
  -- A queue that has just been declared is empty, as it was when it was not there.
  have hadded : ∀ {other : String} (owner : Option Nat), b.queues.get? other = none →
      waiting name { b with queues := b.queues.insert other { owner } } = b.waiting name := by
    intro other owner hother
    by_cases he : other = name
    · subst he
      rw [waiting_of_get? (Table.get?_insert_self _ _ _), waiting, hother]
      rfl
    · exact waiting_congr ((Table.get?_insert _ _ _ _).trans (if_neg he))
  have hremoved : ∀ {b' : Broker} {other : String}, b'.queues = b.queues →
      ((b'.removeQueue other).queues.get? name).isSome →
      (b'.removeQueue other).waiting name = b.waiting name := by
    intro b' other hq hs
    rw [removeQueue_eq_trim] at hs ⊢
    exact (waiting_trim hs).trans (waiting_congr (by rw [hq]))
  cases hg with
  | opened => exact ⟨[], .nothing rfl rfl (Nat.le_refl _) fun _ _ => rfl⟩
  | exchangeKept => exact ⟨[], .nothing rfl rfl (Nat.le_refl _) fun _ _ => rfl⟩
  | exchangeAdded => exact ⟨[], .nothing rfl rfl (Nat.le_refl _) fun _ _ => rfl⟩
  | queueKept => exact ⟨[], .nothing rfl rfl (Nat.le_refl _) fun _ _ => rfl⟩
  | queueAdded hc hq => exact ⟨[], .nothing rfl (hadded none hq) (Nat.le_refl _) fun _ _ => rfl⟩
  | @exclusiveAdded c =>
    have hw := hadded (some c) (hnames _ (Nat.lt_succ_self _))
    exact ⟨[], .nothing rfl hw (Nat.le_refl _) fun _ _ => rfl⟩
  | bindingKept => exact ⟨[], .nothing rfl rfl (Nat.le_refl _) fun _ _ => rfl⟩
  | bindingAdded => exact ⟨[], .nothing rfl rfl (Nat.le_refl _) fun _ _ => rfl⟩
  | @subscribed c other q hc hq ha hn =>
    by_cases he : other = name
    · subst he
      exact ⟨_, handsOut_consume hq _⟩
    · have hget := (Table.get?_insert b.queues other
        { q with backlog := ∅, consumer := some (tagName c (b.issuedTags + 1)) } name).trans
        (if_neg he)
      refine ⟨[], .nothing rfl (waiting_congr hget) (Nat.le_add_right _ _) fun tag ht => ?_⟩
      -- The tag that the backlog of the other queue goes to is new.
      obtain ⟨s, hsub, -⟩ := hl.consumerOn?_iff.1
        ((congrArg (Option.bind · Queue.consumer) hget).symm.trans ht)
      have hne : tagName c (b.issuedTags + 1) ≠ tag := by
        rintro rfl
        rw [htags c _ (Nat.lt_succ_self _)] at hsub; cases hsub
      have hsent := (eventsTo_deliveries (tagName c (b.issuedTags + 1)) tag
        (numbered (b.deliveries + 1) q.backlog.toList)).trans (if_neg hne)
      exact (congrArg (List.filterMap Event.delivery?) hsent).trans rfl
  | deletedBusy =>
    refine ⟨[], .nothing rfl (hremoved rfl hs) (Nat.le_refl _) fun tag _ => ?_⟩
    show deliveriesTo tag [_] = []
    rw [deliveriesTo, eventsTo_cons]
    split <;> rfl
  | deletedIdle => exact ⟨[], .nothing rfl (hremoved rfl hs) (Nat.le_refl _) fun _ _ => rfl⟩
  | @cancelled c tag s =>
    have hw : (b.endSubscription tag .cancelled).1.waiting name = b.waiting name := by
      rw [show _ = _ from endSubscription_eq_trim hl tag .cancelled] at hs ⊢
      exact waiting_trim hs
    exact ⟨[], .nothing rfl hw (Nat.le_of_eq (deliveries_endSubscription b tag _).symm)
      fun t _ => deliveriesTo_endSubscription b rfl t⟩
  | @published c m queues hc hr =>
    obtain ⟨q, hq⟩ := Option.isSome_iff_exists.1 hs
    obtain ⟨p, hp, -⟩ :=
      (Shrinks.repeated (fun b other => .enqueue b other m) queues b).queues name q hq
    exact handsOut_publish hl hb hc hr (Option.isSome_of_eq_some hp)
  | @closed c =>
    exact ⟨[], .nothing rfl (waiting_shutdownChannel hl _ c hs)
      (Nat.le_of_eq (deliveries_shutdownChannel b _ c).symm)
      fun t _ => deliveriesTo_shutdownChannel b _ c t⟩
  | @aborted c =>
    exact ⟨[], .nothing rfl (waiting_shutdownChannel hl _ c hs)
      (Nat.le_of_eq (deliveries_shutdownChannel b _ c).symm)
      fun t _ => deliveriesTo_shutdownChannel b _ c t⟩
  | lost =>
    exact ⟨[], .nothing rfl (waiting_shutdownChannels _ _ hl hs)
      (Nat.le_of_eq (deliveries_shutdownChannels b _ _).symm)
      fun t _ => deliveriesTo_shutdownChannels _ t _ b⟩

/-! ## The subscriptions of a queue -/

/-- The tag under which an operation subscribes to the queue. -/
def subscription (name : String) (b : Broker) : Operation → List String
  | .consume c queue =>
    if queue = name then
      match (b.perform (.consume c queue)).answer with
      | .ok (.name tag) => [tag]
      | _ => []
    else []
  | _ => []

/-- The subscriptions made on the queue in a history, in order. -/
def subscribers (name : String) (b : Broker) (ops : List Operation) : List String :=
  gather (subscription name) b ops

/-- An operation subscribes to the queue, under a new tag, or it does not. -/
theorem subscription_cases (name : String) (b : Broker) (op : Operation) :
    (∃ c, op = .consume c name ∧ subscription name b op = [tagName c (b.issuedTags + 1)] ∧
      (b.perform op).broker.issuedTags = b.issuedTags + 1 ∧
      (b.perform op).broker.subscriptions.get? (tagName c (b.issuedTags + 1)) = some ⟨c, name⟩) ∨
    (subscription name b op = [] ∧
      ∀ c tag, op = .consume c name → (b.perform op).answer ≠ .ok (.name tag)) := by
  cases op with
  | consume c queue =>
    by_cases he : queue = name
    · subst he
      simp only [subscription, if_true]
      split
      · next tag ha =>
        obtain ⟨rfl, hs, hi⟩ := of_consume_answer ha
        exact Or.inl ⟨c, rfl, rfl, hi, hs⟩
      · next hne => exact Or.inr ⟨rfl, fun c' tag _ ha => hne tag ha⟩
    · exact Or.inr ⟨if_neg he, fun c' tag hop => absurd (Operation.consume.inj hop).2 he⟩
  | _ => exact Or.inr ⟨rfl, fun c tag hop => nomatch hop⟩

theorem consumerOn?_of_perform (hl : b.Linked) {op : Operation}
    (hl' : (b.perform op).broker.Linked) (hi : ∀ c ∈ op.channel?, b.Issued c)
    (htags : ∀ c n, b.issuedTags < n → b.subscriptions.get? (tagName c n) = none)
    (hop : ∀ c tag, op = .consume c name → (b.perform op).answer ≠ .ok (.name tag)) {tag : String}
    (hc : (b.perform op).broker.consumerOn? name = some tag) : b.consumerOn? name = some tag := by
  obtain ⟨s, hs, he⟩ := hl'.consumerOn?_iff.1 hc
  refine hl.consumerOn?_iff.2 ⟨s, ?_, he⟩
  cases perform_fate hl.serving hi htags tag with
  | absent _ h => rw [hs] at h; cases h
  | made _ ho _ _ h ha =>
    rw [hs] at h; cases h
    subst he
    exact absurd ha (hop _ tag ho)
  | goesOn _ h₀ h => rw [hs] at h; cases h; exact h₀
  | shutDown _ h => rw [hs] at h; cases h
  | cancelled _ h => rw [hs] at h; cases h

/-- Whoever is not subscribed after an operation, and was not new with it, is handed nothing. -/
theorem deliveriesTo_of_absent (hl : b.Linked) {op : Operation}
    (hi : ∀ c ∈ op.channel?, b.Issued c)
    (htags : ∀ c n, b.issuedTags < n → b.subscriptions.get? (tagName c n) = none) {tag : String}
    (h : (b.perform op).broker.subscriptions.get? tag = none) :
    deliveriesTo tag (b.perform op).sent = [] := by
  cases perform_fate hl.serving hi htags tag with
  | absent _ _ he => rw [deliveriesTo, he]; rfl
  | made _ _ _ _ h' => rw [h] at h'; cases h'
  | goesOn _ _ h' => rw [h] at h'; cases h'
  | shutDown _ _ _ _ he => exact deliveriesTo_of_terminal rfl he
  | cancelled _ _ _ he => exact deliveriesTo_of_terminal rfl he

/-! ## The life of a queue -/

/-- What the subscriptions of a queue, `tags`, were handed so far, and what waits. -/
structure Flow (name : String) (b : Broker) (sent : List Dispatch) (routed : List Message)
    (tags : List String) : Prop where
  numbered : ∀ tag ∈ tags, ∃ c n, tag = tagName c n ∧ n ≤ b.issuedTags
  own : ∀ tag ∈ tags, ∀ s, b.subscriptions.get? tag = some s → s.queue = name
  /-- The consumer of the queue is the last of its subscriptions. -/
  current : ∀ tag, b.consumerOn? name = some tag → ∃ former, tags = former ++ [tag] ∧ tag ∉ former
  whole : routed = (handed tags sent).map Delivery.message ++ b.waiting name
  ascending : Ascending (handed tags sent)
  counted : ∀ d ∈ handed tags sent, d.envelope.deliveryTag ≤ b.deliveries

namespace Flow

variable {sent : List Dispatch} {arrived : List Message} {tags : List String} {op : Operation}

theorem start (h : b.queues.get? name = none) (sent : List Dispatch) :
    Flow name b sent [] [] where
  numbered tag ht := absurd ht List.not_mem_nil
  own tag ht := absurd ht List.not_mem_nil
  current tag ht := by rw [consumerOn?, h] at ht; cases ht
  whole := by rw [waiting, h]; rfl
  ascending := .nil
  counted d hd := absurd hd List.not_mem_nil

/-- A subscription is made with the operation, or none is; either way the subscriptions after
it are the queue's own, and the consumer is the last of them. -/
theorem tags_concat (h : Flow name b sent arrived tags) (hl : b.Linked)
    (hl' : (b.perform op).broker.Linked) (hi : ∀ c ∈ op.channel?, b.Issued c)
    (htags : ∀ c n, b.issuedTags < n → b.subscriptions.get? (tagName c n) = none) :
    (∀ tag ∈ tags ++ subscription name b op,
      ∃ c n, tag = tagName c n ∧ n ≤ (b.perform op).broker.issuedTags) ∧
    (∀ tag ∈ tags ++ subscription name b op, ∀ s,
      (b.perform op).broker.subscriptions.get? tag = some s → s.queue = name) ∧
    ∀ tag, (b.perform op).broker.consumerOn? name = some tag →
      ∃ former, tags ++ subscription name b op = former ++ [tag] ∧ tag ∉ former := by
  have hle := issuedTags_le_perform b op
  have hnew : ∀ c, tagName c (b.issuedTags + 1) ∉ tags := by
    intro c hm
    obtain ⟨d, n, he, hn⟩ := h.numbered _ hm
    have := (tagName_inj.1 he).2
    omega
  -- What was the queue's own still is, for a tag is never given out again.
  have hown : ∀ tag ∈ tags, ∀ s, (b.perform op).broker.subscriptions.get? tag = some s →
      s.queue = name := by
    intro tag hm s hs
    cases perform_fate hl.serving hi htags tag with
    | absent _ h' => rw [hs] at h'; cases h'
    | made _ _ ht => exact absurd (ht ▸ hm) (hnew _)
    | goesOn _ h₀ h' => rw [hs] at h'; cases h'; exact h.own tag hm s h₀
    | shutDown _ h' => rw [hs] at h'; cases h'
    | cancelled _ h' => rw [hs] at h'; cases h'
  have hnum : ∀ tag ∈ tags, ∃ c n, tag = tagName c n ∧ n ≤ (b.perform op).broker.issuedTags := by
    intro tag hm
    obtain ⟨c, n, he, hn⟩ := h.numbered tag hm
    exact ⟨c, n, he, Nat.le_trans hn hle⟩
  rcases subscription_cases name b op with ⟨c, -, hsub, hissued, hs⟩ | ⟨hsub, hop⟩ <;> rw [hsub]
  · refine ⟨fun tag hm => ?_, fun tag hm s hs' => ?_, fun tag hc => ⟨tags, ?_, ?_⟩⟩
    · rcases List.mem_append.1 hm with hm | hm
      · exact hnum tag hm
      · exact ⟨c, _, List.mem_singleton.1 hm, Nat.le_of_eq hissued.symm⟩
    · rcases List.mem_append.1 hm with hm | hm
      · exact hown tag hm s hs'
      · rw [List.mem_singleton.1 hm, hs] at hs'; cases hs'
        rfl
    all_goals
      have he := hc.symm.trans (hl'.consumerOn?_iff.2 ⟨_, hs, rfl⟩)
      cases he
    · rfl
    · exact hnew c
  · rw [List.append_nil]
    exact ⟨hnum, hown, fun tag hc => h.current tag (consumerOn?_of_perform hl hl' hi htags hop hc)⟩

/-- **One more operation** on the queue that is there before it or after it. -/
theorem concat (h : Flow name b sent arrived tags) (hl : b.Linked) (hb : b.Bound)
    (hl' : (b.perform op).broker.Linked) (hi : ∀ c ∈ op.channel?, b.Issued c)
    (hnames : ∀ n, b.namedQueues < n → b.queues.get? (generatedName n) = none)
    (htags : ∀ c n, b.issuedTags < n → b.subscriptions.get? (tagName c n) = none)
    (hunused : ∀ c, deliveriesTo (tagName c (b.issuedTags + 1)) sent = [])
    (hs : ((b.perform op).broker.queues.get? name).isSome) :
    Flow name (b.perform op).broker (sent ++ (b.perform op).sent)
      (arrived ++ arrival name b op) (tags ++ subscription name b op) := by
  obtain ⟨hnum, hown, hcurrent⟩ := h.tags_concat hl hl' hi htags
  obtain ⟨out, hout⟩ := perform_handsOut hl hb hnames htags hs
  have hbefore : handed (tags ++ subscription name b op) sent = handed tags sent := by
    unfold handed
    rw [List.flatMap_append]
    rcases subscription_cases name b op with ⟨c, -, hsub, -⟩ | ⟨hsub, -⟩ <;> rw [hsub]
    · simp [hunused c]
    · simp
  -- Who is not the consumer after the operation is handed nothing.
  have hsilent : ∀ tag ∈ tags ++ subscription name b op,
      (b.perform op).broker.consumerOn? name ≠ some tag →
      deliveriesTo tag (b.perform op).sent = [] := by
    intro tag hm hne
    refine deliveriesTo_of_absent hl hi htags ?_
    cases hsub : (b.perform op).broker.subscriptions.get? tag with
    | none => rfl
    | some s => exact absurd (hl'.consumerOn?_iff.2 ⟨s, hsub, hown tag hm s hsub⟩) hne
  have hafter : handed (tags ++ subscription name b op) (sent ++ (b.perform op).sent) =
      handed tags sent ++ out := by
    rw [← hbefore]
    cases hc : (b.perform op).broker.consumerOn? name with
    | none =>
      rw [hout.unsent hc, List.append_nil]
      exact handed_of_silent fun tag hm => hsilent tag hm (by rw [hc]; exact nofun)
    | some tag =>
      obtain ⟨former, he, hnot⟩ := hcurrent tag hc
      rw [he] at hsilent ⊢
      rw [handed_of_last, hout.sent tag hc]
      intro tag' hm
      refine hsilent tag' (List.mem_append_left _ hm) fun he' => ?_
      rw [hc] at he'; cases he'
      exact hnot hm
  refine ⟨hnum, hown, hcurrent, ?_, ?_, ?_⟩
  · rw [hafter, List.map_append, List.append_assoc, ← hout.whole, ← List.append_assoc, ← h.whole]
  · rw [hafter]
    refine List.pairwise_append.2 ⟨h.ascending, hout.ascending, fun d hd d' hd' => ?_⟩
    exact Nat.lt_of_le_of_lt (h.counted d hd) (hout.fresh d' hd').1
  · rw [hafter]
    intro d hd
    rcases List.mem_append.1 hd with hd | hd
    · exact Nat.le_trans (h.counted d hd) hout.counted
    · exact (hout.fresh d hd).2

end Flow

/-- The operations `during` are a part of the life of a queue, from its declaration on: there
is none of its name after `before`, and then there is after every operation. No caller has
declared a name that the broker generates. -/
structure Lives (name : String) (before during : List Operation) : Prop where
  issued : OnIssued {} (before ++ during)
  undeclared : ∀ c n, .declareQueue c (generatedName n) ∉ before ++ during
  new : (run {} before).1.queues.get? name = none
  kept : Keeps name (run {} before).1 during

/-- What the successive subscriptions of the queue were handed, one after another. -/
def seen (name : String) (before during : List Operation) : List Delivery :=
  handed (subscribers name (run {} before).1 during) (run {} (before ++ during)).2

theorem run_flow {before during : List Operation} (h : Lives name before during) :
    Flow name (run {} (before ++ during)).1 (run {} (before ++ during)).2
      (routed name (run {} before).1 during) (subscribers name (run {} before).1 during) := by
  refine history_induct_after (P := fun during =>
    (∀ c n, .declareQueue c (generatedName n) ∉ before ++ during) →
    Keeps name (run {} before).1 during →
    Flow name (run {} (before ++ during)).1 (run {} (before ++ during)).2
      (routed name (run {} before).1 during) (subscribers name (run {} before).1 during))
    (fun _ _ => ?_) (fun past op hpast hop ih hnames hk => ?_) h.issued h.undeclared h.kept
  · rw [List.append_nil]
    exact .start h.new _
  obtain ⟨hkpast, hs⟩ := keeps_concat.1 hk
  rw [← List.append_assoc] at hnames
  have hp : ∀ c n, .declareQueue c (generatedName n) ∉ before ++ past := fun c n hm =>
    hnames c n (List.mem_append_left _ hm)
  have hnamed := run_named hpast
  have hnext : OnIssued {} (before ++ past ++ [op]) := onIssued_append.2 ⟨hpast, hop, trivial⟩
  have hl' := run_linked hnext hnames
  rw [run_concat] at hl'
  have hrun : (run (run {} before).1 past).1 = (run {} (before ++ past)).1 := by rw [run_append]
  rw [hrun] at hs
  have hunused : ∀ c, deliveriesTo (tagName c ((run {} (before ++ past)).1.issuedTags + 1))
      (run {} (before ++ past)).2 = [] := by
    intro c
    cases run_stream hpast (tagName c ((run {} (before ++ past)).1.issuedTags + 1)) with
    | unused _ he => rw [deliveriesTo, he]; rfl
    | used ht hn =>
      have := (tagName_inj.1 ht).2
      omega
  have hstep := (ih hp hkpast).concat (run_linked hpast hp) (run_bound hpast) hl' hop
    (fun n => hnamed.name_free hp) (fun c n => hnamed.tag_free c) hunused hs
  rw [← List.append_assoc, run_concat, sent_concat, routed, subscribers, gather_concat,
    gather_concat, hrun]
  exact hstep

/-- **Once and in order.** At every point of the life of a queue, the messages routed to it, in
publish order, are the messages that its successive subscriptions were handed, in the order
in which these were made, followed by its backlog; and the delivery numbers increase along
all that was handed. When consumers come and go makes no difference: another life with the
same operations, up to those that make and cancel subscriptions, hands out and keeps back
the same messages in the same order. -/
theorem run_exactly_once {before during : List Operation} (h : Lives name before during) :
    routed name (run {} before).1 during =
        (seen name before during).map Delivery.message ++
          (run {} (before ++ during)).1.waiting name ∧
      Ascending (seen name before during) ∧
      ∀ other, Lives name before other → unsubscribed other = unsubscribed during →
        (seen name before other).map Delivery.message ++
            (run {} (before ++ other)).1.waiting name =
          (seen name before during).map Delivery.message ++
            (run {} (before ++ during)).1.waiting name := by
  have hflow := run_flow h
  refine ⟨hflow.whole, hflow.ascending, fun other h' he => ?_⟩
  have hother := (run_agrees h'.issued h'.undeclared h'.kept).2.2
  have hsame := (run_agrees h.issued h.undeclared h.kept).2.2
  calc (seen name before other).map Delivery.message ++
          (run {} (before ++ other)).1.waiting name
      = routed name (run {} before).1 other := (run_flow h').whole.symm
    _ = routed name (run {} before).1 during := by rw [← hother, he, hsame]
    _ = (seen name before during).map Delivery.message ++
          (run {} (before ++ during)).1.waiting name := hflow.whole

/-- A publication for the queue `mail`. -/
def letter (n : UInt8) : Operation := .publish 2 { routingKey := "mail", body := [n] }

/-- Two subscriptions, one after the other, with messages before, between and after them. -/
def twoReaders : List Operation :=
  [.declareQueue 1 "mail", letter 1, .consume 1 "mail", letter 2, .cancel 1 "ctag-1.1", letter 3,
    .consume 2 "mail", letter 4, .cancel 2 "ctag-2.2", letter 5]

/-- The same messages with one late subscription. -/
def lateReader : List Operation :=
  [.declareQueue 1 "mail", letter 1, letter 2, letter 3, letter 4, letter 5, .consume 2 "mail"]

theorem run_exactly_once_readers :
    Lives "mail" [.openChannel, .openChannel] twoReaders ∧
      Lives "mail" [.openChannel, .openChannel] lateReader ∧
      (seen "mail" [.openChannel, .openChannel] lateReader).map (·.body) =
        [[1], [2], [3], [4], [5]] ∧
      (seen "mail" [.openChannel, .openChannel] twoReaders).map (·.body) =
        [[1], [2], [3], [4]] ∧
      (run {} ([.openChannel, .openChannel] ++ twoReaders)).1.waiting "mail" =
        [{ routingKey := "mail", body := [5] }] ∧
      (seen "mail" [.openChannel, .openChannel] lateReader).map Delivery.message =
        (seen "mail" [.openChannel, .openChannel] twoReaders).map Delivery.message ++
          [{ routingKey := "mail", body := [5] }] := by
  have hnames : ∀ c n, Operation.declareQueue c (generatedName n) ≠ .declareQueue 1 "mail" :=
    fun c n he => generatedName_ne (by decide) (Operation.declareQueue.inj he).2.symm
  have htwo : Lives "mail" [.openChannel, .openChannel] twoReaders :=
    ⟨by decide, fun c n hm => by simp [twoReaders, letter, hnames] at hm, by decide, by decide⟩
  have hlate : Lives "mail" [.openChannel, .openChannel] lateReader :=
    ⟨by decide, fun c n hm => by simp [lateReader, letter, hnames] at hm, by decide, by decide⟩
  have hwaiting : (run {} ([.openChannel, .openChannel] ++ twoReaders)).1.waiting "mail" =
      [{ routingKey := "mail", body := [5] }] := by decide
  refine ⟨htwo, hlate, by decide, by decide, hwaiting, ?_⟩
  have hsame := (run_exactly_once htwo).2.2 lateReader hlate (by decide)
  have hnone : (run {} ([.openChannel, .openChannel] ++ lateReader)).1.waiting "mail" = [] := by
    decide
  rwa [hwaiting, hnone, List.append_nil] at hsame

end BrokeredRpc.Broker
