import BrokeredRpc.Proofs.Network.Hearing
import BrokeredRpc.Proofs.Network.Storms

/-!
# Every request of a batch is answered, once and to its own caller

A batcher holds requests back until there are enough of them, and then answers them in an
order of its choosing. What it has released and what it still holds back after any number of
requests depends on their number alone, in whole chunks (`Batcher.hold_after`), and so it does
on a network, whatever else happens there in between (`Sound.batches`). A reply that is
published reaches the client that listens on the queue (`publishAll_reaches`), and is
handed over there (`Sound.handover`). A client listens until it is told of the end
(`System.Reachable.listened`).

* `System.Reachable.batcher_answers`: which requests are answered, in which order, and what
  the calls behind them return.
-/
namespace BrokeredRpc

/-! ## Chunks -/

/-- The consecutive chunks of `k` entries each; what is left over at the end makes none. -/
def chunks {α : Type} (k : Nat) (l : List α) : List (List α) :=
  (List.range (l.length / k)).map fun i => (l.drop (k * i)).take k

section Chunks

variable {α : Type} {k : Nat} {l : List α}

theorem flatten_chunks (k : Nat) (l : List α) :
    (chunks k l).flatten = l.take (k * (l.length / k)) := by
  have hfirst : ∀ m, ((List.range m).map fun i => (l.drop (k * i)).take k).flatten =
      l.take (k * m) := by
    intro m
    induction m with
    | zero => rw [Nat.mul_zero]; rfl
    | succ m ih =>
      rw [List.range_succ, List.map_append, List.flatten_append, ih, Nat.mul_succ, List.take_add]
      exact congrArg _ (List.append_nil _)
  exact hfirst _

theorem chunk_concat {i : Nat} (hi : i < l.length / k) (x : α) :
    ((l ++ [x]).drop (k * i)).take k = (l.drop (k * i)).take k := by
  have hle : k * i + k ≤ l.length := by
    rw [← Nat.mul_succ]
    exact Nat.le_trans (Nat.mul_le_mul_left k hi) (Nat.mul_div_le _ _)
  rw [List.drop_append_of_le_length (by omega), List.take_append_of_le_length]
  rw [List.length_drop]
  omega

theorem chunks_concat_of_lt (h : l.length % k + 1 < k) (x : α) :
    (l ++ [x]).length / k = l.length / k ∧ chunks k (l ++ [x]) = chunks k l ∧
      (l ++ [x]).drop (k * (l.length / k)) = l.drop (k * (l.length / k)) ++ [x] := by
  have hlength : (l ++ [x]).length / k = l.length / k := by
    rw [List.length_append, List.length_singleton]
    have hsum := Nat.div_add_mod l.length k
    refine Nat.div_eq_of_lt_le ?_ ?_ <;> rw [Nat.mul_comm]
    · omega
    · rw [Nat.mul_succ]
      omega
  refine ⟨hlength, ?_, List.drop_append_of_le_length (Nat.mul_div_le _ _)⟩
  rw [chunks, hlength]
  exact List.map_congr_left fun i hi => chunk_concat (List.mem_range.1 hi) x

theorem chunks_concat_of_eq (h : l.length % k + 1 = k) (x : α) :
    (l ++ [x]).length / k = l.length / k + 1 ∧
      chunks k (l ++ [x]) = chunks k l ++ [l.drop (k * (l.length / k)) ++ [x]] ∧
      (l ++ [x]).drop (k * (l.length / k + 1)) = [] := by
  have hsum := Nat.div_add_mod l.length k
  have hfull : (l ++ [x]).length = k * (l.length / k + 1) := by
    rw [List.length_append, List.length_singleton, Nat.mul_succ]
    omega
  have hlength : (l ++ [x]).length / k = l.length / k + 1 := by
    rw [hfull, Nat.mul_div_cancel_left _ (by omega)]
  refine ⟨hlength, ?_, List.drop_eq_nil_of_le (Nat.le_of_eq hfull)⟩
  rw [chunks, hlength, List.range_succ, List.map_append]
  refine congrArg₂ (· ++ ·) (List.map_congr_left fun i hi =>
    chunk_concat (List.mem_range.1 hi) x) (congrArg (fun c => [c]) ?_)
  dsimp only
  rw [List.drop_append_of_le_length (Nat.mul_div_le _ _)]
  refine List.take_of_length_le (Nat.le_of_eq ?_)
  rw [List.length_append, List.length_drop, List.length_singleton]
  omega

end Chunks

/-! ## A batcher by itself -/

namespace Batcher

/-- How many requests make a batch. -/
def least (b : Batcher) : Nat := max 1 b.size

/-- What an empty batcher holds back once these requests have come. -/
def after (b : Batcher) (rs : List Request) : Batcher :=
  { b with held := .ofList (rs.drop (b.least * (rs.length / b.least))) }

/-- What an empty batcher has released once these requests have come. -/
def releasedBy (b : Batcher) (rs : List Request) : List Request :=
  (chunks b.least rs).flatMap b.release

variable {b : Batcher}

theorem after_nil (hb : b.held = ∅) : b.after [] = b := by
  rw [after, List.drop_nil, ← Log.ext_toList (hb ▸ rfl : b.held.toList = (Log.ofList []).toList)]

/-- **One request.** -/
theorem hold_after (b : Batcher) (rs : List Request) (r : Request) :
    ∃ released, (b.after rs).hold r = (b.after (rs ++ [r]), released) ∧
      b.releasedBy (rs ++ [r]) = b.releasedBy rs ++ released := by
  have hpos : 0 < b.least := Nat.le_max_left ..
  have hmod := Nat.mod_lt rs.length hpos
  have hsum := Nat.div_add_mod rs.length b.least
  have hsize : ((b.after rs).held.push r).size = rs.length % b.least + 1 := by
    show (Log.ofList _).size + 1 = _
    rw [← Log.length_toList, Log.toList_ofList, List.length_drop]
    omega
  have hheld : ((b.after rs).held.push r).toList =
      rs.drop (b.least * (rs.length / b.least)) ++ [r] := by
    rw [Log.toList_push]
    exact congrArg (· ++ [r]) (Log.toList_ofList _)
  by_cases hlt : rs.length % b.least + 1 < b.least
  · obtain ⟨hlength, hchunks, hdrop⟩ := chunks_concat_of_lt hlt r
    refine ⟨[], ?_, by rw [releasedBy, hchunks, List.append_nil]; rfl⟩
    have hless : ((b.after rs).held.push r).size < (b.after rs).size := by
      rw [hsize]
      show _ < b.size
      rw [least] at hlt ⊢
      omega
    have hafter : b.after (rs ++ [r]) = { b with held := (b.after rs).held.push r } := by
      rw [after, hlength, hdrop]
      refine congrArg (fun held => ({ b with held } : Batcher)) (Log.ext_toList ?_)
      rw [hheld, Log.toList_ofList]
    rw [hold, if_pos hless, hafter]
    rfl
  · obtain ⟨hlength, hchunks, hdrop⟩ := chunks_concat_of_eq (l := rs) (k := b.least) (by omega) r
    refine ⟨b.release (rs.drop (b.least * (rs.length / b.least)) ++ [r]), ?_, ?_⟩
    · have hfull : ¬((b.after rs).held.push r).size < (b.after rs).size := by
        rw [hsize]
        show ¬_ < b.size
        rw [least] at hlt ⊢
        omega
      have hafter : b.after (rs ++ [r]) = { b with held := ∅ } := by
        rw [after, hlength, hdrop]
        rfl
      rw [hold, if_neg hfull, hheld, hafter]
      rfl
    · rw [releasedBy, hchunks, List.flatMap_append, List.flatMap_singleton]
      rfl

/-- What is released is what has come, as far as there are batches. -/
theorem releasedBy_perm (hp : ∀ batch, (b.release batch).Perm batch) (rs : List Request) :
    (b.releasedBy rs).Perm (rs.take (b.least * (rs.length / b.least))) := by
  rw [← flatten_chunks, releasedBy, ← List.flatMap_id']
  exact List.Perm.flatMap_left _ fun chunk _ => hp chunk

/-- A request is answered with its own body, under its own id and to the address that it names;
one that lacks either is skipped. -/
theorem answer?_eq (r : Request) : answer? r =
    match r.properties.replyTo, r.properties.correlationId with
    | some queue, some id =>
      some { routingKey := queue, properties := { correlationId := some id }, body := r.body }
    | _, _ => none := by
  rw [answer?, replyTo?, replyTo]
  cases r.properties.replyTo <;> cases r.properties.correlationId <;> rfl

end Batcher

/-! ## A batcher on a network -/

theorem Broker.consumerOn?_congr {b b' : Broker} (h : b'.outline = b.outline) (name : String) :
    b'.consumerOn? name = b.consumerOn? name := by
  have hq := congrArg (fun o : Broker => (o.queues.get? name).bind Queue.consumer) h
  simp only [get?_queues_outline, Option.bind_map] at hq
  exact hq

namespace Network

variable {s : System} {n : Network} {tag : String} {channel : Nat} {b : Batcher}
  {rs : List Request}

/-- What `f` says of a subscription whenever its next event is handled. -/
def during {α : Type} (tag : String) (f : Network → String → List α) (s : System)
    (label : Label) : List α :=
  if label.handles tag then f s.network tag else []

/-- The request that the next event of a subscription brings, if it brings one. -/
def arriving (n : Network) (tag : String) : List Request := requests (n.taken (.handle tag))

/-- The requests that a batcher releases when the next event of its subscription is handled. -/
def released (n : Network) (tag : String) : List Request :=
  match nextFor? tag n.transit, n.consumers.get? tag with
  | some (.delivery d, _), some { role := .batcher b, .. } => (b.hold d.request).2
  | _, _ => []

/-- **One event** of a batcher's subscription. -/
theorem batch_handleNext
    (hk : n.consumers.get? tag = some { channel, role := .batcher (b.after rs) }) :
    (n.handleNext tag).consumers.get? tag =
        some { channel, role := .batcher (b.after (rs ++ n.arriving tag)) } ∧
      b.releasedBy (rs ++ n.arriving tag) = b.releasedBy rs ++ n.released tag ∧
      n.published tag =
        ((n.released tag).filterMap Batcher.answer?).map (.publish channel) := by
  cases hnext : nextFor? tag n.transit with
  | none =>
    have harriving : n.arriving tag = [] := by rw [arriving, taken, hnext]; rfl
    have hreleased : n.released tag = [] := by rw [released, hnext]
    obtain ⟨hsame, hpublished⟩ := handleNext_of_none hnext
    rw [hsame, harriving, hreleased, hpublished, List.append_nil, List.append_nil]
    exact ⟨hk, rfl, rfl⟩
  | some next =>
    obtain ⟨event, others⟩ := next
    have harriving : n.arriving tag = event.requests := by
      rw [arriving, taken, hnext]
      exact List.append_nil _
    have hpublished : n.published tag =
        ((Role.batcher (b.after rs)).receive event).2.map (.publish channel) := by
      rw [published, hnext]
      exact (handle_of_role hk rfl event).2
    rw [get?_consumers_handleNext hnext, if_pos rfl, hk, harriving, hpublished]
    cases event with
    | delivery d =>
      obtain ⟨out, hhold, hout⟩ := b.hold_after rs d.request
      have hreleased : n.released tag = out := by
        simp only [released, hnext, hk, hhold]
      have hreceive : (Role.batcher (b.after rs)).receive (.delivery d) =
          (.batcher (b.after (rs ++ [d.request])), out.filterMap Batcher.answer?) := by
        rw [Role.receive, Batcher.handle, hhold]
      rw [hreleased, hreceive, Option.map_some, hreceive]
      exact ⟨rfl, hout, rfl⟩
    | _ =>
      have hreleased : n.released tag = [] := by simp only [released, hnext]
      have hnone : rs ++ [] = rs := List.append_nil rs
      rw [hreleased, List.append_nil]
      exact ⟨congrArg (fun rs => some (Consumer.mk channel (.batcher (b.after rs)))) hnone.symm,
        congrArg b.releasedBy hnone, rfl⟩

/-- **Any steps** of anybody: what the batcher holds back, releases and publishes depends on the
requests that come to it. -/
theorem Sound.batches (labels : List Label) : ∀ {s : System} {rs : List Request}, Sound s →
    s.network.consumers.get? tag = some { channel, role := .batcher (b.after rs) } →
    (s.run labels).network.consumers.get? tag =
        some {
          channel
          role := .batcher (b.after (rs ++ along System.step (during tag arriving) s labels)) } ∧
      b.releasedBy (rs ++ along System.step (during tag arriving) s labels) =
        b.releasedBy rs ++ along System.step (during tag released) s labels ∧
      along System.step (during tag published) s labels =
        ((along System.step (during tag released) s labels).filterMap Batcher.answer?).map
          (.publish channel) := by
  induction labels with
  | nil =>
    intro s rs _ hk
    simp only [along, List.append_nil]
    exact ⟨hk, trivial, rfl⟩
  | cons label rest ih =>
    intro s rs h hk
    have hfirst : (s.step label).network.consumers.get? tag = 
          some { channel, role := .batcher (b.after (rs ++ during tag arriving s label)) } ∧
        b.releasedBy (rs ++ during tag arriving s label) =
          b.releasedBy rs ++ during tag released s label ∧
        during tag published s label =
          ((during tag released s label).filterMap Batcher.answer?).map (.publish channel) := by
      cases hl : label.handles tag with
      | false =>
        simp only [during, hl, Bool.false_eq_true, if_false, List.append_nil]
        exact ⟨h.consumer_step hk hl, trivial, rfl⟩
      | true =>
        simp only [during, hl, if_true]
        cases label with
        | handle t =>
          obtain rfl : t = tag := by simpa [Label.handles] using hl
          exact batch_handleNext hk
        | _ => cases hl
    obtain ⟨hk', hreleased, hpublished⟩ := hfirst
    obtain ⟨hend, hlater, hafter⟩ := ih (h.step label) hk'
    rw [List.append_assoc] at hend hlater
    refine ⟨hend, ?_, ?_⟩
    · rw [along, hlater, hreleased, along, List.append_assoc]
    · rw [along, along, hafter, hpublished, List.filterMap_append, List.map_append]

/-! ## Replies on their way -/

theorem publishAll_reaches {m : Message} (hx : m.exchange = Broker.defaultExchange)
    (messages : List Message) : ∀ {n : Network}, m ∈ messages →
    n.broker.isOpen channel = true → n.broker.consumerOn? m.routingKey = some tag →
    (n.broker.subscriptions.get? tag).isSome →
    ∃ number, ⟨tag, .delivery (m.deliver number)⟩ ∈ (n.publishAll channel messages).transit := by
  induction messages with
  | nil => exact fun hm => absurd hm List.not_mem_nil
  | cons first rest ih =>
    intro n hm ho hc hs
    have houtline := Broker.outline_publish n.broker channel first
    by_cases hlater : m ∈ rest
    · refine ih (n := (n.absorb (n.broker.publish channel first)).2) hlater ?_ ?_ ?_
      · exact (Broker.isOpen_congr (congrArg Broker.channels houtline) channel).trans ho
      · exact (Broker.consumerOn?_congr houtline m.routingKey).trans hc
      · have hsubs := congrArg Broker.subscriptions houtline
        exact (congrArg (fun t : Table Subscription => (t.get? tag).isSome) hsubs).trans hs
    · obtain rfl := (List.mem_cons.1 hm).resolve_right hlater
      have hqueue : (n.broker.queues.get? m.routingKey).isSome := by
        obtain ⟨q, hq, -⟩ := Option.bind_eq_some_iff.1 hc
        rw [hq]; rfl
      have hroute : n.broker.route? m.exchange m.routingKey = some [m.routingKey] := by
        rw [hx]
        exact Broker.route?_default hqueue
      have hpublish := Broker.publish_alone ho hroute hc hs
      refine ⟨n.broker.deliveries + 1, ?_⟩
      show _ ∈ ((n.absorb (n.broker.publish channel m)).2.publishAll channel rest).transit
      rw [publishAll_eq_run]
      refine List.mem_append_left _ ?_
      show _ ∈ n.transit ++ (n.broker.publish channel m).sent
      rw [hpublish]
      exact List.mem_append_right _ List.mem_cons_self

/-- A batcher's replies are sent when it releases the requests. -/
theorem released_reaches (hk : n.consumers.get? tag = some { channel, role := .batcher b })
    (ho : n.broker.isOpen channel = true) {r : Request} (hr : r ∈ n.released tag)
    {m : Message} (hm : Batcher.answer? r = some m) (hx : m.exchange = Broker.defaultExchange)
    {listener : String} (hc : n.broker.consumerOn? m.routingKey = some listener)
    (hs : (n.broker.subscriptions.get? listener).isSome) :
    (∃ number, ⟨listener, .delivery (m.deliver number)⟩ ∈ (n.handleNext tag).transit) ∧
      (n.handleNext tag).endpoints = n.endpoints := by
  unfold released at hr
  split at hr
  · next d others channel' b' hnext hk' =>
    rw [hk] at hk'; cases hk'
    have hstep : n.handleNext tag =
        ({ n with transit := others } : Network).handle tag (.delivery d) := by
      rw [handleNext, hnext]
    rw [hstep, (handle_of_role (n := { n with transit := others }) hk rfl _).1]
    refine ⟨publishAll_reaches hx _ ?_ ho hc hs, by rw [publishAll_eq_run]⟩
    exact List.mem_filterMap.2 ⟨r, hr, hm⟩
  · exact absurd hr List.not_mem_nil

/-- The call waits whenever its reply is in transit. -/
def WaitsFor (s : System) (later : List Label) (index : Nat) (id tag : String) (d : Delivery) :
    Prop :=
  ∀ earlier, earlier <+: later → .delivery d ∈ eventsTo tag (s.run earlier).network.transit →
    (s.run earlier).network.Waits index id

/-- The reply `d` is on its way to a call. Whatever is done from there on, and by whomever, if
only the call goes on waiting for it, the reply is what the call returns once it has been handed
over; and it has been handed over after as many events of the subscription as are in transit
now. -/
structure Delivers (s : System) (index : Nat) (id tag : String) (d : Delivery) : Prop where
  sent : .delivery d ∈ eventsTo tag s.network.transit
  anyOrder : ∀ later, WaitsFor s later index id tag d →
    (s.run later).network.Waits index id ∧
        .delivery d ∈ eventsTo tag (s.run later).network.transit ∨
      (s.run later).network.Returns index id (.ok d.body)
  atLast : ∀ later, WaitsFor s later index id tag d →
    (eventsTo tag s.network.transit).length ≤ later.countP (Label.handles tag) →
    (s.run later).network.Returns index id (.ok d.body)

theorem Sound.delivers (h : Sound s) {index : Nat} {id : String} {d : Delivery}
    (hk : s.network.consumers.get? tag = some { channel, role := .replies index })
    (hw : s.network.Waits index id) (hd : d.properties = { correlationId := some id })
    (hsent : .delivery d ∈ eventsTo tag s.network.transit) : Delivers s index id tag d := by
  obtain ⟨before, after, htransit⟩ := List.append_of_mem hsent
  have hid : d.properties.correlationId = some id := by rw [hd]
  have hresult : (Outcome.ofReply d.properties d.body).toResult = .ok d.body := by rw [hd]; rfl
  have hfate : ∀ later, WaitsFor s later index id tag d →
      (∃ left, (s.run later).network.Expects index id tag d left ∧
        left + later.countP (Label.handles tag) = before.length) ∨
      (s.run later).network.Returns index id (.ok d.body) := by
    intro later hp
    rcases h.handover later ⟨hw, before, after, htransit, rfl⟩ hk hid
      with hwaits | ⟨earlier, hprefix, hnot, hm⟩ | hfills
    · exact Or.inl hwaits
    · exact absurd (hp earlier hprefix hm) hnot
    · exact Or.inr (hresult ▸ hfills.returns)
  refine ⟨hsent, fun later hp => (hfate later hp).imp_left fun ⟨_, he, _⟩ => ⟨he.waits, he.mem⟩,
    fun later hp hle => (hfate later hp).resolve_left fun ⟨left, _, hleft⟩ => ?_⟩
  rw [htransit, List.length_append, List.length_cons] at hle
  omega

/-- **Batches.** A batcher sits on a subscription of a reachable system and holds nothing back;
what it releases is what it is given, in some order. From there on anything may happen. Let `k`
be the size of its batches, or one if that is none.

* Once requests `rs` have come, in this order and from whomever, whole chunks of `k` of them have
  been released, one after another and each in the order of its release, and the others are held
  back as they have come. What is published are the answers to those released.
* A request that names a queue and has an id is answered to that queue, under that id and with
  its own body, and any other request is skipped.
* If a call is released on an open channel, and it waits while its client listens on the queue
  that the request names, then the answer is on its way to the call and delivers the body of the
  request.
* Unless somebody has declared a queue under a name of the broker's own making, a client listens
  on its reply queue as long as a call waits, or the end of its subscription is on its way. -/
theorem System.Reachable.batcher_answers {s : System} (h : s.Reachable) {station : Station}
    {b : Batcher}
    (hb : s.network.consumers.get? station.tag =
      some { channel := station.channel, role := .batcher b })
    (hempty : b.held = ∅) (hperm : ∀ batch, (b.release batch).Perm batch)
    {k : Nat} (hk : k = max 1 b.size) :
    (∀ labels rs, rs = along System.step (during station.tag arriving) s labels →
      (s.run labels).network.consumers.get? station.tag =
          some {
            channel := station.channel
            role := .batcher { b with held := .ofList (rs.drop (k * (rs.length / k))) } } ∧
        along System.step (during station.tag released) s labels =
          (chunks k rs).flatMap b.release ∧
        (chunks k rs).flatten = rs.take (k * (rs.length / k)) ∧
        ((chunks k rs).flatMap b.release).Perm (rs.take (k * (rs.length / k))) ∧
        along System.step (during station.tag published) s labels =
          (((chunks k rs).flatMap b.release).filterMap Batcher.answer?).map
            (.publish station.channel)) ∧
      (∀ r, Batcher.answer? r = match r.properties.replyTo, r.properties.correlationId with
        | some queue, some id =>
          some { routingKey := queue, properties := { correlationId := some id }, body := r.body }
        | _, _ => none) ∧
      (∀ labels s', s' = s.run labels → s'.network.broker.isOpen station.channel = true →
        ∀ r ∈ s'.network.released station.tag, ∀ queue id, r.properties.replyTo = some queue →
          r.properties.correlationId = some id →
          ∀ index e tag, s'.network.endpoints[index]? = some e →
            e.client.lifecycle = .opened queue tag →
            s'.network.broker.consumerOn? queue = some tag → s'.network.Waits index id →
            ∃ d, d.properties = { correlationId := some id } ∧ d.body = r.body ∧
              Delivers (s'.step (.handle station.tag)) index id tag d) ∧
      ∀ labels s', s' = s.run labels →
        (∀ c number, .declareQueue c (Broker.generatedName number) ∉ s'.asked) →
          ∀ index e queue tag id, s'.network.endpoints[index]? = some e →
            e.client.lifecycle = .opened queue tag → s'.network.Waits index id →
            s'.network.broker.consumerOn? queue = some tag ∨
              ∃ last, last.isTerminal = true ∧ last ∈ eventsTo tag s'.network.transit := by
  subst hk
  have hb' : s.network.consumers.get? station.tag =
      some { channel := station.channel, role := .batcher (b.after []) } := by
    rw [Batcher.after_nil hempty]
    exact hb
  have hnone : b.releasedBy [] = [] := by
    rw [Batcher.releasedBy, chunks, List.length_nil, Nat.zero_div]
    rfl
  refine ⟨?_, Batcher.answer?_eq, ?_, ?_⟩
  · rintro labels rs rfl
    obtain ⟨hconsumer, hreleased, hpublished⟩ := h.sound.batches labels hb'
    rw [hnone, List.nil_append, List.nil_append] at hreleased
    refine ⟨hconsumer, hreleased.symm, flatten_chunks _ _, Batcher.releasedBy_perm hperm _, ?_⟩
    rw [hpublished, ← hreleased]
    rfl
  · rintro labels s' rfl hopen r hr queue id hqueue hid index e tag he hl hlive hw
    have hsound := h.sound.run labels
    obtain ⟨hconsumer, -, -⟩ := h.sound.batches labels hb'
    obtain ⟨hsub, hlistens⟩ := (hsound.peopled.attached index e he).subscribed queue tag hl
    obtain ⟨hsubscribed, -, -⟩ := hsound.live hsub hlive
    have hanswer : Batcher.answer? r = some
        { routingKey := queue, properties := { correlationId := some id }, body := r.body } := by
      rw [Batcher.answer?_eq, hqueue, hid]
    obtain ⟨⟨number, hsent⟩, hends⟩ := released_reaches hconsumer hopen hr hanswer rfl hlive
      (Option.isSome_of_eq_some hsubscribed)
    refine ⟨_, rfl, rfl, (hsound.step (.handle station.tag)).delivers
      (hsound.listens_step hlistens (.handle station.tag)) ?_ rfl (mem_eventsTo.2 hsent)⟩
    obtain ⟨e', he', hp, hv⟩ := hw
    refine ⟨e', ?_, hp, hv⟩
    show (((s.run labels).network.handleNext station.tag).endpoints)[index]? = some e'
    rw [hends]
    exact he'
  · rintro labels s' rfl hnames index e queue tag id he hl hw
    exact (h.run labels).listened hnames he hl hw

/-- A batcher that answers two requests at a time, the later one first, and two open clients. -/
def backwards : System := .run {}
  [.operate .openChannel, .operate .openChannel, .operate .openChannel,
    .operate (.declareQueue 3 "work"),
    .subscribe 3 "work" (.batcher { size := 2, release := ReleaseOrder.reverse.arrange }),
    .connect .infinite 1, .connect .infinite 2, .start 0 .opening, .exchange 0, .exchange 0,
    .start 1 .opening, .exchange 1, .exchange 1]

/-- Each client calls, and the first request is held back. -/
def twoCalls : List Label :=
  [.start 0 (.calling { routingKey := "work", body := [1] }), .exchange 0,
    .start 1 (.calling { routingKey := "work", body := [2] }), .exchange 1, .handle "ctag-3.1"]

/-- Two calls with the same id are answered backwards, each to its own caller. -/
theorem batcher_answers_backwards :
    along System.step (during "ctag-3.1" published) backwards (twoCalls ++ [.handle "ctag-3.1"]) =
        [.publish 3 {
            routingKey := "amq.gen-2", properties := { correlationId := some "1" }, body := [2] },
          .publish 3 {
            routingKey := "amq.gen-1", properties := { correlationId := some "1" },
            body := [1] }] ∧
      (((backwards.run twoCalls).step (.handle "ctag-3.1")).run
        [.handle "ctag-1.2", .handle "ctag-2.3"]).network.Returns 0 "1" (.ok [1]) := by
  have hreachable : backwards.Reachable := ⟨_, rfl⟩
  have hbatcher : backwards.network.consumers.get? (Station.mk 3 "ctag-3.1").tag =
      some { channel := 3, role := .batcher { size := 2, release := ReleaseOrder.reverse.arrange } } := rfl
  obtain ⟨hbatches, -, hcalls, -⟩ :=
    hreachable.batcher_answers hbatcher rfl ReleaseOrder.reverse.arrange_perm rfl
  obtain ⟨-, -, -, -, hpublished⟩ := hbatches (twoCalls ++ [.handle "ctag-3.1"]) _ rfl
  refine ⟨hpublished, ?_⟩
  have hreleased : (backwards.run twoCalls).network.released "ctag-3.1" =
      [⟨{ correlationId := some "1", replyTo := some "amq.gen-2" }, [2]⟩,
        ⟨{ correlationId := some "1", replyTo := some "amq.gen-1" }, [1]⟩] := rfl
  obtain ⟨d, -, hbody, hdelivers⟩ := hcalls twoCalls _ rfl rfl
    ⟨{ correlationId := some "1", replyTo := some "amq.gen-1" }, [1]⟩
    (hreleased ▸ List.mem_cons_of_mem _ List.mem_cons_self) "amq.gen-1" "1" rfl rfl 0 _ "ctag-1.2"
    rfl rfl rfl ⟨_, rfl, rfl, rfl⟩
  rw [show [1] = d.body from hbody.symm]
  refine hdelivers.atLast _ (fun earlier hprefix hm => ?_) (Nat.le_of_eq rfl)
  rcases List.prefix_cons_iff.1 hprefix with rfl | ⟨rest, rfl, hrest⟩
  · exact ⟨_, rfl, rfl, rfl⟩
  -- The reply is handed over with the first event.
  rcases List.prefix_cons_iff.1 hrest with rfl | ⟨last, rfl, hlast⟩
  · exact absurd hm List.not_mem_nil
  · obtain rfl := List.prefix_nil.1 hlast
    exact absurd hm List.not_mem_nil

end Network

end BrokeredRpc
