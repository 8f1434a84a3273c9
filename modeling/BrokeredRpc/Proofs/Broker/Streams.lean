import BrokeredRpc.Proofs.Broker.Fates

/-!
# Streams of events

Every subscription has a stream: the events sent to it, in order. As long as the
subscription is in the broker's table these are deliveries; the operation that
takes it out sends one last event after them, which tells why.

* `run_stream`: after every history a tag is unused, or belongs to one
  subscription with such a stream;
* `run_last_event`: which last event it is, and why.
-/
namespace BrokeredRpc.Broker

/-! ## Histories of subscriptions -/

theorem run_serving {ops : List Operation} (hi : OnIssued {} ops) : (run {} ops).1.Serving := by
  refine history_induct (P := fun ops => (run {} ops).1.Serving) .empty
    (fun past op hpast _ h => ?_) hi
  rw [run_concat]
  exact serving_perform h op fun c n => (run_named hpast).tag_free c

theorem run_held {ops : List Operation} (hi : OnIssued {} ops) : (run {} ops).1.Held :=
  run_induct (P := fun _ b => b.Held) (fun _ _ _ h hi => held_perform h hi) ops [] {} .empty hi

theorem closedBy?_run {d : Nat} {cause : Shutdown} (ops : List Operation) :
    ∀ {b : Broker}, b.OnIssued ops → b.closedBy? d = some cause →
      (b.run ops).1.closedBy? d = some cause := by
  induction ops with
  | nil => exact fun _ h => h
  | cons op rest ih => exact fun hi h => ih hi.2 (closedBy?_perform hi.1 h)

theorem issued_run {d : Nat} (ops : List Operation) :
    ∀ {b : Broker}, b.Issued d → (b.run ops).1.Issued d := by
  induction ops with
  | nil => exact fun h => h
  | cons op rest ih => exact fun h => ih (issued_perform h)

/-- The subscription has been made in the history, under this tag. -/
def Subscribed (ops : List Operation) (tag : String) (s : Subscription) : Prop :=
  Happened ops fun b op =>
    op = .consume s.channel s.queue ∧ (b.perform op).answer = .ok (.name tag)

/-- The subscription has ended in the history, and `last` is what its consumer was told. -/
def EndedBy (ops : List Operation) (tag : String) (s : Subscription) (last : Event) : Prop :=
  Happened ops fun b op => Ends b op tag s last

/-- The stream of a subscription: deliveries as long as it goes on, and after it is over one
last event behind them. -/
inductive Stream (ops : List Operation) (tag : String) (s : Subscription) : Prop
  | goesOn (deliveries : List Delivery)
      (he : eventsTo tag (run {} ops).2 = deliveries.map .delivery)
      (hs : (run {} ops).1.subscriptions.get? tag = some s) (hn : ∀ e, ¬EndedBy ops tag s e)
  | ended (deliveries : List Delivery) (last : Event)
      (he : eventsTo tag (run {} ops).2 = deliveries.map .delivery ++ [last])
      (hs : (run {} ops).1.subscriptions.get? tag = none) (hl : ∀ e, EndedBy ops tag s e ↔ e = last)

/-- What the operations so far mean to a tag: it is unused, or it has been given out, and to
one subscription. -/
inductive Use (ops : List Operation) (tag : String) : Prop
  | unused (hs : (run {} ops).1.subscriptions.get? tag = none)
      (he : eventsTo tag (run {} ops).2 = [])
      (hn : ∀ s, ¬Subscribed ops tag s ∧ ∀ e, ¬EndedBy ops tag s e)
  | used {n : Nat} {s : Subscription} (ht : tag = tagName s.channel n)
      (hn : n ≤ (run {} ops).1.issuedTags) (hs : ∀ s', Subscribed ops tag s' ↔ s' = s)
      (hst : Stream ops tag s)

theorem Stream.concat {past : List Operation} {op : Operation} {n : Nat} {tag : String}
    {s : Subscription} (h : Stream past tag s) (hpast : OnIssued {} past)
    (hi : ∀ c ∈ op.channel?, (run {} past).1.Issued c) (ht : tag = tagName s.channel n)
    (hn : n ≤ (run {} past).1.issuedTags) : Stream (past ++ [op]) tag s := by
  have hnamed := run_named hpast
  have hfate := perform_fate (run_serving hpast) hi (fun c n => hnamed.tag_free c) tag
  have hends := fun {e : Event} (h : Ends (run {} past).1 op tag s e) =>
    h.perform (run_serving hpast) (run_held hpast) hi (fun c n => hnamed.tag_free c)
  -- The subscription ends with this operation, and with no other event.
  have hover : ∀ {deliveries : List Delivery} {last : Event},
      eventsTo tag (run {} past).2 = deliveries.map .delivery → (∀ e, ¬EndedBy past tag s e) →
      Ends (run {} past).1 op tag s last → Stream (past ++ [op]) tag s := by
    intro deliveries last he hnot hlast
    obtain ⟨hs', hsent⟩ := hends hlast
    refine .ended deliveries last ?_ (by rw [run_concat]; exact hs') fun e => ?_
    · rw [sent_concat, eventsTo_append, he, hsent]
    · refine happened_concat.trans ⟨fun h => ?_, fun h => Or.inr (h ▸ hlast)⟩
      have hsent' := (hends (h.resolve_left (hnot e))).2
      rw [hsent] at hsent'
      exact (List.cons.inj hsent').1.symm
  cases h with
  | goesOn deliveries he hs hnot =>
    cases hfate with
    | absent h₀ => rw [hs] at h₀; cases h₀
    | made _ _ _ h₀ => rw [hs] at h₀; cases h₀
    | goesOn more h₀ h₁ hsent =>
      rw [hs] at h₀; cases h₀
      refine .goesOn (deliveries ++ more) ?_ (by rw [run_concat]; exact h₁) fun e h => ?_
      · rw [sent_concat, eventsTo_append, he, hsent, List.map_append]
      · rcases happened_concat.1 h with h | h
        · exact hnot e h
        · rw [(hends h).1] at h₁; cases h₁
    | shutDown h₀ _ ho hc =>
      rw [hs] at h₀; cases h₀
      exact hover he hnot (.shutDown hs ho hc)
    | cancelled h₀ _ hc =>
      rw [hs] at h₀; cases h₀
      exact hover he hnot (.cancelled hs hc)
  | ended deliveries last he hs hl =>
    cases hfate with
    | absent _ h₁ hsent =>
      refine .ended deliveries last ?_ (by rw [run_concat]; exact h₁) fun e => ?_
      · rw [sent_concat, eventsTo_append, he, hsent, List.append_nil]
      · refine (happened_concat.trans (or_iff_left fun h => ?_)).trans (hl e)
        have h₀ := h.subscribed
        rw [hs] at h₀; cases h₀
    | made _ _ ht' =>
      have := (tagName_inj.1 (ht.symm.trans ht')).2
      omega
    | goesOn _ h₀ => rw [hs] at h₀; cases h₀
    | shutDown h₀ => rw [hs] at h₀; cases h₀
    | cancelled h₀ => rw [hs] at h₀; cases h₀

/-- **Streams.** After every history, a tag is unused or belongs to one subscription, whose
stream is deliveries, and one last event behind them exactly if the subscription is over. -/
theorem run_stream {ops : List Operation} (hi : OnIssued {} ops) (tag : String) : Use ops tag := by
  refine history_induct (P := fun ops => Use ops tag) ?_ (fun past op hpast hop h => ?_) hi
  · exact .unused rfl rfl fun s => ⟨not_happened_nil, fun e => not_happened_nil⟩
  have hnamed := run_named hpast
  cases h with
  | unused hs he hn =>
    cases perform_fate (run_serving hpast) hop (fun c n => hnamed.tag_free c) tag with
    | absent _ h₁ hsent =>
      refine .unused (by rw [run_concat]; exact h₁) ?_ fun s => ⟨fun h => ?_, fun e h => ?_⟩
      · rw [sent_concat, eventsTo_append, he, hsent]; rfl
      · rcases happened_concat.1 h with h | ⟨rfl, ha⟩
        · exact (hn s).1 h
        · rw [(of_consume_answer ha).2.1] at h₁; cases h₁
      · rcases happened_concat.1 h with h | h
        · exact (hn s).2 e h
        · have h₀ := h.subscribed
          rw [hs] at h₀; cases h₀
    | @made c name deliveries ho ht _ h₁ ha hsent =>
      have hnum : (run {} (past ++ [op])).1.issuedTags = (run {} past).1.issuedTags + 1 := by
        subst ho
        rw [run_concat]
        exact (of_consume_answer ha).2.2
      refine .used (s := ⟨c, name⟩) ht (Nat.le_of_eq hnum.symm) (fun s => ?_) ?_
      · refine happened_concat.trans ⟨fun h => ?_, ?_⟩
        · obtain ⟨rfl, -⟩ := h.resolve_left (hn s).1
          cases ho
          rfl
        · rintro rfl
          exact Or.inr ⟨ho, ha⟩
      · refine .goesOn deliveries ?_ (by rw [run_concat]; exact h₁) fun e h => ?_
        · rw [sent_concat, eventsTo_append, he, hsent]; rfl
        · rcases happened_concat.1 h with h | h
          · exact (hn _).2 e h
          · have h₀ := h.subscribed
            rw [hs] at h₀; cases h₀
    | goesOn _ h₀ => rw [hs] at h₀; cases h₀
    | shutDown h₀ => rw [hs] at h₀; cases h₀
    | cancelled h₀ => rw [hs] at h₀; cases h₀
  | @used n s ht hn hs hst =>
    have hle : n ≤ (run {} (past ++ [op])).1.issuedTags := by
      rw [run_concat]
      exact Nat.le_trans hn (issuedTags_le_perform _ op)
    refine .used ht hle (fun s' => ?_) (hst.concat hpast hop ht hn)
    refine (happened_concat.trans (or_iff_left ?_)).trans (hs s')
    rintro ⟨rfl, ha⟩
    have := (tagName_inj.1 (ht.symm.trans (of_consume_answer ha).1)).2
    omega

theorem Subscribed.issued {ops : List Operation} {tag : String} {s : Subscription}
    (h : Subscribed ops tag s) (hi : OnIssued {} ops) : (run {} ops).1.Issued s.channel := by
  obtain ⟨past, op, ⟨rest, rfl⟩, rfl, -⟩ := h
  have hpast := (onIssued_append.1 (onIssued_append.1 hi).1).2
  rw [List.append_assoc, run_append]
  exact issued_run _ (hpast.1 _ rfl)

theorem not_subscribed_of_answer {past : List Operation} (hpast : OnIssued {} past) {c : Nat}
    {name tag : String} (h : ((run {} past).1.perform (.consume c name)).answer = .ok (.name tag))
    (s : Subscription) : ¬Subscribed past tag s := by
  intro hs
  cases run_stream hpast tag with
  | unused _ _ hn => exact (hn s).1 hs
  | used ht hn =>
    have := (tagName_inj.1 (ht.symm.trans (of_consume_answer h).1)).2
    omega

theorem eventsTo_of_answer {past : List Operation} (hi : OnIssued {} past) {c : Nat}
    {queue tag : String}
    (h : ((run {} past).1.perform (.consume c queue)).answer = .ok (.name tag)) :
    eventsTo tag (run {} past).2 = [] := by
  cases run_stream hi tag with
  | unused _ he => exact he
  | used _ _ hu => exact absurd ((hu _).2 rfl) (not_subscribed_of_answer hi h _)

/-- The cause that a consumer was told stays the one recorded for its channel. -/
theorem EndedBy.closedBy? {ops : List Operation} {tag : String} {s : Subscription}
    {cause : Shutdown} (h : EndedBy ops tag s (.shutdown cause)) (hi : OnIssued {} ops) :
    (run {} ops).1.closedBy? s.channel = some cause := by
  obtain ⟨past, op, ⟨rest, rfl⟩, h⟩ := h
  obtain ⟨-, -, hc⟩ := ends_shutdown_iff.1 h
  rw [← run_concat] at hc
  rw [run_append]
  exact closedBy?_run rest (onIssued_append.1 hi).2 hc

/-- The stream of a subscription and how it ended: `Stream` with the last event as an option. -/
theorem Stream.last {ops : List Operation} {tag : String} {s : Subscription}
    (h : Stream ops tag s) :
    ∃ (deliveries : List Delivery) (last : Option Event),
      eventsTo tag (run {} ops).2 = deliveries.map .delivery ++ last.toList ∧
      (run {} ops).1.subscriptions.get? tag = (if last.isSome then none else some s) ∧
      ∀ e, last = some e ↔ EndedBy ops tag s e := by
  cases h with
  | goesOn deliveries he hs hn =>
    refine ⟨deliveries, none, he.trans (List.append_nil _).symm, hs, fun e => ?_⟩
    exact iff_of_false nofun (hn e)
  | ended deliveries last he hs hl =>
    refine ⟨deliveries, some last, he, hs, fun e => ?_⟩
    rw [Option.some.injEq, eq_comm]
    exact (hl e).symm

/-- **One last event.** After every history and for every subscription ever made in it, the
events sent to its consumer are deliveries followed by at most one last event, which is there
exactly if the subscription is no longer in the table. The last event is a shutdown exactly
if the channel of the subscription was shut down while it lasted, with the cause that is
recorded for the channel then and ever after; and a cancellation exactly if the subscription
was cancelled, or its queue deleted on a channel that may. -/
theorem run_last_event {ops : List Operation} (hi : OnIssued {} ops) {tag : String}
    {s : Subscription} (hs : Subscribed ops tag s) :
    ∃ (deliveries : List Delivery) (last : Option Event),
      eventsTo tag (run {} ops).2 = deliveries.map .delivery ++ last.toList ∧
      (∀ e ∈ last, e.isTerminal = true) ∧
      (last.isSome ↔ (run {} ops).1.subscriptions.get? tag = none) ∧
      (last = none ↔ (run {} ops).1.subscriptions.get? tag = some s) ∧
      (∀ cause, last = some (.shutdown cause) ↔ Happened ops fun b op =>
        b.subscriptions.get? tag = some s ∧ b.isOpen s.channel = true ∧
          (b.perform op).broker.closedBy? s.channel = some cause) ∧
      (∀ cause, last = some (.shutdown cause) → ∀ more, OnIssued {} (ops ++ more) →
        (run {} (ops ++ more)).1.closedBy? s.channel = some cause) ∧
      (last = some .cancelled ↔ Happened ops fun b op =>
        b.subscriptions.get? tag = some s ∧ Cancels b tag s op) := by
  have hst : Stream ops tag s := by
    cases run_stream hi tag with
    | unused _ _ hn => exact absurd hs (hn s).1
    | used _ _ hu hst =>
      obtain rfl := (hu s).1 hs
      exact hst
  obtain ⟨deliveries, last, he, htable, hlast⟩ := hst.last
  refine ⟨deliveries, last, he, ?_, ?_, ?_, fun cause => ?_, fun cause hc more hi' => ?_, ?_⟩
  · intro e hm
    obtain ⟨past, op, -, h⟩ := (hlast e).1 hm
    exact h.isTerminal
  · rw [htable]
    cases last <;> simp
  · rw [htable]
    cases last <;> simp
  · simp only [← ends_shutdown_iff]
    exact hlast _
  · have hended := ((hlast _).1 hc).closedBy? hi
    rw [run_append]
    exact closedBy?_run more (onIssued_append.1 hi').2 hended
  · simp only [← ends_cancelled_iff]
    exact hlast _

/-- A subscription with deliveries from the backlog and of its own, on a channel that is
closed, and aborted once more after that. -/
def closedHistory : List Operation :=
  [.openChannel, .openChannel, .declareQueue 1 "mail", .publish 2 { routingKey := "mail" },
    .consume 1 "mail", .publish 2 { routingKey := "mail" }, .closeChannel 1,
    .abortChannel 1 "late", .publish 2 { routingKey := "mail" }]

theorem run_last_event_closed :
    OnIssued {} closedHistory ∧ Subscribed closedHistory "ctag-1.1" ⟨1, "mail"⟩ ∧
      ∃ deliveries : List Delivery, deliveries.length = 2 ∧
        eventsTo "ctag-1.1" (run {} closedHistory).2 =
          deliveries.map .delivery ++ [.shutdown (.channelClosed 1)] ∧
        ∀ more, OnIssued {} (closedHistory ++ more) →
          (run {} (closedHistory ++ more)).1.closedBy? 1 = some (.channelClosed 1) := by
  have hi : OnIssued {} closedHistory := by decide
  have hs : Subscribed closedHistory "ctag-1.1" ⟨1, "mail"⟩ :=
    ⟨closedHistory.take 4, .consume 1 "mail", ⟨closedHistory.drop 5, rfl⟩, rfl, rfl⟩
  obtain ⟨deliveries, last, he, -, -, -, hshut, hever, -⟩ := run_last_event hi hs
  have hlast : last = some (.shutdown (.channelClosed 1)) :=
    (hshut _).2 ⟨closedHistory.take 6, .closeChannel 1, ⟨closedHistory.drop 7, rfl⟩, by decide,
      by decide, by decide⟩
  subst hlast
  refine ⟨hi, hs, deliveries, ?_, he, hever _ rfl⟩
  have hlength := congrArg List.length he
  rw [List.length_append, List.length_map] at hlength
  have hthree : (eventsTo "ctag-1.1" (run {} closedHistory).2).length = 3 := by decide
  rw [hthree] at hlength
  exact (Nat.succ.inj hlength).symm

end BrokeredRpc.Broker
