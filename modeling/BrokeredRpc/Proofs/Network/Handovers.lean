import BrokeredRpc.Proofs.Client.Acts
import BrokeredRpc.Proofs.Network.Calls

/-!
# How a reply is handed over

The clients, consumers and subscriptions of a network take their steps side by side. Here is
what one step leaves of each part: a consumer changes with the events of its own subscription
only (`Sound.consumer_step`), what is in transit to a subscription is taken at its head and
grows at its end (`eventsTo_step`), and a slot that is filled stays so (`Fills.step`).

* `Sound.handover`: a reply in transit to a call that waits is there as long as the call
  waits, unless it is handed over, and then the call has its result for good.
-/
namespace BrokeredRpc.Network

variable {s : System} {n : Network}

/-- The step that hands the next event of this subscription to its consumer. -/
def Label.handles (tag : String) : Label → Bool
  | .handle t => t == tag
  | _ => false

/-! ## Consumers -/

theorem get?_consumers_handleNext {tag : String} {event : Event} {others : List Dispatch}
    (h : nextFor? tag n.transit = some (event, others)) (t : String) :
    (n.handleNext tag).consumers.get? t =
      if tag = t then (n.consumers.get? t).map fun k =>
        { k with role := (k.role.receive event).1 }
      else n.consumers.get? t := by
  have hhandles := handleNext_of_some h
  generalize n.handleNext tag = n', n.published tag = asked at hhandles ⊢
  cases hhandles with
  | nobody hk =>
    split
    · next he => subst he; rw [hk]; rfl
    · rfl
  | @client channel index hk =>
    have hrole : ((Role.replies index).receive event).1 = .replies index := by
      cases event <;> rfl
    split
    · next he => subst he; rw [hk, Option.map_some, hrole]
    · rfl
  | role hk =>
    rw [publishAll_eq_run]
    refine (Table.get?_insert _ _ _ _).trans ?_
    split
    · next he => subst he; rw [hk]; rfl
    · rfl

theorem Sound.get?_consumers_subscribe (h : Sound s) {tag : String} {k : Consumer}
    (hk : s.network.consumers.get? tag = some k) (channel : Nat) (queue : String) (role : Role) :
    (s.network.subscribe channel queue role).2.consumers.get? tag = some k := by
  rcases subscribe_cases s.network channel queue role with ⟨tag', ha, he⟩ | ⟨refusal, he⟩
  · obtain ⟨-, hnew⟩ := h.consumer_of_answer ha
    have hne : tag' ≠ tag := by
      rintro rfl
      rw [hnew] at hk; cases hk
    rw [he]
    exact (Table.get?_insert _ _ _ _).trans ((if_neg hne).trans hk)
  · rw [he]
    exact hk

/-- **A consumer** stays what it is while its subscription's events are not handled. -/
theorem Sound.consumer_step (h : Sound s) {tag : String} {k : Consumer}
    (hk : s.network.consumers.get? tag = some k) {label : Label}
    (hl : label.handles tag = false) :
    (s.step label).network.consumers.get? tag = some k := by
  cases label with
  | operate op =>
    simp only [System.step, System.operate]
    split <;> exact hk
  | subscribe channel queue role =>
    simp only [System.step, System.subscribe]
    split
    · exact h.get?_consumers_subscribe hk channel queue role
    · exact hk
  | connect timeout channel =>
    simp only [System.step, System.connect]
    split <;> exact hk
  | start index op =>
    simp only [System.step, System.start]
    split <;> exact hk
  | exchange index =>
    simp only [System.step, System.exchange]
    split
    · next stage e hs he =>
      have hf := (h.peopled.attached index e he).faultless
      rw [exchange_eq]
      show ((s.network.ask index e stage).2).consumers.get? tag = some k
      by_cases hsub : ∃ queue, stage = .subscribing queue
      · obtain ⟨queue, rfl⟩ := hsub
        rw [ask_subscribing _ _ hf]
        exact h.get?_consumers_subscribe hk _ _ _
      · rw [ask_snd _ _ hf fun queue hq => hsub ⟨queue, hq⟩]
        exact hk
    · exact hk
  | handle t =>
    have hne : t ≠ tag := by simpa [Label.handles] using hl
    show (s.network.handleNext t).consumers.get? tag = some k
    cases hnext : nextFor? t s.network.transit with
    | none => rw [(handleNext_of_none hnext).1]; exact hk
    | some next => rw [get?_consumers_handleNext hnext, if_neg hne]; exact hk
  | look index id since now =>
    simp only [System.step, System.look]
    split <;> exact hk

/-! ## Events in transit -/

theorem ask_transit (n : Network) (index : Nat) (e : Endpoint) (stage : Client.Stage) :
    ∃ sent, (n.ask index e stage).2.transit = n.transit ++ sent := by
  rw [ask.eq_def]
  split
  · exact ⟨[], (List.append_nil _).symm⟩
  · cases stage with
    | subscribing queue =>
      rcases subscribe_cases n e.channel queue (.replies index) with ⟨tag, -, he⟩ | ⟨refusal, he⟩
      · exact ⟨_, congrArg (fun p => p.2.transit) he⟩
      · exact ⟨_, congrArg (fun p => p.2.transit) he⟩
    | _ => exact ⟨_, rfl⟩

theorem eventsTo_handleNext (n : Network) (t tag : String) :
    ∃ more, eventsTo tag (n.handleNext t).transit =
      (if t = tag then (eventsTo tag n.transit).tail else eventsTo tag n.transit) ++ more := by
  cases he : eventsTo t n.transit with
  | nil =>
    rw [handleNext_of_silent he]
    refine ⟨[], ?_⟩
    rw [List.append_nil]
    split
    · next ht => rw [← ht, he]; rfl
    · rfl
  | cons event rest =>
    obtain ⟨others, hnext, hothers, hkept⟩ := nextFor?_of_events he
    have hleft : eventsTo tag others =
        if t = tag then (eventsTo tag n.transit).tail else eventsTo tag n.transit := by
      split
      · next ht => rw [← ht, hothers, he]; rfl
      · next ht => exact hkept tag (Ne.symm ht)
    have hsent : ∃ sent, (n.handleNext t).transit = others ++ sent := by
      have hhandles := handleNext_of_some hnext
      generalize n.handleNext t = n', n.published t = asked at hhandles ⊢
      cases hhandles with
      | nobody => exact ⟨[], (List.append_nil _).symm⟩
      | client => exact ⟨[], (List.append_nil _).symm⟩
      | role => rw [publishAll_eq_run]; exact ⟨_, rfl⟩
    obtain ⟨sent, hsent⟩ := hsent
    exact ⟨eventsTo tag sent, by rw [hsent, eventsTo_append, hleft]⟩

/-- **What is in transit to a subscription** is taken at its head and grows at its end. -/
theorem eventsTo_step (s : System) (tag : String) (label : Label) :
    ∃ more, eventsTo tag (s.step label).network.transit =
      (if label.handles tag then (eventsTo tag s.network.transit).tail
        else eventsTo tag s.network.transit) ++ more := by
  have hsame : ∀ {n : Network}, n.transit = s.network.transit →
      ∃ more, eventsTo tag n.transit = eventsTo tag s.network.transit ++ more :=
    fun hn => ⟨[], by rw [hn, List.append_nil]⟩
  have hmore : ∀ {n : Network}, (∃ sent, n.transit = s.network.transit ++ sent) →
      ∃ more, eventsTo tag n.transit = eventsTo tag s.network.transit ++ more :=
    fun ⟨sent, hn⟩ => ⟨eventsTo tag sent, by rw [hn, eventsTo_append]⟩
  cases label with
  | operate op =>
    simp only [System.step, System.operate]
    split
    · exact hmore ⟨_, rfl⟩
    · exact hsame rfl
  | subscribe channel queue role =>
    simp only [System.step, System.subscribe]
    split
    · rcases subscribe_cases s.network channel queue role with ⟨tag', -, he⟩ | ⟨refusal, he⟩
      · exact hmore ⟨_, congrArg (fun p => p.2.transit) he⟩
      · exact hmore ⟨_, congrArg (fun p => p.2.transit) he⟩
    · exact hsame rfl
  | connect timeout channel =>
    simp only [System.step, System.connect]
    split <;> exact hsame rfl
  | start index op =>
    simp only [System.step, System.start]
    split <;> exact hsame rfl
  | exchange index =>
    simp only [System.step, System.exchange]
    split
    · next stage e _ _ => exact hmore (ask_transit s.network index e stage)
    · exact hsame rfl
  | handle t =>
    obtain ⟨more, hm⟩ := eventsTo_handleNext s.network t tag
    refine ⟨more, hm.trans ?_⟩
    simp only [Label.handles, beq_iff_eq]
  | look index id since now =>
    simp only [System.step, System.look]
    split <;> exact hsame rfl

/-! ## Slots -/

/-- The slot of a call of this client holds the outcome. -/
def Fills (n : Network) (index : Nat) (id : String) (outcome : Outcome) : Prop :=
  ∃ e, n.endpoints[index]? = some e ∧ (e.client.replies.slot id).value = some outcome

/-- A call of this client is registered and has been told nothing. -/
def Waits (n : Network) (index : Nat) (id : String) : Prop :=
  ∃ e, n.endpoints[index]? = some e ∧ e.client.replies.registry.pending.get? id = some id ∧
    (e.client.replies.slot id).value = none

theorem ask_endpoints (n : Network) (index : Nat) (e : Endpoint) (stage : Client.Stage) :
    (n.ask index e stage).2.endpoints = n.endpoints := by
  rw [ask.eq_def]
  split
  · rfl
  · cases stage with
    | subscribing queue =>
      rcases subscribe_cases n e.channel queue (.replies index) with ⟨tag, -, he⟩ | ⟨refusal, he⟩
      · exact congrArg (fun p => p.2.endpoints) he
      · exact congrArg (fun p => p.2.endpoints) he
    | _ => rfl

namespace Fills

variable {index : Nat} {id : String} {outcome : Outcome}

theorem returns (h : n.Fills index id outcome) : n.Returns index id outcome.toResult := by
  obtain ⟨e, he, hv⟩ := h
  exact ⟨e.client, congrArg (Option.map _) he, Client.look_of_filled hv⟩

theorem congr (h : n.Fills index id outcome) {n' : Network} (he : n'.endpoints = n.endpoints) :
    n'.Fills index id outcome := by
  obtain ⟨e, hi, hv⟩ := h
  exact ⟨e, by rw [he, hi], hv⟩

theorem setClient (h : n.Fills index id outcome) {i : Nat} {e : Endpoint} {client : Client}
    (he : n.endpoints[i]? = some e)
    (hc : (e.client.replies.slot id).value = some outcome →
      (client.replies.slot id).value = some outcome) :
    (n.setClient i client).Fills index id outcome := by
  obtain ⟨e', he', hv⟩ := h
  by_cases hi : i = index
  · subst hi
    rw [he] at he'
    cases he'
    exact ⟨_, getElem?_setClient_self he client, hc hv⟩
  · exact ⟨e', by rw [getElem?_setClient, if_neg hi, he'], hv⟩

theorem handleNext (h : n.Fills index id outcome) (tag : String) :
    (n.handleNext tag).Fills index id outcome := by
  cases hnext : nextFor? tag n.transit with
  | none => rw [(handleNext_of_none hnext).1]; exact h
  | some next =>
    have hhandles := handleNext_of_some hnext
    generalize n.handleNext tag = n', n.published tag = asked at hhandles ⊢
    cases hhandles with
    | nobody => exact h
    | @client channel i =>
      obtain ⟨e, he, hv⟩ := h
      by_cases hi : i = index
      · exact ⟨_, by rw [Array.getElem?_modify, if_pos hi, he]; rfl, Client.receive_of_filled hv⟩
      · exact ⟨e, by rw [Array.getElem?_modify, if_neg hi, he], hv⟩
    | role => rw [publishAll_eq_run]; exact h

/-- **A slot that is filled** stays so. -/
theorem step (h : s.network.Fills index id outcome) (label : Label) :
    (s.step label).network.Fills index id outcome := by
  cases label with
  | operate op =>
    simp only [System.step, System.operate]
    split <;> exact h
  | subscribe channel queue role =>
    simp only [System.step, System.subscribe]
    split
    · refine h.congr ?_
      rcases subscribe_cases s.network channel queue role with ⟨tag, -, he⟩ | ⟨refusal, he⟩
      · exact congrArg (fun p => p.2.endpoints) he
      · exact congrArg (fun p => p.2.endpoints) he
    · exact h
  | connect timeout channel =>
    simp only [System.step, System.connect]
    split
    · obtain ⟨e, he, hv⟩ := h
      obtain ⟨hlt, -⟩ := Array.getElem?_eq_some_iff.1 he
      exact ⟨e, (Array.getElem?_push.trans (if_neg (Nat.ne_of_lt hlt))).trans he, hv⟩
    · exact h
  | start i op =>
    simp only [System.step, System.start]
    split
    · next e _ he =>
      refine h.setClient he fun hv => ?_
      rcases Client.start_fst e.client op with hc | hc <;> rw [hc]
      · exact hv
      · exact (Replies.value_slot_register ..).trans hv
    · exact h
  | exchange i =>
    simp only [System.step, System.exchange]
    split
    · next stage e _ he =>
      have hends := ask_endpoints s.network i e stage
      rw [exchange_eq]
      refine (h.congr hends).setClient (hends ▸ he) fun hv => ?_
      unfold Client.resume
      split <;> exact hv
    · exact h
  | handle tag => exact h.handleNext tag
  | look i id' since now =>
    simp only [System.step, System.look]
    split
    · next e he =>
      refine h.setClient he fun hv => ?_
      rcases Client.look_snd e.client id' since now with hc | hc <;> rw [hc]
      · exact hv
      · exact hv
    · exact h

theorem run (labels : List Label) : ∀ {s : System}, s.network.Fills index id outcome →
    (s.run labels).network.Fills index id outcome := by
  induction labels with
  | nil => exact fun h => h
  | cons label rest ih => exact fun h => ih (h.step label)

end Fills

/-! ## A reply in transit -/

section

variable {tag id : String} {channel index : Nat} {d : Delivery} {before after : List Event}

theorem Waits.handed (hw : n.Waits index id)
    (hk : n.consumers.get? tag = some { channel, role := .replies index })
    (hd : d.properties.correlationId = some id)
    (he : eventsTo tag n.transit = .delivery d :: after) :
    (n.handleNext tag).Fills index id (.ofReply d.properties d.body) := by
  obtain ⟨e, hi, hp, hv⟩ := hw
  obtain ⟨others, hnext, -, -⟩ := nextFor?_of_events he
  have htold : (Event.delivery d).tells? id tag = some (.ofReply d.properties d.body) :=
    if_pos hd
  have hstep : n.handleNext tag =
      ({ n with transit := others } : Network).handle tag (.delivery d) := by
    rw [handleNext, hnext]
  rw [hstep, (handle_of_client (n := { n with transit := others }) hk hi _).1]
  exact ⟨_, getElem?_setClient_self hi _, Client.receive_of_told hp hv htold⟩

/-- The call waits, and its reply is in transit behind so many other events. -/
structure Expects (n : Network) (index : Nat) (id tag : String) (d : Delivery) (ahead : Nat) :
    Prop where
  waits : n.Waits index id
  transit : ∃ before after, eventsTo tag n.transit = before ++ .delivery d :: after ∧
    before.length = ahead

theorem Expects.mem {ahead : Nat} (h : n.Expects index id tag d ahead) :
    .delivery d ∈ eventsTo tag n.transit := by
  obtain ⟨before, after, he, -⟩ := h.transit
  rw [he]
  exact List.mem_append_right before List.mem_cons_self

theorem Sound.listens_step (h : Sound s)
    (hk : s.network.consumers.get? tag = some { channel, role := .replies index })
    (label : Label) :
    (s.step label).network.consumers.get? tag = some { channel, role := .replies index } := by
  cases hl : label.handles tag with
  | false => exact h.consumer_step hk hl
  | true =>
    cases label with
    | handle t =>
      obtain rfl : t = tag := by simpa [Label.handles] using hl
      show (s.network.handleNext t).consumers.get? t = _
      cases hnext : nextFor? t s.network.transit with
      | none => rw [(handleNext_of_none hnext).1]; exact hk
      | some next =>
        rw [get?_consumers_handleNext hnext, if_pos rfl, hk]
        cases next.1 <;> rfl
    | _ => cases hl

/-- **One step** of anybody: the reply is still in transit, or it is handed over. -/
theorem Expects.step {ahead : Nat} (h : s.network.Expects index id tag d ahead)
    (hk : s.network.consumers.get? tag = some { channel, role := .replies index })
    (hd : d.properties.correlationId = some id) (label : Label) :
    (s.step label).network.Fills index id (.ofReply d.properties d.body) ∨
      ∃ before after,
        eventsTo tag (s.step label).network.transit = before ++ .delivery d :: after ∧
        before.length + (if label.handles tag then 1 else 0) = ahead := by
  obtain ⟨before, after, he, hlen⟩ := h.transit
  obtain ⟨more, hstep⟩ := eventsTo_step s tag label
  cases hl : label.handles tag with
  | false =>
    rw [hl, he] at hstep
    refine Or.inr ⟨before, after ++ more, hstep.trans ?_, hlen⟩
    exact List.append_assoc _ _ _
  | true =>
    rw [hl, he] at hstep
    cases before with
    | nil =>
      cases label with
      | handle t =>
        obtain rfl : t = tag := by simpa [Label.handles] using hl
        exact Or.inl (h.waits.handed hk hd he)
      | _ => cases hl
    | cons event rest =>
      refine Or.inr ⟨rest, after ++ more, hstep.trans ?_, hlen⟩
      exact List.append_assoc _ _ _

/-- **A reply in transit to a call that waits**, and any steps of anybody. The call still waits
for it, or has stopped waiting before it came, or it was handed over and is the result. -/
theorem Sound.handover (labels : List Label) : ∀ {s : System} {ahead : Nat}, Sound s →
    s.network.Expects index id tag d ahead →
    s.network.consumers.get? tag = some { channel, role := .replies index } →
    d.properties.correlationId = some id →
    (∃ left, (s.run labels).network.Expects index id tag d left ∧
        left + labels.countP (Label.handles tag) = ahead) ∨
      (∃ earlier, earlier <+: labels ∧ ¬(s.run earlier).network.Waits index id ∧
        .delivery d ∈ eventsTo tag (s.run earlier).network.transit) ∨
      (s.run labels).network.Fills index id (.ofReply d.properties d.body) := by
  induction labels with
  | nil => exact fun _ he _ _ => Or.inl ⟨_, he, rfl⟩
  | cons label rest ih =>
    intro s ahead h he hk hd
    rcases he.step hk hd label with hfills | ⟨before, after, htransit, hlen⟩
    · exact Or.inr (Or.inr (hfills.run rest))
    by_cases hw : (s.step label).network.Waits index id
    · rcases ih (h.step label) ⟨hw, before, after, htransit, rfl⟩ (h.listens_step hk label) hd
        with ⟨left, hend, hleft⟩ | ⟨earlier, hprefix, hnot, hm⟩ | hfills
      · refine Or.inl ⟨left, hend, ?_⟩
        rw [List.countP_cons]
        omega
      · exact Or.inr (Or.inl ⟨label :: earlier, List.cons_prefix_cons.2 ⟨rfl, hprefix⟩, hnot, hm⟩)
      · exact Or.inr (Or.inr hfills)
    · refine Or.inr (Or.inl ⟨[label], List.cons_prefix_cons.2 ⟨rfl, List.nil_prefix⟩, hw, ?_⟩)
      show _ ∈ eventsTo tag (s.step label).network.transit
      rw [htransit]
      exact List.mem_append_right before List.mem_cons_self

end

end BrokeredRpc.Network
