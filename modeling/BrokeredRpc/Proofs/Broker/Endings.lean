import BrokeredRpc.Proofs.Broker.Histories

/-!
# How subscriptions end

Few steps of a broker end a subscription, and each of them sends the
subscription its last event. Here is what the steps that do, and those that only
look as if they might, leave of the channels, of the subscriptions and of the
stream of events sent to one of them (`eventsTo`). Nothing is asked of the
broker: these are facts about single steps in any state.

Results:
* `subscriptions_shutdownChannel`, `closedBy?_shutdownChannel` and
  `eventsTo_shutdownChannel`: a channel is shut down;
* `shutdownChannels_cases`: what that means to one subscription when several
  channels are shut down in a row;
* `closedBy?_shutdownChannels`: the first cause that closes a channel stays.
-/
namespace BrokeredRpc

/-! ## Streams -/

/-- The events sent to one subscription, in order. -/
def eventsTo (tag : String) (sent : List Dispatch) : List Event :=
  sent.filterMap fun d => if d.tag = tag then some d.event else none

@[simp] theorem eventsTo_nil (tag : String) : eventsTo tag [] = [] := rfl

@[simp] theorem eventsTo_append (tag : String) (sent more : List Dispatch) :
    eventsTo tag (sent ++ more) = eventsTo tag sent ++ eventsTo tag more :=
  List.filterMap_append

theorem eventsTo_cons (tag : String) (d : Dispatch) (sent : List Dispatch) :
    eventsTo tag (d :: sent) = (if d.tag = tag then [d.event] else []) ++ eventsTo tag sent := by
  unfold eventsTo
  rw [List.filterMap_cons]
  by_cases h : d.tag = tag <;> simp [h]

theorem mem_eventsTo {tag : String} {e : Event} {sent : List Dispatch} :
    e ∈ eventsTo tag sent ↔ ⟨tag, e⟩ ∈ sent := by
  unfold eventsTo
  rw [List.mem_filterMap]
  refine ⟨fun ⟨d, hd, he⟩ => ?_, fun hd => ⟨_, hd, if_pos rfl⟩⟩
  split at he
  · next ht => cases he; cases ht; exact hd
  · cases he

theorem eventsTo_map (tag t : String) (events : List Event) :
    eventsTo t (events.map fun e => ⟨tag, e⟩) = if tag = t then events else [] := by
  induction events with
  | nil => exact (ite_self []).symm
  | cons e rest ih =>
    rw [List.map_cons, eventsTo_cons, ih]
    split <;> rfl

namespace Broker

variable {b : Broker}

/-! ## Channels -/

theorem closedBy?_congr {b b' : Broker} (h : b'.channels = b.channels) (c : Nat) :
    b'.closedBy? c = b.closedBy? c := by
  cases c with
  | zero => rfl
  | succ index => simp only [closedBy?, h]

theorem isOpen_congr {b b' : Broker} (h : b'.channels = b.channels) (c : Nat) :
    b'.isOpen c = b.isOpen c := by
  rw [isOpen, isOpen, closedBy?_congr h]

theorem issued_congr {b b' : Broker} (h : b'.channels.size = b.channels.size) {c : Nat} :
    b'.Issued c ↔ b.Issued c := by
  unfold Issued
  rw [h]

/-! ## One step -/

@[simp] theorem channels_detach (b : Broker) (name : String) :
    (b.detach name).channels = b.channels := by
  unfold detach
  split
  · rfl
  · split <;> rfl

@[simp] theorem subscriptions_detach (b : Broker) (name : String) :
    (b.detach name).subscriptions = b.subscriptions := by
  unfold detach
  split
  · rfl
  · split <;> rfl

@[simp] theorem channels_foldl_removeQueue (names : List String) (b : Broker) :
    (names.foldl removeQueue b).channels = b.channels := by
  induction names generalizing b with
  | nil => rfl
  | cons name rest ih => exact ih (b.removeQueue name)

@[simp] theorem subscriptions_foldl_removeQueue (names : List String) (b : Broker) :
    (names.foldl removeQueue b).subscriptions = b.subscriptions := by
  induction names generalizing b with
  | nil => rfl
  | cons name rest ih => exact ih (b.removeQueue name)

@[simp] theorem channels_endSubscription (b : Broker) (tag : String) (last : Event) :
    (b.endSubscription tag last).1.channels = b.channels := by
  unfold endSubscription
  split
  · rfl
  · exact channels_detach _ _

theorem get?_subscriptions_endSubscription (b : Broker) (tag : String) (last : Event) (t : String) :
    (b.endSubscription tag last).1.subscriptions.get? t =
      if tag = t then none else b.subscriptions.get? t := by
  unfold endSubscription
  split
  · next h =>
    split
    · next he => rw [← he, h]
    · rfl
  · rw [subscriptions_detach]
    exact Table.get?_erase b.subscriptions tag t

theorem eventsTo_endSubscription (b : Broker) (tag : String) (last : Event) (t : String) :
    eventsTo t (b.endSubscription tag last).2 =
      if tag = t ∧ (b.subscriptions.get? t).isSome then [last] else [] := by
  unfold endSubscription
  split
  · next h =>
    rw [if_neg]
    · rfl
    · rintro ⟨rfl, hs⟩
      rw [h] at hs; cases hs
  · next s h =>
    rw [eventsTo_cons, eventsTo_nil, List.append_nil]
    by_cases he : tag = t
    · rw [if_pos he, if_pos ⟨he, by rw [← he, h]; rfl⟩]
    · rw [if_neg he, if_neg fun hc => he hc.1]

/-! ## Several subscriptions -/

theorem channels_endSubscriptions (b : Broker) (last : Event) (tags : List String) :
    (b.endSubscriptions last tags).1.channels = b.channels :=
  forEach_induct (P := fun b' => b'.channels = b.channels) tags b
    (fun b' tag _ h => (channels_endSubscription b' tag last).trans h) rfl

theorem get?_subscriptions_endSubscriptions (last : Event) (tags : List String) (t : String) :
    ∀ b : Broker, (b.endSubscriptions last tags).1.subscriptions.get? t =
      if t ∈ tags then none else b.subscriptions.get? t := by
  induction tags with
  | nil => exact fun b => (if_neg List.not_mem_nil).symm
  | cons tag rest ih =>
    intro b
    rw [endSubscriptions, forEach_cons]
    refine (ih (b.endSubscription tag last).1).trans ?_
    rw [get?_subscriptions_endSubscription]
    by_cases ht : tag = t
    · simp [ht]
    · simp [ht, Ne.symm ht]

theorem eventsTo_endSubscriptions (last : Event) {tags : List String} (t : String)
    (hn : tags.Nodup) : ∀ b : Broker, eventsTo t (b.endSubscriptions last tags).2 =
      if t ∈ tags ∧ (b.subscriptions.get? t).isSome then [last] else [] := by
  induction tags with
  | nil => intro b; simp [endSubscriptions]
  | cons tag rest ih =>
    intro b
    obtain ⟨hnot, hn⟩ := List.nodup_cons.1 hn
    rw [endSubscriptions, forEach_cons, eventsTo_append, eventsTo_endSubscription]
    refine (congrArg _ (ih hn (b.endSubscription tag last).1)).trans ?_
    rw [get?_subscriptions_endSubscription]
    by_cases ht : tag = t
    · subst ht
      simp [hnot]
    · simp [ht, Ne.symm ht]

/-! ## A channel is shut down -/

theorem channels_shutdownChannel (b : Broker) (cause : Shutdown) (c : Nat) :
    (b.shutdownChannel cause c).1.channels =
      if b.isOpen c then (b.recordClosed c cause).channels else b.channels := by
  unfold shutdownChannel
  split
  · rw [channels_foldl_removeQueue, channels_endSubscriptions]
  · rfl

theorem size_channels_shutdownChannel (b : Broker) (cause : Shutdown) (c : Nat) :
    (b.shutdownChannel cause c).1.channels.size = b.channels.size := by
  rw [channels_shutdownChannel]
  split
  · exact Array.size_setIfInBounds
  · rfl

theorem closedBy?_shutdownChannel {c : Nat} (hi : b.Issued c) (cause : Shutdown) (d : Nat) :
    (b.shutdownChannel cause c).1.closedBy? d =
      if c = d ∧ b.isOpen c = true then some cause else b.closedBy? d := by
  by_cases ho : b.isOpen c = true
  · have hc : (b.shutdownChannel cause c).1.channels = (b.recordClosed c cause).channels := by
      rw [channels_shutdownChannel, if_pos ho]
    rw [closedBy?_congr hc, closedBy?_recordClosed hi]
    simp only [ho, and_true]
  · rw [shutdownChannel, if_neg ho]
    exact (if_neg fun h => ho h.2).symm

theorem get?_subscriptions_shutdownChannel (b : Broker) (cause : Shutdown) (c : Nat) (t : String) :
    (b.shutdownChannel cause c).1.subscriptions.get? t =
      (b.subscriptions.get? t).filter fun s => !(s.channel == c && b.isOpen c) := by
  unfold shutdownChannel
  split
  · next ho =>
    rw [subscriptions_foldl_removeQueue, get?_subscriptions_endSubscriptions]
    simp only [mem_tagsOf, recordClosed, ho, Bool.and_true]
    cases b.subscriptions.get? t with
    | none => simp
    | some s => by_cases hs : s.channel = c <;> simp [Option.filter, hs]
  · next ho =>
    rw [Bool.not_eq_true] at ho
    cases b.subscriptions.get? t <;> simp [Option.filter, ho]

theorem eventsTo_shutdownChannel (b : Broker) (cause : Shutdown) (c : Nat) (t : String) :
    eventsTo t (b.shutdownChannel cause c).2 =
      if (b.subscriptions.get? t).any (fun s => s.channel == c && b.isOpen c) then
        [.shutdown cause] else [] := by
  unfold shutdownChannel
  split
  · next ho =>
    have hn : ((b.recordClosed c cause).tagsOf c).Nodup := Table.nodup_keys _
    refine (eventsTo_endSubscriptions (.shutdown cause) t hn _).trans ?_
    simp only [mem_tagsOf, recordClosed, ho, Bool.and_true]
    cases b.subscriptions.get? t <;> simp
  · next ho =>
    rw [Bool.not_eq_true] at ho
    simp [ho]

/-- What the shutdown of a channel means to one subscription. -/
theorem shutdownChannel_cases {c : Nat} (hi : b.Issued c) (cause : Shutdown) {t : String}
    {s : Subscription} (hs : b.subscriptions.get? t = some s) :
    ((b.shutdownChannel cause c).1.subscriptions.get? t = some s ∧
        eventsTo t (b.shutdownChannel cause c).2 = []) ∨
      ((b.shutdownChannel cause c).1.subscriptions.get? t = none ∧
        eventsTo t (b.shutdownChannel cause c).2 = [.shutdown cause] ∧
        b.isOpen s.channel = true ∧
        (b.shutdownChannel cause c).1.closedBy? s.channel = some cause) := by
  rw [get?_subscriptions_shutdownChannel, eventsTo_shutdownChannel, hs]
  by_cases h : s.channel = c ∧ b.isOpen c = true
  · obtain ⟨hc, ho⟩ := h
    refine Or.inr ⟨?_, ?_, hc ▸ ho, ?_⟩
    · simp [Option.filter, hc, ho]
    · simp [hc, ho]
    · rw [closedBy?_shutdownChannel hi, if_pos ⟨hc.symm, ho⟩]
  · refine Or.inl ⟨?_, ?_⟩
    · rw [not_and] at h
      simpa [Option.filter] using h
    · rw [if_neg]
      simpa using h

/-! ## Several channels are shut down -/

theorem issued_range' (b : Broker) : ∀ c ∈ List.range' 1 b.channels.size, b.Issued c := by
  intro c hc
  rw [List.mem_range'_1] at hc
  exact ⟨hc.1, by omega⟩

theorem size_channels_shutdownChannels (cause : Shutdown) (cs : List Nat) (b : Broker) :
    (b.shutdownChannels cause cs).1.channels.size = b.channels.size :=
  forEach_induct (P := fun b' => b'.channels.size = b.channels.size) cs b
    (fun b' c _ h => (size_channels_shutdownChannel b' cause c).trans h) rfl

theorem shutdownChannels_of_absent (cause : Shutdown) {t : String} (cs : List Nat) :
    ∀ {b : Broker}, b.subscriptions.get? t = none →
      (b.shutdownChannels cause cs).1.subscriptions.get? t = none ∧
        eventsTo t (b.shutdownChannels cause cs).2 = [] := by
  induction cs with
  | nil => exact fun h => ⟨h, rfl⟩
  | cons c rest ih =>
    intro b h
    have hstep : (b.shutdownChannel cause c).1.subscriptions.get? t = none := by
      rw [get?_subscriptions_shutdownChannel, h]; rfl
    obtain ⟨hrest, hsent⟩ := ih hstep
    rw [shutdownChannels, forEach_cons]
    refine ⟨hrest, ?_⟩
    rw [eventsTo_append, eventsTo_shutdownChannel, h]
    exact hsent

/-- The first cause that closes a channel stays. -/
theorem closedBy?_shutdownChannels {cause stays : Shutdown} {d : Nat} (cs : List Nat) :
    ∀ {b : Broker}, (∀ c ∈ cs, b.Issued c) → b.closedBy? d = some stays →
      (b.shutdownChannels cause cs).1.closedBy? d = some stays := by
  induction cs with
  | nil => exact fun _ h => h
  | cons c rest ih =>
    intro b hi h
    have hic := hi c List.mem_cons_self
    rw [shutdownChannels, forEach_cons]
    refine ih (fun c' hc' => ?_) ?_
    · rw [issued_congr (size_channels_shutdownChannel b cause c)]
      exact hi c' (List.mem_cons_of_mem _ hc')
    · rw [closedBy?_shutdownChannel hic, if_neg, h]
      rintro ⟨rfl, ho⟩
      rw [isOpen_iff, h] at ho; cases ho

theorem shutdownChannels_cases (cause : Shutdown) {t : String} {s : Subscription} (cs : List Nat) :
    ∀ {b : Broker}, (∀ c ∈ cs, b.Issued c) → b.subscriptions.get? t = some s →
      ((b.shutdownChannels cause cs).1.subscriptions.get? t = some s ∧
          eventsTo t (b.shutdownChannels cause cs).2 = []) ∨
        ((b.shutdownChannels cause cs).1.subscriptions.get? t = none ∧
          eventsTo t (b.shutdownChannels cause cs).2 = [.shutdown cause] ∧
          b.isOpen s.channel = true ∧
          (b.shutdownChannels cause cs).1.closedBy? s.channel = some cause) := by
  induction cs with
  | nil => exact fun _ h => Or.inl ⟨h, rfl⟩
  | cons c rest ih =>
    intro b hi hs
    have hrest : ∀ c' ∈ rest, (b.shutdownChannel cause c).1.Issued c' := fun c' hc' => by
      rw [issued_congr (size_channels_shutdownChannel b cause c)]
      exact hi c' (List.mem_cons_of_mem _ hc')
    rw [shutdownChannels, forEach_cons, eventsTo_append]
    rcases shutdownChannel_cases (hi c List.mem_cons_self) cause hs with
      ⟨hkept, hsent⟩ | ⟨hgone, hsent, ho, hclosed⟩ <;> rw [hsent]
    · refine (ih hrest hkept).imp (fun h => h) fun ⟨hgone, hmore, ho, hclosed⟩ => ?_
      refine ⟨hgone, hmore, ?_, hclosed⟩
      -- A channel that is open after a shutdown was open before it.
      rw [isOpen_iff, closedBy?_shutdownChannel (hi c List.mem_cons_self)] at ho
      split at ho
      · cases ho
      · exact isOpen_iff.2 ho
    · obtain ⟨hstays, hmore⟩ := shutdownChannels_of_absent cause rest hgone
      exact Or.inr ⟨hstays, congrArg _ hmore, ho, closedBy?_shutdownChannels rest hrest hclosed⟩

end Broker

end BrokeredRpc
