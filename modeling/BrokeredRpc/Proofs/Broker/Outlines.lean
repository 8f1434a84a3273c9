import BrokeredRpc.Proofs.Broker.Fates
import BrokeredRpc.Proofs.Broker.Freshness
import BrokeredRpc.Proofs.Broker.Routing

/-!
# Outlines of a broker

Two users of a broker who never met still count in each other's numbers, and leave
messages in each other's backlogs. What is left of a broker without these is its
outline: the channels, the exchanges with their bindings, the queues with owner and
consumer, and the subscriptions.

A publication leaves the outline as it is (`outline_publish`), and a binding does to it
what it does to the broker (`outline_bind`), also if queues have been trimmed from it
before (`bind_trim`). `aside` leaves one queue and one subscription out: brokers that
differ in these only still do so whatever is published and bound
(`outline_perform_routes`), and taking a queue, subscribing to it, cancelling that and
deleting the queue make no other difference (`aside_declareExclusive`, `aside_consume`,
`aside_cancel`, `aside_deleteQueue`).
-/
namespace BrokeredRpc

/-- The queue without its backlog. -/
def Queue.outline (q : Queue) : Queue := { q with backlog := ∅ }

theorem Queue.release_congr {q : Queue} {ended ended' : String → Bool}
    (h : ∀ tag, q.consumer = some tag → ended' tag = ended tag) :
    q.release ended' = q.release ended := by
  cases hc : q.consumer with
  | none => simp only [release, hc, Option.filter_none]
  | some tag => simp only [release, hc, Option.filter, h tag hc]

namespace Broker

variable {b b' : Broker} {ended ended' removed removed' : String → Bool}

/-- The broker without its counters and backlogs. -/
def outline (b : Broker) : Broker :=
  { b with
    namedQueues := 0
    issuedTags := 0
    deliveries := 0
    queues := b.queues.mapValues Queue.outline }

theorem get?_queues_outline (b : Broker) (name : String) :
    b.outline.queues.get? name = (b.queues.get? name).map Queue.outline :=
  Table.get?_mapValues _ b.queues name

theorem outline_eq (hc : b'.channels = b.channels)
    (hx : ∀ x, b'.exchanges.get? x = b.exchanges.get? x)
    (hq : ∀ name, (b'.queues.get? name).map Queue.outline =
      (b.queues.get? name).map Queue.outline)
    (hs : ∀ tag, b'.subscriptions.get? tag = b.subscriptions.get? tag) :
    b'.outline = b.outline :=
  eq_of_lookups hc rfl rfl rfl hx
    (fun name => by rw [get?_queues_outline, get?_queues_outline, hq]) hs

theorem outline_of_same (hc : b'.channels = b.channels) (hx : b'.exchanges = b.exchanges)
    (hq : b'.queues = b.queues) (hs : b'.subscriptions = b.subscriptions) :
    b'.outline = b.outline :=
  outline_eq hc (fun _ => by rw [hx]) (fun _ => by rw [hq]) fun _ => by rw [hs]

theorem outline_replaceQueue {name : String} {q : Queue} (hq : b.queues.get? name = some q)
    (backlog : Log Message) :
    { b with queues := b.queues.insert name { q with backlog } }.outline = b.outline := by
  refine outline_eq rfl (fun _ => rfl) (fun other => ?_) fun _ => rfl
  rw [Table.get?_insert]
  split
  · next he => rw [← he, hq]; rfl
  · rfl

/-! ## Publications -/

theorem outline_enqueue (b : Broker) (name : String) (m : Message) :
    (b.enqueue name m).1.outline = b.outline := by
  unfold enqueue
  split
  · rfl
  · next q hq =>
    split
    · exact outline_of_same rfl rfl rfl rfl
    · exact outline_replaceQueue hq _

theorem outline_publish (b : Broker) (c : Nat) (m : Message) :
    (b.perform (.publish c m)).broker.outline = b.outline := by
  rcases perform_cases b (.publish c m) with ⟨e, hr⟩ | hg
  · rw [hr]; rfl
  generalize b.perform (.publish c m) = effect at hg
  cases hg with
  | @published _ _ queues =>
    exact forEach_induct (P := fun b' => b'.outline = b.outline) queues b
      (fun b' name _ h => (outline_enqueue b' name m).trans h) rfl

/-! ## Bindings -/

theorem outline_bind (b : Broker) (c : Nat) (name x key : String) :
    (b.perform (.bind c name x key)).broker.outline =
      (b.outline.perform (.bind c name x key)).broker := by
  have ho : b.outline.isOpen c = b.isOpen c := isOpen_congr rfl c
  have hq : (b.outline.queues.get? name).isSome = (b.queues.get? name).isSome := by
    rw [get?_queues_outline, Option.isSome_map]
  have hx : b.outline.exchanges = b.exchanges := rfl
  rw [broker_bind, broker_bind, ho, hq, hx]
  split
  · split
    · rfl
    · split <;> rfl
  · rfl

/-- Binding a queue that is to be removed comes to nothing, and any other binding may come
before the removal or after it. -/
theorem bind_trim (b : Broker) (ended removed : String → Bool) (c : Nat) (name x key : String) :
    (b.perform (.bind c name x key)).broker.trim ended removed =
      ((b.trim ended removed).perform (.bind c name x key)).broker := by
  have ho : (b.trim ended removed).isOpen c = b.isOpen c := isOpen_congr rfl c
  have hq : ((b.trim ended removed).queues.get? name).isSome =
      (!removed name && (b.queues.get? name).isSome) := by
    rw [get?_queues_trim]
    cases removed name <;> simp
  rw [broker_bind, broker_bind, ho, hq, get?_exchanges_trim]
  by_cases hc : ¬(b.isOpen c = true ∧ (b.queues.get? name).isSome = true)
  · rw [if_neg hc, if_neg fun h => hc ⟨h.1, (Bool.and_eq_true_iff.1 h.2).2⟩]
  replace hc := Decidable.not_not.1 hc
  rw [if_pos hc]
  cases hx : b.exchanges.get? x with
  | none => simp
  | some bindings =>
    cases hr : removed name with
    | true =>
      rw [if_neg (by simp)]
      dsimp only
      split
      · rfl
      · -- The new binding goes with the queue that it names.
        refine eq_of_lookups rfl rfl rfl rfl (fun x' => ?_) (fun _ => rfl) fun _ => rfl
        rw [get?_exchanges_trim, get?_exchanges_trim]
        simp only [Table.get?_insert]
        split
        · next he => rw [← he, hx]; simp [hr]
        · rfl
    | false =>
      rw [if_pos (by simp [hc.1, hc.2])]
      simp only [Option.map_some, List.mem_filter, hr, Bool.not_false, and_true]
      split
      · rfl
      · refine eq_of_lookups rfl rfl rfl rfl (fun x' => ?_) (fun _ => rfl) fun _ => rfl
        rw [get?_exchanges_trim]
        simp only [Table.get?_insert]
        split
        · simp [hr]
        · exact (get?_exchanges_trim x').symm

/-! ## Trims -/

/-- It makes no difference to a trim what it says of names and tags that are not in use. -/
theorem trim_congr (hb : b.Bound) (hv : b.Serving)
    (he : ∀ tag, (b.subscriptions.get? tag).isSome → ended' tag = ended tag)
    (hr : ∀ name, (b.queues.get? name).isSome → removed' name = removed name) :
    b.trim ended' removed' = b.trim ended removed := by
  refine eq_of_lookups rfl rfl rfl rfl (fun x => ?_) (fun name => ?_) fun tag => ?_
  · rw [get?_exchanges_trim, get?_exchanges_trim]
    cases hx : b.exchanges.get? x with
    | none => rfl
    | some bindings =>
      refine congrArg some (List.filter_congr fun m hm => ?_)
      rw [hr _ (hb.existing x bindings hx m hm)]
  · rw [get?_queues_trim, get?_queues_trim]
    cases hq : b.queues.get? name with
    | none => simp
    | some q =>
      rw [hr name (Option.isSome_of_eq_some hq)]
      refine congrArg (fun q => if removed name = true then none else some q) ?_
      refine Queue.release_congr fun tag hc => ?_
      obtain ⟨s, hs, -⟩ := hv name q tag hq hc
      exact he tag (Option.isSome_of_eq_some hs)
  · rw [get?_subscriptions_trim, get?_subscriptions_trim]
    cases hs : b.subscriptions.get? tag with
    | none => simp
    | some s => rw [he tag (Option.isSome_of_eq_some hs)]

theorem outline_trim (b : Broker) (ended removed : String → Bool) :
    (b.trim ended removed).outline = b.outline.trim ended removed := by
  refine eq_of_lookups rfl rfl rfl rfl (fun _ => rfl) (fun name => ?_) fun _ => rfl
  rw [get?_queues_outline, get?_queues_trim, get?_queues_trim, get?_queues_outline]
  cases removed name <;> cases b.queues.get? name <;> rfl

/-! ## All but one queue and one subscription -/

/-- The outline of a broker without a subscription and a queue that need not exist. -/
def aside (b : Broker) (tag? name? : Option String) : Broker :=
  (b.trim (tag? == some ·) (name? == some ·)).outline

variable {tag? tag?' name? name?' : Option String} {c : Nat} {name tag : String}

theorem aside_none (b : Broker) : b.aside none none = b.outline := congrArg outline b.trim_never

theorem aside_congr (hb : b.Bound) (hv : b.Serving)
    (ht : ∀ tag, (b.subscriptions.get? tag).isSome → (tag?' = some tag ↔ tag? = some tag))
    (hn : ∀ name, (b.queues.get? name).isSome → (name?' = some name ↔ name? = some name)) :
    b.aside tag?' name?' = b.aside tag? name? := by
  refine congrArg outline (trim_congr hb hv (fun tag hs => ?_) fun name hs => ?_)
  · rw [Bool.eq_iff_iff, beq_iff_eq, beq_iff_eq, ht tag hs]
  · rw [Bool.eq_iff_iff, beq_iff_eq, beq_iff_eq, hn name hs]

/-- Nothing has changed but counters, backlogs and what is left out. -/
theorem aside_eq (hc : b'.channels = b.channels) (hx : b'.exchanges = b.exchanges)
    (hq : ∀ name, name? ≠ some name →
      (b'.queues.get? name).map Queue.outline = (b.queues.get? name).map Queue.outline)
    (hs : ∀ tag, tag? ≠ some tag → b'.subscriptions.get? tag = b.subscriptions.get? tag) :
    b'.aside tag? name? = b.aside tag? name? := by
  rw [aside, aside, outline_trim, outline_trim]
  refine eq_of_lookups hc rfl rfl rfl (fun x => ?_) (fun name => ?_) fun tag => ?_
  · rw [get?_exchanges_trim, get?_exchanges_trim]
    exact congrArg (fun exchanges => (Table.get? exchanges x).map _) hx
  · rw [get?_queues_trim, get?_queues_trim, get?_queues_outline, get?_queues_outline]
    by_cases hn : name? = some name
    · rw [if_pos (beq_iff_eq.2 hn), if_pos (beq_iff_eq.2 hn)]
    · rw [hq name hn]
  · rw [get?_subscriptions_trim, get?_subscriptions_trim]
    by_cases ht : tag? = some tag
    · rw [if_pos (beq_iff_eq.2 ht), if_pos (beq_iff_eq.2 ht)]
    · rw [if_neg fun he => ht (beq_iff_eq.1 he), if_neg fun he => ht (beq_iff_eq.1 he)]
      exact hs tag ht

theorem aside_trim (he : ∀ tag, ended tag = true → tag? = some tag)
    (hr : ∀ name, removed name = true → name? = some name) :
    (b.trim ended removed).aside tag? name? = b.aside tag? name? := by
  have hor : ∀ {f : String → Bool} {x? : Option String}, (∀ x, f x = true → x? = some x) →
      (fun x => f x || x? == some x) = (x? == some ·) := by
    intro f x? h
    funext x
    rw [Bool.eq_iff_iff, Bool.or_eq_true, beq_iff_eq]
    exact ⟨fun h' => h'.elim (h x) id, Or.inr⟩
  rw [aside, trim_trim, hor he, hor hr]
  rfl

theorem aside_publish {m : Message} :
    (b.perform (.publish c m)).broker.aside tag? name? = b.aside tag? name? := by
  rw [aside, aside, outline_trim, outline_trim, outline_publish]

/-- An operation that brings messages on their way and leaves queues and subscriptions alone. -/
def Operation.routes : Operation → Bool
  | .publish .. | .bind .. => true
  | _ => false

/-- Brokers that differ in one queue and one subscription only still do so after the same
publication or binding. -/
theorem outline_perform_routes {b₀ : Broker} (h : b₀.outline = b.aside tag? name?)
    {op : Operation} (hop : op.routes = true) :
    (b₀.perform op).broker.outline = (b.perform op).broker.aside tag? name? := by
  cases op with
  | publish c m =>
    rw [outline_publish, h, aside_publish]
  | bind c name x key =>
    rw [outline_bind, h, aside, aside, bind_trim, outline_bind]
  | _ => cases hop

theorem subscriptions_perform_routes {op : Operation} (hop : op.routes = true) :
    (b.perform op).broker.subscriptions = b.subscriptions := by
  cases op with
  | publish c m =>
    have h := congrArg Broker.subscriptions (outline_publish b c m)
    exact h
  | bind c name x key =>
    rw [broker_bind]
    split
    · split
      · rfl
      · split <;> rfl
    · rfl
  | _ => cases hop

/-! ## One queue and its subscription -/

theorem aside_declareExclusive (hb : b.Bound) (hv : b.Serving)
    (hn : b.queues.get? b.nextName = none) :
    (b.perform (.declareExclusive c)).broker.aside none (some b.nextName) =
      b.aside none none := by
  have hfree : b.aside none (some b.nextName) = b.aside none none := by
    refine aside_congr hb hv (fun _ _ => Iff.rfl) fun name hs => ⟨fun he => ?_, nofun⟩
    rw [← Option.some.inj he, hn] at hs
    cases hs
  rw [← hfree, broker_declareExclusive]
  split
  · refine aside_eq rfl rfl (fun name hne => ?_) fun _ _ => rfl
    exact congrArg _ ((Table.get?_insert _ _ _ _).trans (if_neg fun he => hne (congrArg some he)))
  · rfl

theorem aside_consume (hb : b.Bound) (hv : b.Serving)
    (hf : b.subscriptions.get? (tagName c (b.issuedTags + 1)) = none)
    (ha : (b.perform (.consume c name)).answer = .ok (.name tag)) :
    (b.perform (.consume c name)).broker.aside (some tag) (some name) =
      b.aside none (some name) := by
  rcases perform_cases b (.consume c name) with ⟨e, hr⟩ | hg
  · rw [hr] at ha
    cases ha
  generalize b.perform (.consume c name) = effect at hg ha
  cases hg
  cases ha
  have hfree : b.aside (some (tagName c (b.issuedTags + 1))) (some name) =
      b.aside none (some name) := by
    refine aside_congr hb hv (fun tag hs => ⟨fun he => ?_, nofun⟩) fun _ _ => Iff.rfl
    rw [← Option.some.inj he, hf] at hs
    cases hs
  rw [← hfree]
  refine aside_eq rfl rfl (fun other hne => ?_) fun other hne => ?_
  · exact congrArg _ ((Table.get?_insert _ _ _ _).trans (if_neg fun he => hne (congrArg some he)))
  · exact (Table.get?_insert _ _ _ _).trans (if_neg fun he => hne (congrArg some he))

/-- It makes no difference whether a queue is deleted that is left out with all its
subscriptions. -/
theorem aside_deleteQueue (h : b.Linked)
    (ha : ∀ tag s, b.subscriptions.get? tag = some s → s.queue = name → tag? = some tag) :
    (b.perform (.deleteQueue c name)).broker.aside tag? (some name) =
      b.aside tag? (some name) := by
  rcases perform_cases b (.deleteQueue c name) with ⟨e, hr⟩ | hg
  · rw [hr]
    rfl
  generalize b.perform (.deleteQueue c name) = effect at hg
  cases hg with
  | @deletedBusy _ _ tag q _ hq _ ht =>
    rw [h.consumerOf? hq] at ht
    obtain ⟨s, hs, hname⟩ := h.subscription hq ht
    show aside (Broker.removeQueue _ _) _ _ = _
    rw [deleteBusy_eq_trim h hq ht]
    refine aside_trim (fun tag' he => ?_) fun name' he => congrArg some (beq_iff_eq.1 he)
    rw [← beq_iff_eq.1 he]
    exact ha tag s hs hname
  | deletedIdle =>
    show aside (Broker.removeQueue _ _) _ _ = _
    rw [removeQueue_eq_trim]
    exact aside_trim (fun _ he => by cases he) fun name' he => congrArg some (beq_iff_eq.1 he)

/-- It makes no difference whether a subscription is cancelled that is left out with its queue. -/
theorem aside_cancel (h : b.Linked)
    (hs : ∀ s, b.subscriptions.get? tag = some s → s.queue = name) :
    (b.perform (.cancel c tag)).broker.aside (some tag) (some name) =
      b.aside (some tag) (some name) := by
  rcases perform_cases b (.cancel c tag) with ⟨e, hr⟩ | hg
  · rw [hr]
    rfl
  generalize b.perform (.cancel c tag) = effect at hg
  cases hg
  show aside (b.endSubscription tag .cancelled).1 _ _ = _
  rw [endSubscription_eq_trim h]
  refine aside_trim (fun tag' he => congrArg some (beq_iff_eq.1 he)) fun name' ho => ?_
  obtain ⟨q, tag', hq, -, hc, he⟩ := orphans_eq_true.1 ho
  obtain ⟨s, hsub, hname⟩ := h.subscription hq hc
  rw [← beq_iff_eq.1 he] at hsub
  rw [← hs s hsub, hname]

end Broker

end BrokeredRpc
