import BrokeredRpc.Proofs.Broker.Bystanders
import BrokeredRpc.Proofs.Broker.Refusals

/-!
# What a broker gives out is never given out again

A broker counts the queues that it has named, the tags that it has issued and the
deliveries that it has numbered, and gives out the next number in each of them.
`Numbered` says this of everything that is given out in the course of a counter.
One operation takes each counter from where it stands to where it is left
(`tags_perform`, `names_perform`, `delivers_perform`), and histories follow by
putting operations together.

* `run_identities`: tags, generated names and delivery tags do not repeat, and the
  tag of a subscription that has ended is of no use any more.
-/
namespace BrokeredRpc

/-! ## The course of a counter -/

/-- The counter goes from one value to another, and each item carries the next number. -/
inductive Numbered {α : Type} (Carries : Nat → α → Prop) : Nat → List α → Nat → Prop
  | nil (n : Nat) : Numbered Carries n [] n
  | cons {n m : Nat} {x : α} {rest : List α} (hx : Carries (n + 1) x)
      (hrest : Numbered Carries (n + 1) rest m) : Numbered Carries n (x :: rest) m

namespace Numbered

variable {α : Type} {Carries : Nat → α → Prop} {n m k : Nat} {items more : List α}

theorem one {x : α} (h : Carries (n + 1) x) : Numbered Carries n [x] (n + 1) := .cons h (.nil _)

theorem append (h : Numbered Carries n items m) (h' : Numbered Carries m more k) :
    Numbered Carries n (items ++ more) k := by
  induction h with
  | nil => exact h'
  | cons hx _ ih => exact .cons hx (ih h')

theorem length (h : Numbered Carries n items m) : m = n + items.length := by
  induction h with
  | nil => rfl
  | cons _ _ ih =>
    rw [List.length_cons]
    omega

theorem number_of_mem (h : Numbered Carries n items m) {x : α} (hm : x ∈ items) :
    ∃ i, n < i ∧ Carries i x := by
  induction h with
  | nil => cases hm
  | @cons n _ y _ hy _ ih =>
    cases hm with
    | head => exact ⟨n + 1, Nat.lt_succ_self n, hy⟩
    | tail _ hm =>
      obtain ⟨i, hlt, hi⟩ := ih hm
      exact ⟨i, by omega, hi⟩

/-- What holds between carriers of a smaller and a greater number holds along the list. -/
theorem pairwise {R : α → α → Prop}
    (hR : ∀ i j x y, i < j → Carries i x → Carries j y → R x y)
    (h : Numbered Carries n items m) : items.Pairwise R := by
  induction h with
  | nil => exact .nil
  | cons hx hrest ih =>
    refine .cons (fun y hy => ?_) ih
    obtain ⟨j, hlt, hj⟩ := hrest.number_of_mem hy
    exact hR _ j _ y hlt hx hj

theorem nodup (hinj : ∀ i j x, Carries i x → Carries j x → i = j)
    (h : Numbered Carries n items m) : items.Nodup := by
  apply h.pairwise
  intro i j x y hlt hi hj he
  subst he
  have := hinj i j x hi hj
  omega

end Numbered

namespace Broker

/-- What every operation does to a counter, a history does. -/
theorem gather_numbered {α : Type} {Carries : Nat → α → Prop} {counter : Broker → Nat}
    {f : Broker → Operation → List α}
    (hstep : ∀ b op, Numbered Carries (counter b) (f b op) (counter (b.perform op).broker))
    (ops : List Operation) :
    ∀ b : Broker, Numbered Carries (counter b) (gather f b ops) (counter (b.run ops).1) := by
  induction ops with
  | nil => exact fun b => .nil _
  | cons op rest ih => exact fun b => (hstep b op).append (ih _)

variable {b : Broker}

/-! ## Names and tags -/

def Operation.consumes : Operation → Bool
  | .consume .. => true
  | _ => false

def Operation.declaresExclusive : Operation → Bool
  | .declareExclusive _ => true
  | _ => false

/-- The name that an operation of a kind answers with. -/
def namedBy (kind : Operation → Bool) (b : Broker) (op : Operation) : List String :=
  match kind op, (b.perform op).answer with
  | true, .ok (.name text) => [text]
  | _, _ => []

/-- The names that the operations of a kind have answered with, in order. -/
def answered (kind : Operation → Bool) (ops : List Operation) : List String :=
  gather (namedBy kind) {} ops

/-- The counters of tags and names stand still except for these two operations. -/
theorem counters_perform (b : Broker) (op : Operation) :
    (op.consumes = false → (b.perform op).broker.issuedTags = b.issuedTags) ∧
      (op.declaresExclusive = false → (b.perform op).broker.namedQueues = b.namedQueues) := by
  rcases perform_cases b op with ⟨e, hr⟩ | hg
  · rw [hr]
    exact ⟨fun _ => rfl, fun _ => rfl⟩
  generalize b.perform op = effect at hg
  have hshrinks : ∀ {b' : Broker}, b.Shrinks b' →
      (op.consumes = false → b'.issuedTags = b.issuedTags) ∧
        (op.declaresExclusive = false → b'.namedQueues = b.namedQueues) :=
    fun h => ⟨fun _ => h.issued, fun _ => h.named⟩
  cases hg with
  | subscribed => exact ⟨nofun, fun _ => rfl⟩
  | exclusiveAdded => exact ⟨fun _ => rfl, nofun⟩
  | cancelled => exact hshrinks (.endSubscription b _ _)
  | @published c m queues =>
    exact hshrinks (.repeated (fun b name => .enqueue b name m) queues b)
  | closed => exact hshrinks (.shutdownChannel b _ _)
  | aborted => exact hshrinks (.shutdownChannel b _ _)
  | lost => exact hshrinks (.shutdownChannels b _ _)
  | _ => exact ⟨fun _ => rfl, fun _ => rfl⟩

/-- The tag that is answered carries the next number, behind that of its channel. -/
theorem tags_perform (b : Broker) (op : Operation) :
    Numbered (fun n tag => ∃ c, tag = tagName c n) b.issuedTags
      (namedBy Operation.consumes b op) (b.perform op).broker.issuedTags := by
  cases op with
  | consume c queue =>
    unfold namedBy
    rcases perform_cases b (.consume c queue) with ⟨e, hr⟩ | hg
    · rw [hr]
      exact .nil _
    · generalize b.perform (.consume c queue) = effect at hg
      cases hg with
      | subscribed => exact .one ⟨c, rfl⟩
  | _ =>
    rw [(counters_perform b _).1 rfl]
    exact .nil _

theorem names_perform (b : Broker) (op : Operation) :
    Numbered (fun n name => name = generatedName n) b.namedQueues
      (namedBy Operation.declaresExclusive b op) (b.perform op).broker.namedQueues := by
  cases op with
  | declareExclusive c =>
    unfold namedBy
    rcases perform_cases b (.declareExclusive c) with ⟨e, hr⟩ | hg
    · rw [hr]
      exact .nil _
    · generalize b.perform (.declareExclusive c) = effect at hg
      cases hg with
      | exclusiveAdded => exact .one rfl
  | _ =>
    rw [(counters_perform b _).2 rfl]
    exact .nil _

/-! ## Delivery tags -/

/-- The delivery tags handed out, to whatever subscription, in order. -/
def deliveryTags (sent : List Dispatch) : List Nat :=
  sent.filterMap fun d => d.event.delivery?.map (·.envelope.deliveryTag)

theorem deliveryTags_append (sent more : List Dispatch) :
    deliveryTags (sent ++ more) = deliveryTags sent ++ deliveryTags more :=
  List.filterMap_append

theorem deliveryTags_of_silent {sent : List Dispatch} (h : ∀ tag, deliveriesTo tag sent = []) :
    deliveryTags sent = [] := by
  rw [deliveryTags, List.filterMap_eq_nil_iff]
  intro d hd
  cases he : d.event.delivery? with
  | none => rfl
  | some delivery =>
    have hm : delivery ∈ deliveriesTo d.tag sent :=
      List.mem_filterMap.2 ⟨d.event, mem_eventsTo.2 hd, he⟩
    rw [h d.tag] at hm
    cases hm

/-- The deliveries sent on the way from one broker to another carry the next numbers. -/
abbrev Delivers (b b' : Broker) (sent : List Dispatch) : Prop :=
  Numbered Eq b.deliveries (deliveryTags sent) b'.deliveries

theorem delivers_of_silent {b' : Broker} {sent : List Dispatch}
    (hd : b'.deliveries = b.deliveries) (h : ∀ tag, deliveriesTo tag sent = []) :
    Delivers b b' sent := by
  unfold Delivers
  rw [hd, deliveryTags_of_silent h]
  exact .nil _

theorem deliveryTags_numbered (tag : String) (msgs : List Message) :
    ∀ n, Numbered Eq n
      (deliveryTags ((numbered (n + 1) msgs).map fun d => ⟨tag, .delivery d⟩))
      (n + msgs.length) := by
  induction msgs with
  | nil => exact fun n => .nil n
  | cons m rest ih =>
    intro n
    have hlen : n + (m :: rest).length = n + 1 + rest.length := by
      rw [List.length_cons]
      omega
    rw [hlen]
    exact .cons rfl (ih (n + 1))

theorem delivers_enqueue (b : Broker) (name : String) (m : Message) :
    Delivers b (b.enqueue name m).1 (b.enqueue name m).2 := by
  unfold enqueue
  split
  · exact .nil _
  · split
    · exact .one rfl
    · exact .nil _

theorem delivers_enqueueAll (m : Message) (queues : List String) :
    ∀ b : Broker, Delivers b (b.enqueueAll m queues).1 (b.enqueueAll m queues).2 := by
  induction queues with
  | nil => exact fun b => .nil _
  | cons name rest ih =>
    intro b
    unfold Delivers
    rw [enqueueAll, forEach_cons, deliveryTags_append]
    exact (delivers_enqueue b name m).append (ih _)

/-- An operation hands out the next delivery tags, one after another. -/
theorem delivers_perform (b : Broker) (op : Operation) :
    Delivers b (b.perform op).broker (b.perform op).sent := by
  rcases perform_cases b op with ⟨e, hr⟩ | hg
  · rw [hr]
    exact .nil _
  generalize b.perform op = effect at hg
  cases hg with
  | @subscribed c name q =>
    have h := deliveryTags_numbered (tagName c (b.issuedTags + 1)) q.backlog.toList b.deliveries
    rw [Log.length_toList] at h
    exact h
  | @cancelled c tag =>
    exact delivers_of_silent (deliveries_endSubscription b tag _)
      (deliveriesTo_endSubscription b rfl)
  | @published c m queues => exact delivers_enqueueAll m queues b
  | @closed c =>
    exact delivers_of_silent (deliveries_shutdownChannel b _ c) (deliveriesTo_shutdownChannel b _ c)
  | @aborted c =>
    exact delivers_of_silent (deliveries_shutdownChannel b _ c) (deliveriesTo_shutdownChannel b _ c)
  | lost =>
    exact delivers_of_silent (deliveries_shutdownChannels b _ _)
      fun tag => deliveriesTo_shutdownChannels _ tag _ b
  | _ => exact .nil _

/-! ## Histories -/

theorem run_tags (ops : List Operation) :
    Numbered (fun n tag => ∃ c, tag = tagName c n) 0 (answered Operation.consumes ops)
      (run {} ops).1.issuedTags :=
  gather_numbered tags_perform ops {}

theorem run_names (ops : List Operation) :
    Numbered (fun n name => name = generatedName n) 0 (answered Operation.declaresExclusive ops)
      (run {} ops).1.namedQueues :=
  gather_numbered names_perform ops {}

theorem run_deliveryTags (ops : List Operation) :
    ∀ b : Broker, Delivers b (b.run ops).1 (b.run ops).2 := by
  induction ops with
  | nil => exact fun b => .nil _
  | cons op rest ih =>
    intro b
    unfold Delivers
    rw [run, deliveryTags_append]
    exact (delivers_perform b op).append (ih _)

/-- **Identities.** In every history, the tags that subscriptions have been answered with differ
from each other, whatever their channels, and so do the names of exclusive queues; the delivery
tags increase in the order in which they are handed out, to all subscriptions together. Each
counter stands at the number of things that have been given out. The tag of a subscription that has
ended is unknown ever after: to cancel it fails on every open channel, and changes and sends
nothing on any. -/
theorem run_identities (ops : List Operation) :
    (answered Operation.consumes ops).Nodup ∧
      (answered Operation.declaresExclusive ops).Nodup ∧
      (deliveryTags (run {} ops).2).Pairwise (· < ·) ∧
      (run {} ops).1.issuedTags = (answered Operation.consumes ops).length ∧
      (run {} ops).1.namedQueues = (answered Operation.declaresExclusive ops).length ∧
      (run {} ops).1.deliveries = (deliveryTags (run {} ops).2).length ∧
      ∀ tag s last, EndedBy ops tag s last → ∀ more, OnIssued {} (ops ++ more) → ∀ c,
        ((run {} (ops ++ more)).1.perform (.cancel c tag)).broker = (run {} (ops ++ more)).1 ∧
        ((run {} (ops ++ more)).1.perform (.cancel c tag)).sent = [] ∧
        ((run {} (ops ++ more)).1.isOpen c = true →
          ((run {} (ops ++ more)).1.perform (.cancel c tag)).answer =
            .error (.unknownConsumer tag)) := by
  have htags := run_tags ops
  have hnames := run_names ops
  have hdeliveries := run_deliveryTags ops {}
  refine ⟨?_, ?_, ?_, ?_, ?_, ?_, ?_⟩
  · apply htags.nodup
    rintro i j tag ⟨c, rfl⟩ ⟨d, he⟩
    exact (tagName_inj.1 he).2
  · apply hnames.nodup
    rintro i j name rfl he
    exact generatedName_inj.1 he
  · apply hdeliveries.pairwise
    rintro i j x y hlt rfl rfl
    exact hlt
  · exact htags.length.trans (Nat.zero_add _)
  · exact hnames.length.trans (Nat.zero_add _)
  · exact hdeliveries.length.trans (Nat.zero_add _)
  · intro tag s last hended more hi c
    have hlater : EndedBy (ops ++ more) tag s last := hended.append more
    exact perform_cancel_of_absent (hlater.stream hi).1 c

/-- Two channels subscribe to the same queue one after the other, with a backlog for the first,
and each of them declares an exclusive queue. The first subscription ends with its channel. -/
def handover : List Operation :=
  [.openChannel, .openChannel, .declareQueue 1 "mail", .publish 2 { routingKey := "mail" },
    .consume 1 "mail", .declareExclusive 1, .publish 1 { routingKey := "mail" }, .closeChannel 1,
    .consume 2 "mail", .declareExclusive 2, .publish 2 { routingKey := "mail" }]

theorem run_identities_handover :
    answered Operation.consumes handover = ["ctag-1.1", "ctag-2.2"] ∧
      answered Operation.declaresExclusive handover = ["amq.gen-1", "amq.gen-2"] ∧
      deliveryTags (run {} handover).2 = [1, 2, 3] ∧
      (answered Operation.consumes handover).Nodup ∧
      ∀ more, OnIssued {} (handover ++ more) → (run {} (handover ++ more)).1.isOpen 2 = true →
        ((run {} (handover ++ more)).1.perform (.cancel 2 "ctag-1.1")).answer =
          .error (.unknownConsumer "ctag-1.1") := by
  obtain ⟨htags, -, -, -, -, -, hcancel⟩ := run_identities handover
  have hended : EndedBy handover "ctag-1.1" ⟨1, "mail"⟩ (.shutdown (.channelClosed 1)) := by
    refine ⟨handover.take 7, .closeChannel 1, ⟨handover.drop 8, rfl⟩, ?_⟩
    exact .shutDown (by decide) (by decide) (by decide)
  refine ⟨by decide, by decide, by decide, htags, ?_⟩
  intro more hi ho
  exact (hcancel _ _ _ hended more hi 2).2.2 ho

end Broker

end BrokeredRpc
