import Mathlib.Data.List.Perm.Subperm
import BrokeredRpc.Proofs.Broker.Outlines
import BrokeredRpc.Proofs.Network.Histories

/-!
# Replies never storm

Consumers publish as well: the reply to a request is a message, and the queue that it
goes to may have a consumer, or may be the one that the request came from. Yet replies
do not go round in circles. A reply asks for no reply, goes to one queue, and stands for
one request that asked for it (`Answering`); so handling an event uses up more than it
makes (`load`): two for an event that asks for a reply, one for any other, one for a
request that a batcher holds back.

* `Role.answers_perm`: each request is answered once at most, or held back;
* `load_move`: an event that is handled makes the load less;
* `never_storm`: however messages are published and events handled, this comes to an end,
  with as many replies at most as there were requests, and none of them answered;
* `settle_drains`: `settle` has enough fuel.
-/
namespace BrokeredRpc

/-- Where a key is filed, the entry takes another value, and the others stay. -/
theorem Table.insert_split {α : Type} {t : Table α} {key : String} {old : α}
    (hold : t.get? key = some old) (value : α) :
    ∃ before after, t.toList = before ++ (key, old) :: after ∧
      (t.insert key value).toList = before ++ (key, value) :: after := by
  have hlist : ∀ l : List (String × α), Increasing l → valueAt key l = some old →
      ∃ before after, l = before ++ (key, old) :: after ∧
        fileEntry key value l = before ++ (key, value) :: after := by
    intro l
    induction l with
    | nil => exact fun _ h => by cases h
    | cons e rest ih =>
      obtain ⟨k, v⟩ := e
      intro hl h
      rw [valueAt] at h
      rw [fileEntry]
      split at h
      · next he =>
        subst he
        cases h
        exact ⟨[], rest, rfl, by rw [if_neg (String.lt_irrefl k), if_pos rfl]; rfl⟩
      · next hne =>
        have hlt : k < key := List.rel_of_pairwise_cons hl ((mem_iff_valueAt hl.of_cons).2 h)
        obtain ⟨before, after, hrest, hnew⟩ := ih hl.of_cons h
        refine ⟨(k, v) :: before, after, by rw [hrest]; rfl, ?_⟩
        rw [if_neg (String.lt_asymm hlt), if_neg (Ne.symm hne), hnew]
        rfl
  exact hlist t.toList t.increasing hold

/-! ## Who answers what -/

/-- Whether the sender asks for a reply. -/
def Request.asks (r : Request) : Bool := r.properties.replyTo.isSome

/-- The request that an event brings, if it brings one. -/
def Event.requests : Event → List Request
  | .delivery d => [d.request]
  | _ => []

/-- The message is the reply to the request: it goes to the queue that the request names, and
asks for nothing. -/
structure Answering (r : Request) (m : Message) : Prop where
  asked : r.properties.replyTo = some m.routingKey
  direct : m.exchange = Broker.defaultExchange
  silent : m.properties.replyTo = none

theorem Answering.asks {r : Request} {m : Message} (h : Answering r m) : r.asks = true := by
  rw [Request.asks, h.asked]
  rfl

/-- What is delivered of a reply is not what any reply is for. -/
theorem Answering.not_answered {r r' : Request} {m m' : Message} (h : Answering r m)
    (h' : Answering r' m') (number : Nat) : (m'.deliver number).request ≠ r := by
  rintro rfl
  have hasked := h.asked
  rw [show (m'.deliver number).request.properties.replyTo = none from h'.silent] at hasked
  cases hasked

theorem answering_of_replyTo? {r : Request} {reply : Properties} {body : Bytes} {m : Message}
    (hs : reply.replyTo = none) (h : replyTo? r.properties reply body = some m) :
    Answering r m := by
  unfold replyTo? replyTo at h
  split at h
  · cases h
  · cases h
  · next hq _ => cases h; exact ⟨hq, rfl, hs⟩

theorem Server.replyTo_report (handled : CallHandled) :
    (Server.report handled).1.replyTo = handled.reply.replyTo := by
  unfold Server.report
  split <;> rfl

namespace Role

/-- The requests that a consumer holds back. -/
def held : Role → List Request
  | .batcher b => b.held.toList
  | _ => []

/-- The requests that are answered when an event arrives, each with its reply. -/
def answers : Role → Event → List (Request × Message)
  | .server s, .delivery d => (s.handle d).2.toList.map (Prod.mk d.request)
  | .batcher b, .delivery d =>
    (b.hold d.request).2.filterMap fun r => (Batcher.answer? r).map (Prod.mk r)
  | _, _ => []

/-- Such a consumer does nothing on its own account. Its handler, which can publish nothing,
sets no reply address either, and its releases leave requests out at most. -/
def Tame : Role → Prop
  | .server s => ∀ envelope properties body,
    (s.handler.handleCall envelope properties body {}).reply.replyTo = none
  | .batcher b => ∀ batch, (b.release batch).Subperm batch
  | _ => True

variable {role : Role}

theorem receive_snd (role : Role) (event : Event) :
    (role.receive event).2 = (role.answers event).map Prod.snd := by
  cases event with
  | delivery d =>
    cases role with
    | server s => rw [answers, List.map_map]; exact (List.map_id _).symm
    | batcher b =>
      rw [answers, List.map_filterMap]
      refine congrArg (fun f => (b.hold d.request).2.filterMap f) ?_
      funext r
      rw [Option.map_map]
      exact Option.map_id'.symm
    | _ => rfl
  | _ => cases role <;> rfl

theorem Tame.answering (ht : role.Tame) {event : Event} {a : Request × Message}
    (ha : a ∈ role.answers event) : Answering a.1 a.2 := by
  cases event with
  | delivery d =>
    cases role with
    | server s =>
      obtain ⟨m, hm, rfl⟩ := List.mem_map.1 ha
      rw [Option.mem_toList, Server.handle] at hm
      split at hm
      · cases hm
      · exact answering_of_replyTo? ((Server.replyTo_report _).trans (ht _ _ _)) hm
    | batcher b =>
      obtain ⟨r, -, hr⟩ := List.mem_filterMap.1 ha
      obtain ⟨m, hm, rfl⟩ := Option.map_eq_some_iff.1 hr
      exact answering_of_replyTo? (rfl : ({} : Properties).replyTo = none) hm
    | _ => cases ha
  | _ => cases role <;> cases ha

theorem Tame.receive (ht : role.Tame) (event : Event) : (role.receive event).1.Tame := by
  cases role with
  | server s =>
    cases event with
    | delivery d =>
      show (Role.server (s.handle d).1).Tame
      unfold Server.handle
      split <;> exact ht
    | _ => exact ht
  | batcher b =>
    cases event with
    | delivery d =>
      show (Role.batcher (b.hold d.request).1).Tame
      unfold Batcher.hold
      dsimp only
      split <;> exact ht
    | _ => exact ht
  | _ => cases event <;> exact trivial

theorem answered_sublist (released : List Request) (f : Request → Option Message) :
    ((released.filterMap fun r => (f r).map (Prod.mk r)).map Prod.fst).Sublist released := by
  induction released with
  | nil => exact .slnil
  | cons r rest ih =>
    cases hf : f r with
    | none => simpa only [List.filterMap_cons, hf, Option.map_none] using ih.cons r
    | some m =>
      simpa only [List.filterMap_cons, hf, Option.map_some, List.map_cons] using ih.cons_cons r

/-- **One event.** No request is answered more often than it has come, or answered and held
back as well. -/
theorem Tame.subperm (ht : role.Tame) (event : Event) :
    ((role.answers event).map Prod.fst ++ (role.receive event).1.held).Subperm
      (role.held ++ event.requests) := by
  cases event with
  | delivery d =>
    cases role with
    | server s =>
      show (((s.handle d).2.toList.map (Prod.mk d.request)).map Prod.fst ++ []).Subperm
        [d.request]
      rw [List.append_nil, List.map_map]
      cases (s.handle d).2 with
      | none => exact List.nil_subperm
      | some m => exact .refl _
    | batcher b =>
      show (((b.hold d.request).2.filterMap fun r => (Batcher.answer? r).map (Prod.mk r)).map
        Prod.fst ++ (b.hold d.request).1.held.toList).Subperm (b.held.toList ++ [d.request])
      unfold Batcher.hold
      rw [← Log.toList_push]
      dsimp only
      split
      · exact .refl _
      · rw [Log.toList_empty, List.append_nil]
        exact (answered_sublist _ _).subperm.trans (ht _)
    | _ => exact List.nil_subperm
  | _ =>
    show List.Subperm _ (role.held ++ [])
    rw [List.append_nil]
    cases role <;> exact .refl _

end Role

/-! ## How many copies -/

namespace Broker

variable {b b' : Broker} {m : Message}

def Operation.message? : Operation → Option Message
  | .publish _ m => some m
  | _ => none

/-- The queues that a message goes to. -/
def reach (b : Broker) (m : Message) : List String :=
  (b.route? m.exchange m.routingKey).getD []

theorem reach_le_one (hm : m.exchange = defaultExchange) : (b.reach m).length ≤ 1 := by
  rw [reach, route?, if_pos hm, Option.getD_some]
  split
  · exact Nat.le_refl 1
  · exact Nat.zero_le 1

theorem reach_congr (h : b'.outline = b.outline) (m : Message) : b'.reach m = b.reach m := by
  have hx : b'.outline.exchanges = b.outline.exchanges := congrArg Broker.exchanges h
  have hx : b'.exchanges = b.exchanges := hx
  have hq : ∀ name, b'.hasQueue name = b.hasQueue name := by
    intro name
    have := congrArg (fun o : Broker => (o.queues.get? name).isSome) h
    simpa only [get?_queues_outline, Option.isSome_map, hasQueue, Table.contains] using this
  simp only [reach, route?, hx, hq]

theorem reach_publish (b : Broker) (channel : Nat) (m m' : Message) :
    (b.publish channel m).broker.reach m' = b.reach m' :=
  reach_congr (outline_publish b channel m) m'

/-- At most one copy is sent for each queue, and nothing else is. -/
theorem enqueueAll_sent (m : Message) (queues : List String) : ∀ b : Broker,
    (b.enqueueAll m queues).2.length ≤ queues.length ∧
      ∀ d ∈ (b.enqueueAll m queues).2, ∃ number, d.event = .delivery (m.deliver number) := by
  induction queues with
  | nil => exact fun _ => ⟨Nat.le_refl 0, fun d hd => absurd hd List.not_mem_nil⟩
  | cons name rest ih =>
    intro b
    obtain ⟨hlen, hmem⟩ := ih (b.enqueue name m).1
    have hfirst : (b.enqueue name m).2.length ≤ 1 ∧
        ∀ d ∈ (b.enqueue name m).2, ∃ number, d.event = .delivery (m.deliver number) := by
      unfold enqueue
      split
      · exact ⟨Nat.zero_le 1, fun d hd => absurd hd List.not_mem_nil⟩
      · split
        · exact ⟨Nat.le_refl 1, fun d hd => ⟨b.deliveries + 1, by rw [List.mem_singleton.1 hd]⟩⟩
        · exact ⟨Nat.zero_le 1, fun d hd => absurd hd List.not_mem_nil⟩
    rw [enqueueAll, forEach_cons]
    refine ⟨?_, fun d hd => (List.mem_append.1 hd).elim (hfirst.2 d) (hmem d)⟩
    rw [List.length_append, List.length_cons]
    have := Nat.add_le_add hfirst.1 hlen
    rwa [Nat.add_comm 1] at this

theorem publish_sent (b : Broker) (channel : Nat) (m : Message) :
    (b.publish channel m).sent.length ≤ (b.reach m).length ∧
      ∀ d ∈ (b.publish channel m).sent, ∃ number, d.event = .delivery (m.deliver number) := by
  rw [publish, onChannel, reach]
  split
  · exact ⟨Nat.zero_le _, fun d hd => absurd hd List.not_mem_nil⟩
  · split
    · exact ⟨Nat.zero_le _, fun d hd => absurd hd List.not_mem_nil⟩
    · next queues hr =>
      rw [hr]
      exact enqueueAll_sent m queues b

end Broker

namespace Network

variable {n n' : Network}

/-! ## The load -/

/-- The requests that batchers hold back. -/
def held (n : Network) : List Request := n.consumers.toList.flatMap fun e => e.2.role.held

/-- The requests among the events. -/
def requests (sent : List Dispatch) : List Request := sent.flatMap fun d => d.event.requests

/-- What handling events uses up: two for each event that asks for a reply, one for any other
event, and one for each request that asks for a reply and is held back. -/
def load (n : Network) : Nat :=
  n.transit.length + (requests n.transit).countP Request.asks + n.held.countP Request.asks

theorem countP_requests {m : Message} {sent : List Dispatch}
    (hs : ∀ d ∈ sent, ∃ number, d.event = .delivery (m.deliver number)) :
    (requests sent).countP Request.asks =
      if m.properties.replyTo.isSome then sent.length else 0 := by
  induction sent with
  | nil => simp [requests]
  | cons d rest ih =>
    obtain ⟨number, hd⟩ := hs d List.mem_cons_self
    have hrest := ih fun d' hd' => hs d' (List.mem_cons_of_mem d hd')
    rw [requests, List.flatMap_cons, hd, List.countP_append]
    refine (congrArg (_ + ·) hrest).trans ?_
    rw [Event.requests, List.countP_singleton, Request.asks]
    show (if m.properties.replyTo.isSome then 1 else 0) + _ = _
    split
    · exact Nat.add_comm 1 _
    · rfl

theorem load_absorb (n : Network) (channel : Nat) (m : Message) :
    (n.absorb (n.broker.publish channel m)).2.load ≤
      n.load + if m.properties.replyTo.isSome then 2 * (n.broker.reach m).length
        else (n.broker.reach m).length := by
  obtain ⟨hlen, hsent⟩ := Broker.publish_sent n.broker channel m
  have hcount := countP_requests hsent
  show (n.transit ++ (n.broker.publish channel m).sent).length +
    (requests (n.transit ++ (n.broker.publish channel m).sent)).countP Request.asks +
    n.held.countP Request.asks ≤ _
  rw [requests, List.flatMap_append, List.countP_append, List.length_append, load]
  rw [requests] at hcount
  rw [hcount, requests]
  split <;> omega

theorem load_publishAll {messages : List Message} (channel : Nat)
    (hm : ∀ m ∈ messages, m.exchange = Broker.defaultExchange ∧ m.properties.replyTo = none) :
    ∀ n : Network, (n.publishAll channel messages).load ≤ n.load + messages.length := by
  induction messages with
  | nil => exact fun n => Nat.le_refl _
  | cons m rest ih =>
    intro n
    obtain ⟨hx, hr⟩ := hm m List.mem_cons_self
    have hrest := ih (fun m' hm' => hm m' (List.mem_cons_of_mem m hm'))
      (n.absorb (n.broker.publish channel m)).2
    have hfirst := load_absorb n channel m
    have hreach : (n.broker.reach m).length ≤ 1 := Broker.reach_le_one hx
    rw [hr] at hfirst
    have hone : (n.absorb (n.broker.publish channel m)).2.load ≤ n.load + 1 :=
      Nat.le_trans hfirst (Nat.add_le_add_left hreach _)
    rw [List.length_cons]
    exact Nat.le_trans hrest (by omega)

/-! ## One event is handled -/

/-- None of the consumers does anything on its own account. -/
def Tame (n : Network) : Prop := ∀ tag k, n.consumers.get? tag = some k → k.role.Tame

/-- The requests that are answered when the next event of a subscription is handled, each with
its reply. -/
def answered (n : Network) (tag : String) : List (Request × Message) :=
  match nextFor? tag n.transit, n.consumers.get? tag with
  | some (event, _), some k => k.role.answers event
  | _, _ => []

/-- What handling the event comes to: a consumer has changed to `n'`, and then replies are
published. -/
structure Handling (n : Network) (tag : String) (event : Event) (channel : Nat) (n' : Network) :
    Prop where
  handled : n.handleNext tag = n'.publishAll channel ((n.answered tag).map Prod.snd)
  published : n.published tag = (n.answered tag).map fun a => .publish channel a.2
  broker : n'.broker = n.broker
  transit : n.transit.Perm (⟨tag, event⟩ :: n'.transit)
  tame : n'.Tame
  answering : ∀ a ∈ n.answered tag, Answering a.1 a.2
  subperm : ((n.answered tag).map Prod.fst ++ n'.held).Subperm (n.held ++ event.requests)

theorem Tame.handling (ht : n.Tame) {tag : String} {event : Event} {others : List Dispatch}
    (h : nextFor? tag n.transit = some (event, others)) :
    ∃ channel n', Handling n tag event channel n' := by
  have hperm := perm_of_nextFor? h
  have hfew := (List.sublist_append_left n.held event.requests).subperm
  have hhandles := handleNext_of_some h
  generalize hn : n.handleNext tag = n'', hp : n.published tag = asked at hhandles
  cases hhandles with
  | nobody hk =>
    have ha : n.answered tag = [] := by simp only [answered, h, hk]
    refine ⟨0, { n with transit := others }, ?_, ?_, rfl, hperm, ht,
      fun a hm => absurd (ha ▸ hm) List.not_mem_nil, by rw [ha]; exact hfew⟩
    · rw [hn, ha]; rfl
    · rw [hp, ha]; rfl
  | @client channel index hk =>
    have hnone : (Role.replies index).answers event = [] := by cases event <;> rfl
    have ha : n.answered tag = [] := by simp only [answered, h, hk, hnone]
    refine ⟨0, { n with
      transit := others
      endpoints := n.endpoints.modify index fun e =>
        { e with client := e.client.receive tag event } }, ?_, ?_, rfl, hperm, ht,
      fun a hm => absurd (ha ▸ hm) List.not_mem_nil, by rw [ha]; exact hfew⟩
    · rw [hn, ha]; rfl
    · rw [hp, ha]; rfl
  | @role channel role hk hr =>
    have ha : n.answered tag = role.answers event := by simp only [answered, h, hk]
    have hrole := ht tag _ hk
    refine ⟨channel, { n with
      transit := others
      consumers := n.consumers.insert tag { channel, role := (role.receive event).1 } },
      ?_, ?_, rfl, hperm, fun t k hk' => ?_, fun a hm => hrole.answering (ha ▸ hm), ?_⟩
    · rw [hn, ha, ← Role.receive_snd]
    · rw [hp, ha, Role.receive_snd, List.map_map]
      rfl
    · rw [Table.get?_insert] at hk'
      split at hk'
      · cases hk'; exact hrole.receive event
      · exact ht t k hk'
    · -- Only this consumer holds back other requests than before.
      obtain ⟨before, after, hold, hnew⟩ :=
        Table.insert_split hk { channel, role := (role.receive event).1 }
      have hone := hrole.subperm event
      rw [ha, held, held, hold, hnew]
      refine List.subperm_ext_iff.2 fun r _ => ?_
      have hcount := hone.count_le r
      simp only [List.flatMap_append, List.flatMap_cons, List.count_append] at hcount ⊢
      omega

theorem Handling.load_lt {tag : String} {event : Event} {channel : Nat}
    (h : Handling n tag event channel n') : (n.handleNext tag).load < n.load := by
  have hsilent : ∀ m ∈ (n.answered tag).map Prod.snd,
      m.exchange = Broker.defaultExchange ∧ m.properties.replyTo = none := by
    intro m hm
    obtain ⟨a, ha, rfl⟩ := List.mem_map.1 hm
    exact ⟨(h.answering a ha).direct, (h.answering a ha).silent⟩
  have hreplies := load_publishAll channel hsilent n'
  have hasks : ((n.answered tag).map Prod.fst).countP Request.asks = (n.answered tag).length := by
    refine (List.countP_eq_length.2 fun r hr => ?_).trans (List.length_map _)
    obtain ⟨a, ha, rfl⟩ := List.mem_map.1 hr
    exact (h.answering a ha).asks
  have hkept := h.subperm.countP_le Request.asks
  have hlen := h.transit.length_eq
  have hcount := (h.transit.flatMap_right fun d => d.event.requests).countP_eq Request.asks
  rw [List.countP_append, List.countP_append, hasks] at hkept
  rw [List.length_cons] at hlen
  rw [List.flatMap_cons, List.countP_append] at hcount
  dsimp only at hcount
  rw [← h.handled, List.length_map] at hreplies
  simp only [load, requests] at hreplies ⊢
  omega

/-! ## Any order -/

/-- A message is published on a channel, or the next event of a subscription is handled. -/
inductive Move
  | publish (channel : Nat) (m : Message)
  | handle (tag : String)

def Move.message? : Move → Option Message
  | .publish _ m => some m
  | .handle _ => none

def move (n : Network) : Move → Network
  | .publish channel m => (n.absorb (n.broker.publish channel m)).2
  | .handle tag => n.handleNext tag

def moves (n : Network) (l : List Move) : Network := l.foldl move n

/-- What `f` says of each step of a run, one after another. -/
def along {σ ι α : Type} (step : σ → ι → σ) (f : σ → ι → List α) : σ → List ι → List α
  | _, [] => []
  | s, i :: rest => f s i ++ along step f (step s i) rest

/-- The event that a move handles, if there is one. -/
def taken (n : Network) : Move → List Dispatch
  | .publish .. => []
  | .handle tag => ((nextFor? tag n.transit).map fun next => ⟨tag, next.1⟩).toList

/-- What the consumer asks of the broker when a move handles an event. -/
def publications (n : Network) : Move → List Broker.Operation
  | .publish .. => []
  | .handle tag => n.published tag

/-- The requests that are answered at a move, each with its reply. -/
def replies (n : Network) : Move → List (Request × Message)
  | .publish .. => []
  | .handle tag => n.answered tag

/-- What a move does, or moves one after another, during which these events are handled, this
is published by consumers, and these requests are answered. No more is handled than is used up
or comes from elsewhere. -/
structure Moved (n : Network) (elsewhere : List Message) (handled : List Dispatch)
    (published : List Broker.Operation) (answers : List (Request × Message)) (n' : Network) :
    Prop where
  tame : n'.Tame
  reach : ∀ m, n'.broker.reach m = n.broker.reach m
  published : published.map Broker.Operation.message? = answers.map fun a => some a.2
  answering : ∀ a ∈ answers, Answering a.1 a.2
  subperm : (answers.map Prod.fst ++ n'.held).Subperm (n.held ++ requests handled)
  load : n'.load + handled.length ≤ n.load + 2 * (elsewhere.flatMap n.broker.reach).length

theorem Moved.refl (ht : n.Tame) : Moved n [] [] [] [] n where
  tame := ht
  reach _ := rfl
  published := rfl
  answering a ha := absurd ha List.not_mem_nil
  subperm := by rw [requests, List.flatMap_nil, List.append_nil]; exact .refl _
  load := Nat.le_refl _

theorem Moved.trans {n'' : Network} {elsewhere elsewhere' : List Message}
    {handled handled' : List Dispatch} {published published' : List Broker.Operation}
    {answers answers' : List (Request × Message)}
    (h : Moved n elsewhere handled published answers n')
    (h' : Moved n' elsewhere' handled' published' answers' n'') :
    Moved n (elsewhere ++ elsewhere') (handled ++ handled') (published ++ published')
      (answers ++ answers') n'' where
  tame := h'.tame
  reach m := (h'.reach m).trans (h.reach m)
  published := by rw [List.map_append, List.map_append, h.published, h'.published]
  answering a ha := (List.mem_append.1 ha).elim (h.answering a) (h'.answering a)
  subperm := by
    have hlater := (List.subperm_append_left (answers.map Prod.fst)).2 h'.subperm
    have hfirst := (List.subperm_append_right (requests handled')).2 h.subperm
    rw [List.append_assoc] at hfirst
    simpa only [List.map_append, requests, List.flatMap_append, List.append_assoc]
      using hlater.trans hfirst
  load := by
    have hlater := h'.load
    rw [funext h.reach] at hlater
    rw [List.length_append, List.flatMap_append, List.length_append]
    have hfirst := h.load
    omega

theorem consumers_publishAll (n : Network) (channel : Nat) (messages : List Message) :
    (n.publishAll channel messages).consumers = n.consumers := by
  rw [publishAll_eq_run]

theorem reach_publishAll (channel : Nat) (m : Message) (messages : List Message) :
    ∀ n : Network, (n.publishAll channel messages).broker.reach m = n.broker.reach m := by
  induction messages with
  | nil => exact fun _ => rfl
  | cons first rest ih =>
    exact fun n => (ih (n.absorb (n.broker.publish channel first)).2).trans
      (Broker.reach_publish n.broker channel first m)

/-- **One move.** -/
theorem Tame.moved (ht : n.Tame) (mv : Move) :
    Moved n mv.message?.toList (n.taken mv) (n.publications mv) (n.replies mv) (n.move mv) := by
  cases mv with
  | publish channel m =>
    refine ⟨ht, fun m' => Broker.reach_publish n.broker channel m m', rfl,
      fun a ha => absurd ha List.not_mem_nil, ?_, ?_⟩
    · show n.held.Subperm (n.held ++ [])
      rw [List.append_nil]
    · have hload := load_absorb n channel m
      show (n.absorb (n.broker.publish channel m)).2.load ≤
        n.load + 2 * (n.broker.reach m ++ []).length
      rw [List.append_nil]
      split at hload <;> omega
  | handle tag =>
    cases hnext : nextFor? tag n.transit with
    | none =>
      have hmove : n.move (.handle tag) = n := (handleNext_of_none hnext).1
      have htaken : n.taken (.handle tag) = [] := by rw [taken, hnext]; rfl
      have hpublished : n.publications (.handle tag) = [] := (handleNext_of_none hnext).2
      have hreplies : n.replies (.handle tag) = [] := by
        rw [replies, answered, hnext]
      rw [hmove, htaken, hpublished, hreplies]
      exact .refl ht
    | some next =>
      obtain ⟨event, others⟩ := next
      obtain ⟨channel, n', h⟩ := ht.handling hnext
      have htaken : n.taken (.handle tag) = [⟨tag, event⟩] := by rw [taken, hnext]; rfl
      have hconsumers : (n.handleNext tag).consumers = n'.consumers := by
        rw [h.handled, consumers_publishAll]
      rw [htaken]
      constructor
      case tame => exact fun t k hk => h.tame t k (hconsumers ▸ hk)
      case reach =>
        intro m
        show (n.handleNext tag).broker.reach m = _
        rw [h.handled, reach_publishAll, h.broker]
      case published =>
        show (n.published tag).map _ = (n.answered tag).map _
        rw [h.published, List.map_map]
        rfl
      case answering => exact h.answering
      case subperm =>
        show ((n.answered tag).map Prod.fst ++ (n.handleNext tag).held).Subperm
          (n.held ++ (event.requests ++ []))
        rw [held, hconsumers, List.append_nil]
        exact h.subperm
      case load => exact h.load_lt

/-- **Any number of moves.** -/
theorem Tame.moved_run (l : List Move) : ∀ {n : Network}, n.Tame →
    Moved n (l.filterMap Move.message?) (along move taken n l) (along move publications n l)
      (along move replies n l) (n.moves l) := by
  induction l with
  | nil => exact fun ht => .refl ht
  | cons mv rest ih =>
    intro n ht
    have hfirst := ht.moved mv
    have hsplit : (mv :: rest).filterMap Move.message? =
        mv.message?.toList ++ rest.filterMap Move.message? := by
      cases mv <;> rfl
    rw [hsplit]
    exact hfirst.trans (ih hfirst.tame)

/-! ## The end -/

theorem taken_of_mem {d : Dispatch} (hd : d ∈ n.transit) :
    ∃ event, n.taken (.handle d.tag) = [⟨d.tag, event⟩] := by
  have hnext : ∀ transit : List Dispatch, d ∈ transit → (nextFor? d.tag transit).isSome := by
    intro transit
    induction transit with
    | nil => exact fun hd => absurd hd List.not_mem_nil
    | cons first rest ih =>
      intro hd
      rw [nextFor?]
      split
      · rfl
      · next hne =>
        rw [Option.isSome_map]
        refine ih ((List.mem_cons.1 hd).resolve_left ?_)
        rintro rfl
        exact hne rfl
  obtain ⟨next, hnext⟩ := Option.isSome_iff_exists.1 (hnext n.transit hd)
  exact ⟨next.1, by rw [taken, hnext]; rfl⟩

theorem Tame.settleWithin_drains (fuel : Nat) : ∀ {n : Network}, n.Tame → n.load ≤ fuel →
    (n.settleWithin fuel).transit = [] := by
  induction fuel with
  | zero =>
    intro n _ hload
    show n.transit = []
    rw [load] at hload
    exact List.eq_nil_of_length_eq_zero (by omega)
  | succ fuel ih =>
    intro n ht hload
    rw [settleWithin]
    split
    · next hnil => exact hnil
    · next d rest hcons =>
      have hmoved := ht.moved (.handle d.tag)
      obtain ⟨event, htaken⟩ := taken_of_mem (hcons ▸ List.mem_cons_self : d ∈ n.transit)
      have hless := hmoved.load
      rw [htaken] at hless
      exact ih hmoved.tame (by
        have : (n.handleNext d.tag).load + 1 ≤ n.load + 0 := hless
        omega)

theorem length_held (n : Network) : n.held.length = n.heldBack := by
  rw [held, List.length_flatMap, heldBack, ← List.sum_eq_foldl]
  refine congrArg List.sum (List.map_congr_left fun e _ => ?_)
  cases e.2.role with
  | batcher b => exact Log.length_toList b.held
  | _ => rfl

theorem length_requests_le (sent : List Dispatch) : (requests sent).length ≤ sent.length := by
  induction sent with
  | nil => exact Nat.le_refl 0
  | cons d rest ih =>
    have hone : d.event.requests.length ≤ 1 := by
      cases d.event with
      | delivery => exact Nat.le_refl 1
      | _ => exact Nat.zero_le 1
    rw [requests] at ih ⊢
    rw [List.flatMap_cons, List.length_append, List.length_cons]
    omega

theorem load_le_settleFuel (n : Network) : n.load ≤ n.settleFuel := by
  have htransit := List.countP_le_length (p := Request.asks) (l := requests n.transit)
  have hrequests := length_requests_le n.transit
  have hheld := List.countP_le_length (p := Request.asks) (l := n.held)
  rw [length_held] at hheld
  have hfew : n.load ≤ 2 * (n.transit.length + n.heldBack + 1) * 1 := by
    rw [load]
    omega
  refine Nat.le_trans hfew (Nat.mul_le_mul_left _ ?_)
  exact Nat.mul_pos (Nat.succ_pos _) (Nat.succ_pos _)

/-- **The fuel is enough**: where consumers do nothing on their own account, everything in
transit is handled. -/
theorem Tame.settle_drains (ht : n.Tame) : n.settle.transit = [] :=
  ht.settleWithin_drains _ n.load_le_settleFuel

/-- **Replies never storm.** Let none of the consumers do anything on its own account, and let
messages be published and events be handled in any order, whatever is in transit and held back
before.

* What the consumers publish is replies, at most as many as requests for a reply were handled
  meanwhile or held back at the start.
* Each of them goes to the queue that its request names, and no request that is answered is what
  is delivered of a reply.
* The number of events that are handled has a bound that depends on the messages only, and not
  on the order. Up to there, whatever is in transit can be handled next; and nothing is in
  transit once everything has been handled. -/
theorem never_storm (ht : n.Tame) (l : List Move) :
    (along move publications n l).length ≤
        (requests (along move taken n l)).countP Request.asks + n.held.countP Request.asks ∧
      (along move publications n l).map Broker.Operation.message? =
        (along move replies n l).map (fun a => some a.2) ∧
      (∀ a ∈ along move replies n l, Answering a.1 a.2 ∧
        ∀ a' ∈ along move replies n l, ∀ number, (a'.2.deliver number).request ≠ a.1) ∧
      (along move taken n l).length ≤
        n.load + 2 * ((l.filterMap Move.message?).flatMap n.broker.reach).length ∧
      (∀ d ∈ (n.moves l).transit, ∃ event, (n.moves l).taken (.handle d.tag) = [⟨d.tag, event⟩]) ∧
      (n.moves l).settle.transit = [] := by
  have h := ht.moved_run l
  refine ⟨?_, h.published, fun a ha => ⟨h.answering a ha, fun a' ha' =>
    (h.answering a ha).not_answered (h.answering a' ha')⟩, ?_, fun d hd => taken_of_mem hd,
    h.tame.settle_drains⟩
  · -- Each reply stands for a request that asks for one.
    have hasks : ((along move replies n l).map Prod.fst).countP Request.asks =
        ((along move replies n l).map Prod.fst).length := by
      refine List.countP_eq_length.2 fun r hr => ?_
      obtain ⟨a, ha, rfl⟩ := List.mem_map.1 hr
      exact (h.answering a ha).asks
    have hcount := h.subperm.countP_le Request.asks
    have hlength := congrArg List.length h.published
    rw [List.countP_append, List.countP_append, hasks, List.length_map] at hcount
    rw [List.length_map, List.length_map] at hlength
    omega
  · exact Nat.le_trans (Nat.le_add_left _ _) h.load

/-- A server that answers with what it is asked, and a desk that answers one request of two. -/
def circle : Network := (System.run {}
  [.operate .openChannel, .operate (.declareQueue 1 "work"), .operate (.declareQueue 1 "desk"),
    .subscribe 1 "work" (.server { handler := .echo }),
    .subscribe 1 "desk" (.batcher { size := 2, release := List.tail })]).network

/-- A request to one queue whose reply is to go to another, or to the same. -/
def roundTrip (queue back id : String) : Message where
  routingKey := queue
  properties := { replyTo := some back, correlationId := some id }

/-- Whatever the order, three requests that point to the served queues, one of them to where it
is sent, lead to no more than six events; and here is one order. -/
theorem never_storm_circle :
    circle.Tame ∧
      (∀ l, l.filterMap Move.message? = [roundTrip "work" "work" "1", roundTrip "desk" "desk" "2",
        roundTrip "desk" "work" "3"] → (along move taken circle l).length ≤ 6) ∧
      ∃ l, l.filterMap Move.message? = [roundTrip "work" "work" "1", roundTrip "desk" "desk" "2",
          roundTrip "desk" "work" "3"] ∧
        (along move publications circle l).length = 2 ∧ (along move taken circle l).length = 5 ∧
        (circle.moves l).transit = [] := by
  have ht : circle.Tame := by
    intro tag k hk
    have hconsumers : circle.consumers.toList =
        [("ctag-1.1", ⟨1, .server { handler := .echo }⟩),
          ("ctag-1.2", ⟨1, .batcher { size := 2, release := List.tail }⟩)] := rfl
    rw [← Table.mem_toList_iff, hconsumers] at hk
    rcases List.mem_cons.1 hk with he | hk
    · cases he
      exact fun _ _ _ => rfl
    · cases List.mem_singleton.1 hk
      exact fun batch => (List.tail_sublist batch).subperm
  refine ⟨ht, fun l hl => ?_, ?_⟩
  · obtain ⟨-, -, -, hbound, -, -⟩ := never_storm ht l
    rw [hl] at hbound
    exact hbound
  · exact ⟨[.publish 1 (roundTrip "work" "work" "1"), .publish 1 (roundTrip "desk" "desk" "2"),
      .handle "ctag-1.1", .handle "ctag-1.2", .publish 1 (roundTrip "desk" "work" "3"),
      .handle "ctag-1.2", .handle "ctag-1.1", .handle "ctag-1.1"], rfl, rfl, rfl, rfl⟩

end Network

end BrokeredRpc
