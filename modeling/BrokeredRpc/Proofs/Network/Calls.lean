import BrokeredRpc.Network.Responders
import BrokeredRpc.Proofs.Broker.Delivery
import BrokeredRpc.Proofs.Client.Waiting
import BrokeredRpc.Proofs.Network.Soundness

/-!
# A remote call is a call of the handler

An open client calls, a server handles the request, and the reply comes back:
two messages through the broker, each handled when its consumer has its turn.
`Phase` follows such a call. The request is in transit, then the reply is, behind
replies to other calls, then the caller's slot is filled; each turn keeps the
phase or moves on, and the consumer that is `due` moves on when its turn comes.

* `Phase.turn`: what one turn does to a call;
* `System.Reachable.call_returns`: whatever the order of the turns, the caller
  gets what the handler has left for it, and the handler has run once.
-/
namespace BrokeredRpc

namespace Broker

variable {b : Broker}

/-! ## Messages to a single queue -/

/-- What is published under this key goes to the queue and to no other: the key is its name on
the default exchange, or the exchange has a binding of the key to it and to no other. -/
def RoutesAlone (b : Broker) (exchange key queue : String) : Prop :=
  exchange = defaultExchange ∧ key = queue ∨
    ∃ bindings, b.exchanges.get? exchange = some bindings ∧
      ∀ name, Binding.mk key name ∈ bindings ↔ name = queue

theorem RoutesAlone.route? {exchange key queue : String} (h : b.RoutesAlone exchange key queue)
    (hb : b.Bound) (hq : (b.queues.get? queue).isSome) :
    b.route? exchange key = some [queue] := by
  have hmem : ∀ name, name ∈ (b.route? exchange key).getD [] ↔ name = queue := by
    intro name
    rw [mem_route?]
    obtain ⟨rfl, rfl⟩ | ⟨bindings, hx, hone⟩ := h
    · rw [if_pos rfl]
      exact ⟨fun h => h.1.symm, fun he => ⟨he.symm, he ▸ hq⟩⟩
    · have hne : exchange ≠ defaultExchange := by
        rintro rfl
        rw [hb.unlisted] at hx; cases hx
      rw [if_neg hne, ← hone name]
      refine ⟨fun ⟨bindings', hx', hm⟩ => ?_, fun hm => ⟨bindings, hx, hm⟩⟩
      rw [hx] at hx'; cases hx'
      exact hm
  cases hr : b.route? exchange key with
  | none =>
    rw [hr] at hmem
    exact absurd ((hmem queue).2 rfl) List.not_mem_nil
  | some queues =>
    rw [hr, Option.getD_some] at hmem
    have hnodup := nodup_route? hb hr
    cases queues with
    | nil => exact absurd ((hmem queue).2 rfl) List.not_mem_nil
    | cons first rest =>
      obtain rfl := (hmem first).1 List.mem_cons_self
      have hrest : rest = [] := List.eq_nil_iff_forall_not_mem.2 fun name hm => by
        obtain rfl := (hmem name).1 (List.mem_cons_of_mem _ hm)
        exact (List.nodup_cons.1 hnodup).1 hm
      rw [hrest]

theorem route?_default {queue : String} (hq : (b.queues.get? queue).isSome) :
    b.route? defaultExchange queue = some [queue] := by
  rw [Broker.route?, if_pos rfl, hasQueue, Table.contains, if_pos hq]

theorem publish_alone {channel : Nat} {m : Message} {queue tag : String}
    (ho : b.isOpen channel = true) (hr : b.route? m.exchange m.routingKey = some [queue])
    (hc : b.consumerOn? queue = some tag) (hs : (b.subscriptions.get? tag).isSome) :
    b.publish channel m =
      { b with deliveries := b.deliveries + 1 }.grant ()
        [⟨tag, .delivery (m.deliver (b.deliveries + 1))⟩] := by
  obtain ⟨q, hq, hqc⟩ := Option.bind_eq_some_iff.1 hc
  have hconsumer : b.consumerOf? q = some tag := Option.filter_eq_some_iff.2 ⟨hqc, hs⟩
  rw [publish, onChannel, isOpen_iff.1 ho]
  simp only [hr, enqueueAll, forEach_cons, forEach_nil, enqueue, hq, hconsumer, List.append_nil]

end Broker

namespace Network

open Broker (Subscribed)

/-! ## Turns -/

theorem nextFor?_of_silent {tag : String} {transit : List Dispatch}
    (h : eventsTo tag transit = []) : nextFor? tag transit = none := by
  induction transit with
  | nil => rfl
  | cons d rest ih =>
    rw [eventsTo_cons] at h
    obtain ⟨hhead, hrest⟩ := List.append_eq_nil_iff.1 h
    have hne : d.tag ≠ tag := by
      intro he
      rw [if_pos he] at hhead; cases hhead
    rw [nextFor?, if_neg hne, ih hrest]
    rfl

theorem nextFor?_of_events {tag : String} {event : Event} {rest : List Event}
    {transit : List Dispatch} (h : eventsTo tag transit = event :: rest) :
    ∃ others, nextFor? tag transit = some (event, others) ∧ eventsTo tag others = rest ∧
      ∀ t, t ≠ tag → eventsTo t others = eventsTo t transit := by
  induction transit with
  | nil => cases h
  | cons d ds ih =>
    rw [eventsTo_cons] at h
    rw [nextFor?]
    split at h
    · next he =>
      obtain ⟨hevent, hrest⟩ := List.cons.inj h
      refine ⟨ds, by rw [if_pos he, hevent], hrest, fun t ht => ?_⟩
      rw [eventsTo_cons, if_neg fun he' => ht (he'.symm.trans he)]
      rfl
    · next hne =>
      obtain ⟨others, hnext, hothers, hkept⟩ := ih h
      refine ⟨d :: others, by rw [if_neg hne, hnext]; rfl, ?_, fun t ht => ?_⟩
      · rw [eventsTo_cons, if_neg hne]
        exact hothers
      · rw [eventsTo_cons, eventsTo_cons, hkept t ht]

theorem handleNext_of_silent {n : Network} {tag : String} (h : eventsTo tag n.transit = []) :
    n.handleNext tag = n := by
  rw [handleNext, nextFor?_of_silent h]

/-- The consumers of these subscriptions have their turns, one after another. -/
def turns (n : Network) (tags : List String) : Network := tags.foldl handleNext n

/-- The caller waits, however long it has. -/
def Pends (n : Network) (index : Nat) (id : String) : Prop :=
  ∃ c, n.client? index = some c ∧ ∀ since now, c.look id since now = (none, c)

/-- The caller has its result. -/
def Returns (n : Network) (index : Nat) (id : String) (result : Except CallError Bytes) : Prop :=
  ∃ c, n.client? index = some c ∧ ∀ since now, c.look id since now = (some result, c)

/-- This server is behind the subscription. -/
def Serves (n : Network) (station : Station) (server : Server) : Prop :=
  n.consumers.get? station.tag = some { channel := station.channel, role := .server server }

/-! ## A call under way -/

/-- Who makes a call and where the reply is to go, who answers it, and the request. -/
structure Call where
  client : Nat
  channel : Nat
  queue : String
  tag : String
  id : String
  station : Station
  /-- The server as the request finds it. -/
  server : Server
  request : Delivery

namespace Call

variable (k : Call)

/-- What the handler leaves for the request. -/
def handled : CallHandled :=
  k.server.handler.handleCall k.request.envelope k.request.properties k.request.body {}

/-- The server once it has handled the request. -/
def served : Server := { k.server with notes := k.server.notes.append k.handled.notes }

def reply : Message where
  routingKey := k.queue
  properties := (Server.report k.handled).1.set .correlationId k.id
  body := (Server.report k.handled).2

/-- The consumers that have turns during the call: the server's, the client's, and such as have
no event in transit. -/
def Involves (quiet : String → Prop) (t : String) : Prop :=
  t = k.station.tag ∨ t = k.tag ∨ quiet t

end Call

/-- The two parties of a call and what is in transit to each of them. -/
structure Line (k : Call) (quiet : String → Prop) (n : Network) (server : Server)
    (toServer toClient : List Event) : Prop where
  apart : k.station.tag ≠ k.tag
  address : k.request.properties.replyTo = some k.queue
  label : k.request.properties.correlationId = some k.id
  client : n.consumers.get? k.tag = some { channel := k.channel, role := .replies k.client }
  server : n.Serves k.station server
  consumer : n.broker.consumerOn? k.queue = some k.tag
  subscribed : (n.broker.subscriptions.get? k.tag).isSome
  speaks : n.broker.isOpen k.station.channel = true
  toServer : eventsTo k.station.tag n.transit = toServer
  toClient : eventsTo k.tag n.transit = toClient
  still : ∀ t, quiet t → t ≠ k.station.tag → t ≠ k.tag → eventsTo t n.transit = []

section

variable {k : Call} {quiet : String → Prop} {n : Network} {server : Server}
  {toServer toClient : List Event}

namespace Line

theorem passes (h : Line k quiet n server toServer toClient) {t : String} (ht : quiet t)
    (hs : t ≠ k.station.tag) (hc : t ≠ k.tag) : n.handleNext t = n :=
  handleNext_of_silent (h.still t ht hs hc)

theorem serve (h : Line k quiet n k.server [.delivery k.request] toClient) :
    ∃ number, Line k quiet (n.handleNext k.station.tag) k.served []
        (toClient ++ [.delivery (k.reply.deliver number)]) ∧
      (n.handleNext k.station.tag).endpoints = n.endpoints := by
  obtain ⟨others, hnext, hothers, hkept⟩ := nextFor?_of_events h.toServer
  have hreceive : (Role.server k.server).receive (.delivery k.request) =
      (.server k.served, [k.reply]) := by
    rw [Role.receive, Server.handle_call k.server h.address h.label]
    rfl
  obtain ⟨hhandle, -⟩ := handle_of_role (n := { n with transit := others }) h.server rfl
    (.delivery k.request)
  have hasked : (n.broker.queues.get? k.queue).isSome := by
    obtain ⟨q, hq, -⟩ := Option.bind_eq_some_iff.1 h.consumer
    rw [hq]; rfl
  have hroute : n.broker.route? k.reply.exchange k.reply.routingKey = some [k.queue] :=
    Broker.route?_default hasked
  have hpublish := Broker.publish_alone (m := k.reply) h.speaks hroute h.consumer h.subscribed
  have hstep : n.handleNext k.station.tag =
      { n with
        broker := { n.broker with deliveries := n.broker.deliveries + 1 }
        transit := others ++ [⟨k.tag, .delivery (k.reply.deliver (n.broker.deliveries + 1))⟩]
        consumers := n.consumers.insert k.station.tag
          { channel := k.station.channel, role := .server k.served } } := by
    rw [handleNext, hnext]
    refine hhandle.trans ?_
    rw [hreceive]
    exact congrArg (fun effect => (Network.absorb _ effect).2) hpublish
  rw [hstep]
  refine ⟨n.broker.deliveries + 1, ?_, rfl⟩
  constructor
  case apart => exact h.apart
  case address => exact h.address
  case label => exact h.label
  case client => exact (Table.get?_insert _ _ _ _).trans ((if_neg h.apart).trans h.client)
  case server => exact Table.get?_insert_self _ _ _
  case consumer => exact h.consumer
  case subscribed => exact h.subscribed
  case speaks => exact h.speaks
  case toServer =>
    rw [eventsTo_append, hothers, eventsTo_cons, if_neg (Ne.symm h.apart)]
    rfl
  case toClient =>
    rw [eventsTo_append, hkept _ (Ne.symm h.apart), h.toClient, eventsTo_cons, if_pos rfl]
    rfl
  case still =>
    intro t ht hs hc
    rw [eventsTo_append, hkept t hs, h.still t ht hs hc, eventsTo_cons, if_neg (Ne.symm hc)]
    rfl

theorem receive {event : Event} {rest : List Event}
    (h : Line k quiet n server toServer (event :: rest)) {e : Endpoint}
    (he : n.endpoints[k.client]? = some e) :
    Line k quiet (n.handleNext k.tag) server toServer rest ∧
      (n.handleNext k.tag).endpoints[k.client]? =
        some { e with client := e.client.receive k.tag event } := by
  obtain ⟨others, hnext, hothers, hkept⟩ := nextFor?_of_events h.toClient
  obtain ⟨hhandle, -⟩ := handle_of_client (n := { n with transit := others }) h.client he event
  have hstep : n.handleNext k.tag =
      { n with transit := others }.setClient k.client (e.client.receive k.tag event) := by
    rw [handleNext, hnext]
    exact hhandle
  rw [hstep]
  refine ⟨{ h with toServer := ?_, toClient := hothers, still := ?_ }, ?_⟩
  · exact (hkept _ h.apart).trans h.toServer
  · exact fun t ht hs hc => (hkept t hc).trans (h.still t ht hs hc)
  · exact getElem?_setClient_self he _

end Line

/-! ## Phases -/

/-- How far a call has come: who is due to carry it on, and after how many turns of those who
are due it is over at the latest. Replies to other calls may be before its own. -/
inductive Phase (k : Call) (quiet : String → Prop) (n : Network) : Option String → Nat → Prop
  | asked {e : Endpoint} (pending : List Delivery)
      (line : Line k quiet n k.server [.delivery k.request] (pending.map .delivery))
      (others : ∀ d ∈ pending, d.properties.correlationId ≠ some k.id)
      (he : n.endpoints[k.client]? = some e) (hw : e.client.Awaits k.id) :
      Phase k quiet n (some k.station.tag) (pending.length + 2)
  | answered {e : Endpoint} {number : Nat} (pending : List Delivery)
      (line : Line k quiet n k.served []
        (pending.map .delivery ++ [.delivery (k.reply.deliver number)]))
      (others : ∀ d ∈ pending, d.properties.correlationId ≠ some k.id)
      (he : n.endpoints[k.client]? = some e) (hw : e.client.Awaits k.id) :
      Phase k quiet n (some k.tag) (pending.length + 1)
  | returned {e : Endpoint} (line : Line k quiet n k.served [] [])
      (he : n.endpoints[k.client]? = some e)
      (hv : (e.client.replies.slot k.id).value =
        some (.ofReply k.reply.properties k.reply.body)) :
      Phase k quiet n none 0

namespace Phase

variable {due : Option String} {left : Nat}

/-- **One turn.** Whoever is due carries the call on; nobody else sets it back. -/
theorem turn (h : Phase k quiet n due left) {t : String} (ht : k.Involves quiet t) :
    ∃ due' left', Phase k quiet (n.handleNext t) due' left' ∧
      (left' < left ∨ left' = left ∧ due' = due ∧ due ≠ some t) := by
  cases h with
  | @asked e pending line others he hw =>
    by_cases hs : t = k.station.tag
    · subst hs
      obtain ⟨number, hline, hends⟩ := line.serve
      have he' : (n.handleNext k.station.tag).endpoints[k.client]? = some e := by rw [hends, he]
      exact ⟨_, _, .answered pending hline others he' hw, Or.inl (Nat.lt_succ_self _)⟩
    have hdue : (some k.station.tag : Option String) ≠ some t :=
      fun h => hs (Option.some.inj h).symm
    by_cases hc : t = k.tag
    · subst hc
      cases pending with
      | nil =>
        rw [handleNext_of_silent line.toClient]
        exact ⟨_, _, .asked [] line others he hw, Or.inr ⟨rfl, rfl, hdue⟩⟩
      | cons d rest =>
        obtain ⟨hline, he'⟩ := line.receive he
        have hw' := hw.receive_other k.tag (others d List.mem_cons_self)
        have hrest := fun d' hd => others d' (List.mem_cons_of_mem d hd)
        exact ⟨_, _, .asked rest hline hrest he' hw', Or.inl (Nat.lt_succ_self _)⟩
    · rw [line.passes ((ht.resolve_left hs).resolve_left hc) hs hc]
      exact ⟨_, _, .asked pending line others he hw, Or.inr ⟨rfl, rfl, hdue⟩⟩
  | @answered e number pending line others he hw =>
    by_cases hc : t = k.tag
    · subst hc
      cases pending with
      | nil =>
        obtain ⟨hline, he'⟩ := line.receive he
        have hown : (k.reply.deliver number).properties.correlationId = some k.id := rfl
        have hv := hw.receive_own k.tag hown
        exact ⟨_, _, .returned hline he' hv, Or.inl (Nat.lt_succ_self _)⟩
      | cons d rest =>
        obtain ⟨hline, he'⟩ := line.receive he
        have hw' := hw.receive_other k.tag (others d List.mem_cons_self)
        have hrest := fun d' hd => others d' (List.mem_cons_of_mem d hd)
        exact ⟨_, _, .answered rest hline hrest he' hw', Or.inl (Nat.lt_succ_self _)⟩
    have hdue : (some k.tag : Option String) ≠ some t := fun h => hc (Option.some.inj h).symm
    have hsame : n.handleNext t = n := by
      by_cases hs : t = k.station.tag
      · exact handleNext_of_silent (hs ▸ line.toServer)
      · exact line.passes ((ht.resolve_left hs).resolve_left hc) hs hc
    rw [hsame]
    exact ⟨_, _, .answered pending line others he hw, Or.inr ⟨rfl, rfl, hdue⟩⟩
  | returned line he hv =>
    have hsame : n.handleNext t = n := by
      by_cases hs : t = k.station.tag
      · exact handleNext_of_silent (hs ▸ line.toServer)
      by_cases hc : t = k.tag
      · exact handleNext_of_silent (hc ▸ line.toClient)
      · exact line.passes ((ht.resolve_left hs).resolve_left hc) hs hc
    rw [hsame]
    exact ⟨_, _, .returned line he hv, Or.inr ⟨rfl, rfl, nofun⟩⟩

/-- Any number of turns never sets a call back. -/
theorem turns (tags : List String) : ∀ {n : Network} {due : Option String} {left : Nat},
    Phase k quiet n due left → (∀ t ∈ tags, k.Involves quiet t) →
    ∃ due' left', left' ≤ left ∧ Phase k quiet (n.turns tags) due' left' := by
  induction tags with
  | nil => exact fun h _ => ⟨_, _, Nat.le_refl _, h⟩
  | cons t rest ih =>
    intro n due left h ht
    obtain ⟨due', left', h', hle⟩ := h.turn (ht t List.mem_cons_self)
    obtain ⟨due'', left'', hle', h''⟩ := ih h' fun t' hm => ht t' (List.mem_cons_of_mem _ hm)
    exact ⟨due'', left'', by omega, h''⟩

/-- Turns among which is that of whoever is due carry the call on. -/
theorem round (tags : List String) : ∀ {n : Network} {due : Option String} {left : Nat},
    Phase k quiet n due left → (∀ t ∈ tags, k.Involves quiet t) → (∀ t ∈ due, t ∈ tags) →
    ∃ due' left', (left' < left ∨ left' = 0) ∧ Phase k quiet (n.turns tags) due' left' := by
  induction tags with
  | nil =>
    intro n due left h _ hdue
    cases h with
    | asked => exact absurd (hdue _ rfl) List.not_mem_nil
    | answered => exact absurd (hdue _ rfl) List.not_mem_nil
    | returned line he hv => exact ⟨_, _, Or.inr rfl, .returned line he hv⟩
  | cons t rest ih =>
    intro n due left h ht hdue
    have hrest := fun t' hm => ht t' (List.mem_cons_of_mem t hm)
    obtain ⟨due', left', h', hlt | ⟨rfl, rfl, hne⟩⟩ := h.turn (ht t List.mem_cons_self)
    · obtain ⟨due'', left'', hle, h''⟩ := h'.turns rest hrest
      exact ⟨due'', left'', Or.inl (by omega), h''⟩
    · refine ih h' hrest fun t' hm => ?_
      refine (List.mem_cons.1 (hdue t' hm)).resolve_left ?_
      rintro rfl
      exact hne hm

/-- As many rounds as there are turns left bring the call to its end. -/
theorem rounds (rounds : List (List String)) : ∀ {n : Network} {due : Option String} {left : Nat},
    Phase k quiet n due left →
    (∀ tags ∈ rounds, k.station.tag ∈ tags ∧ k.tag ∈ tags ∧ ∀ t ∈ tags, k.Involves quiet t) →
    left ≤ rounds.length → ∃ due', Phase k quiet (n.turns rounds.flatten) due' 0 := by
  induction rounds with
  | nil =>
    intro n due left h _ hle
    obtain rfl := Nat.le_zero.1 hle
    exact ⟨due, h⟩
  | cons tags rest ih =>
    intro n due left h hr hle
    obtain ⟨hs, hc, ht⟩ := hr tags List.mem_cons_self
    have hdue : ∀ t ∈ due, t ∈ tags := by
      intro t hm
      cases h with
      | asked => cases hm; exact hs
      | answered => cases hm; exact hc
      | returned => cases hm
    obtain ⟨due', left', hlt, h'⟩ := h.round tags ht hdue
    rw [List.length_cons] at hle
    obtain ⟨due'', h''⟩ := ih h' (fun tags' hm => hr tags' (List.mem_cons_of_mem _ hm)) (by omega)
    refine ⟨due'', ?_⟩
    rw [List.flatten_cons, Network.turns, List.foldl_append]
    exact h''

/-- What the caller finds in each phase, and what has become of the server. -/
theorem outcome (h : Phase k quiet n due left) :
    n.Pends k.client k.id ∧ (n.Serves k.station k.server ∨ n.Serves k.station k.served) ∧
        0 < left ∨
      n.Returns k.client k.id k.handled.result ∧ n.Serves k.station k.served := by
  cases h with
  | asked pending line others he hw =>
    have hc : n.client? k.client = some _ := congrArg (Option.map _) he
    exact Or.inl ⟨⟨_, hc, hw.look⟩, Or.inl line.server, Nat.succ_pos _⟩
  | answered pending line others he hw =>
    have hc : n.client? k.client = some _ := congrArg (Option.map _) he
    exact Or.inl ⟨⟨_, hc, hw.look⟩, Or.inr line.server, Nat.succ_pos _⟩
  | returned line he hv =>
    have hc : n.client? k.client = some _ := congrArg (Option.map _) he
    refine Or.inr ⟨⟨_, hc, fun since now => ?_⟩, line.server⟩
    rw [Client.look_of_filled hv]
    exact congrArg (fun result => (some result, _)) (toResult_report k.handled k.id)

end Phase

/-- In whatever order the consumers have their turns, the caller waits or has the result of what
the handler has left, and the server has handled the request once by then; and it has the
result after this many rounds in which both have their turn. -/
structure Settles (n : Network) (k : Call) (quiet : String → Prop) (within : Nat) : Prop where
  anyOrder : ∀ tags, (∀ t ∈ tags, k.Involves quiet t) →
    (n.turns tags).Pends k.client k.id ∧
        ((n.turns tags).Serves k.station k.server ∨ (n.turns tags).Serves k.station k.served) ∨
      (n.turns tags).Returns k.client k.id k.handled.result ∧
        (n.turns tags).Serves k.station k.served
  atLast : ∀ rounds : List (List String),
    (∀ tags ∈ rounds, k.station.tag ∈ tags ∧ k.tag ∈ tags ∧ ∀ t ∈ tags, k.Involves quiet t) →
    within ≤ rounds.length →
      (n.turns rounds.flatten).Returns k.client k.id k.handled.result ∧
        (n.turns rounds.flatten).Serves k.station k.served

theorem Phase.settles {due : Option String} {left : Nat} (h : Phase k quiet n due left) :
    n.Settles k quiet left where
  anyOrder tags ht := by
    obtain ⟨due', left', -, h'⟩ := h.turns tags ht
    exact h'.outcome.imp_left fun ⟨hp, hs, _⟩ => ⟨hp, hs⟩
  atLast rounds hr hle := by
    obtain ⟨due', h'⟩ := h.rounds rounds hr hle
    exact h'.outcome.resolve_left fun ⟨_, _, hlt⟩ => Nat.lt_irrefl 0 hlt

end

/-! ## The beginning of a call -/

theorem exchange_publishing {n : Network} {index : Nat} {e : Endpoint}
    (he : n.endpoints[index]? = some e) (hf : e.faults = {}) (id : String) {m : Message}
    {b : Broker} {sent : List Dispatch} (hp : n.broker.publish e.channel m = b.grant () sent) :
    n.exchange index e (.publishing id m) =
      (.waiting id, { n with broker := b, transit := n.transit ++ sent }) := by
  have hask : n.ask index e (.publishing id m) =
      (.ok (), { n with broker := b, transit := n.transit ++ sent }) := by
    rw [ask.eq_def, hf]
    exact congrArg n.absorb hp
  have hself : ({ n with broker := b, transit := n.transit ++ sent } : Network).setClient index
      e.client = { n with broker := b, transit := n.transit ++ sent } := setClient_self he
  rw [exchange_eq, hask]
  exact congrArg (Prod.mk _) hself

theorem runClient_calling {n : Network} {index : Nat} {e : Endpoint} {queue tag : String}
    (he : n.endpoints[index]? = some e) (hf : e.faults = {})
    (hl : e.client.lifecycle = .opened queue tag)
    (hs : e.client.replies.registry.sealedBy = none) (m : Message) {b : Broker}
    {sent : List Dispatch}
    (hp : n.broker.publish e.channel { m with
      properties := Client.stamp m.properties (Client.idOf (e.client.lastId + 1)) queue } =
        b.grant () sent) :
    n.runClient index (.calling m) =
      (.waiting (Client.idOf (e.client.lastId + 1)),
        { n.setClient index e.client.enrolled with
          broker := b
          transit := n.transit ++ sent }) := by
  have he' := getElem?_setClient_self he e.client.enrolled
  have hx := exchange_publishing he' hf (Client.idOf (e.client.lastId + 1)) hp
  rw [runClient_of_asking he (Client.start_calling hl hs m)]
  exact advance_of_conclusion he' hx rfl

/-- What a call starts from: the client is open, without a limit on its calls, and the messages
of its reply queue go to it; the messages of `queue` go to the server, and none is on its way
there; no reply is under way for a call not yet made. Where the broker's tables agree, the
messages go to whoever is subscribed (`Linked.consumerOn?_iff`). -/
structure Ready (s : System) (index : Nat) (e : Endpoint) (replyQueue tag : String)
    (station : Station) (server : Server) (queue : String) : Prop where
  client : s.network.endpoints[index]? = some e
  opened : e.client.lifecycle = .opened replyQueue tag
  patient : e.client.timeout = .infinite
  live : s.network.broker.consumerOn? replyQueue = some tag
  server : s.network.Serves station server
  consumer : s.network.broker.consumerOn? queue = some station.tag
  idle : eventsTo station.tag s.network.transit = []
  fresh : ∀ d, ⟨tag, .delivery d⟩ ∈ s.network.transit →
    d.properties.correlationId ≠ some (Client.idOf (e.client.lastId + 1))

/-- A subscription that a queue's messages go to is in the table, on an open channel, and has
been sent deliveries only. -/
theorem Sound.live {s : System} (h : Sound s) {tag queue : String} {sub : Subscription}
    (hsub : Subscribed s.asked tag sub)
    (hc : s.network.broker.consumerOn? queue = some tag) :
    s.network.broker.subscriptions.get? tag = some sub ∧
      s.network.broker.isOpen sub.channel = true ∧
      ∃ deliveries : List Delivery,
        eventsTo tag (Broker.run {} s.asked).2 = deliveries.map .delivery := by
  rw [h.traced.broker] at hc ⊢
  obtain ⟨q, hq, hqc⟩ := Option.bind_eq_some_iff.1 hc
  obtain ⟨s', hs', -⟩ := Broker.run_serving h.traced.issued queue q tag hq hqc
  cases Broker.run_stream h.traced.issued tag with
  | unused hs _ _ => rw [hs] at hs'; cases hs'
  | used _ _ hu hst =>
    obtain rfl := (hu _).1 hsub
    cases hst with
    | ended _ _ _ hs _ => rw [hs] at hs'; cases hs'
    | goesOn deliveries he hs _ =>
      exact ⟨hs, ((Broker.run_held h.traced.issued).subscriber tag _ hs).2, deliveries, he⟩

/-- While that subscription lasts, nothing has told the client of its end. -/
theorem Sound.unsealed {s : System} (h : Sound s) {index : Nat} {e : Endpoint}
    {queue tag : String} (he : s.network.endpoints[index]? = some e)
    (hl : e.client.lifecycle = .opened queue tag) {deliveries : List Delivery}
    (hd : eventsTo tag (Broker.run {} s.asked).2 = deliveries.map .delivery) :
    e.client.replies.registry.sealedBy = none := by
  cases hs : e.client.replies.registry.sealedBy with
  | none => rfl
  | some cause =>
    obtain ⟨queue', hc⟩ | ⟨queue', tag', event, ho, hterminal, hsent⟩ :=
      (h.peopled.attached index e he).told (by rw [hs]; exact nofun)
    · rw [hl] at hc; cases hc
    · rw [hl] at ho; cases ho
      rw [← mem_eventsTo, hd] at hsent
      obtain ⟨d, -, rfl⟩ := List.mem_map.1 hsent
      cases hterminal

theorem exists_deliveries {events : List Event} (h : ∀ e ∈ events, ∃ d, e = .delivery d) :
    ∃ deliveries : List Delivery, events = deliveries.map .delivery := by
  induction events with
  | nil => exact ⟨[], rfl⟩
  | cons e rest ih =>
    obtain ⟨d, rfl⟩ := h e List.mem_cons_self
    obtain ⟨ds, rfl⟩ := ih fun e' hm => h e' (List.mem_cons_of_mem _ hm)
    exact ⟨d :: ds, rfl⟩

theorem Sound.pending {s : System} (h : Sound s) {tag : String} {deliveries : List Delivery}
    (hd : eventsTo tag (Broker.run {} s.asked).2 = deliveries.map .delivery) :
    ∃ pending : List Delivery, eventsTo tag s.network.transit = pending.map .delivery := by
  refine exists_deliveries fun event hm => ?_
  have hsent := mem_eventsTo.2 (h.traced.sent _ (mem_eventsTo.1 hm))
  rw [hd] at hsent
  obtain ⟨d, -, he⟩ := List.mem_map.1 hsent
  exact ⟨d, he.symm⟩

/-- The message of a call goes to the server that stands ready. -/
theorem Ready.publish {s : System} (h : Sound s) {index : Nat} {e : Endpoint}
    {replyQueue tag queue : String} {station : Station} {server : Server}
    (hr : Ready s index e replyQueue tag station server queue) {m : Message}
    (hroute : s.network.broker.RoutesAlone m.exchange m.routingKey queue)
    (hspeaks : s.network.broker.isOpen e.channel = true)
    (hlive : (s.network.broker.subscriptions.get? station.tag).isSome) :
    s.network.broker.publish e.channel m =
      { s.network.broker with deliveries := s.network.broker.deliveries + 1 }.grant ()
        [⟨station.tag, .delivery (m.deliver (s.network.broker.deliveries + 1))⟩] := by
  have hqueue : (s.network.broker.queues.get? queue).isSome := by
    obtain ⟨q, hq, -⟩ := Option.bind_eq_some_iff.1 hr.consumer
    rw [hq]; rfl
  have hbound : s.network.broker.Bound := by
    rw [h.traced.broker]
    exact Broker.run_bound h.traced.issued
  exact Broker.publish_alone hspeaks (hroute.route? hbound hqueue) hr.consumer hlive

/-- **A remote call.** From every reachable system in which client and server stand ready, and
for every message that is routed to the server's queue alone: the call is given the next id and
waits, the request has the caller's properties except for the id and the reply queue, and the
call settles on what the handler makes of the request, as soon as the replies before its own
have been handed over. -/
theorem System.Reachable.call_returns {s : System} (h : s.Reachable) {index : Nat} {e : Endpoint}
    {replyQueue tag queue : String} {station : Station} {server : Server}
    (hr : Ready s index e replyQueue tag station server queue) {m : Message}
    (hroute : s.network.broker.RoutesAlone m.exchange m.routingKey queue) :
    ∃ (n : Network) (properties : Properties),
      s.network.runClient index (.calling m) =
          (.waiting (Client.idOf (e.client.lastId + 1)), n) ∧
        (∀ f, properties.get f =
          if f = .correlationId then some (Client.idOf (e.client.lastId + 1))
          else if f = .replyTo then some replyQueue
          else m.properties.get f) ∧
        properties.headers = m.properties.headers ∧
        n.Settles
          { client := index, channel := e.channel, queue := replyQueue, tag
            id := Client.idOf (e.client.lastId + 1), station, server
            request := {
              envelope := {
                deliveryTag := s.network.broker.deliveries + 1
                exchange := m.exchange
                routingKey := m.routingKey }
              properties
              body := m.body } }
          (fun t => eventsTo t s.network.transit = [])
          ((eventsTo tag s.network.transit).length + 2) := by
  have hsound := h.sound
  have ha := hsound.peopled.attached index e hr.client
  -- Both subscriptions are in the table, on channels that are open.
  obtain ⟨hsub, hlistens⟩ := ha.subscribed replyQueue tag hr.opened
  obtain ⟨hlive, hspeaks, deliveries, hsent⟩ := hsound.live hsub hr.live
  obtain ⟨queue', hsub'⟩ := hsound.peopled.manned station.tag _ hr.server
  obtain ⟨hlive', hspeaks', -⟩ := hsound.live hsub' hr.consumer
  have hunsealed := hsound.unsealed hr.client hr.opened hsent
  have hapart : station.tag ≠ tag := by
    intro he
    have hserver : s.network.consumers.get? station.tag = _ := hr.server
    rw [he, hlistens] at hserver
    cases congrArg Consumer.role (Option.some.inj hserver)
  obtain ⟨pending, hpending⟩ := hsound.pending hsent
  -- The request differs from the message in its properties only, which decide no route.
  have hpublish := hr.publish hsound (m := { m with
      properties := Client.stamp m.properties (Client.idOf (e.client.lastId + 1)) replyQueue })
    hroute hspeaks (Option.isSome_of_eq_some hlive')
  refine ⟨_, _, runClient_calling hr.client ha.faultless hr.opened hunsealed m hpublish,
    Client.get_stamp _ _ _, Client.headers_stamp _ _ _, ?_⟩
  rw [hpending, List.length_map]
  have he' := getElem?_setClient_self hr.client e.client.enrolled
  refine Phase.settles (.asked pending ?_ ?_ he' (ha.numbered.awaits hr.patient hunsealed))
  · constructor
    case apart => exact hapart
    case address => rfl
    case label => rfl
    case client => exact hlistens
    case server => exact hr.server
    case consumer => exact hr.live
    case subscribed => exact Option.isSome_of_eq_some hlive
    case speaks => exact hspeaks'
    case toServer =>
      rw [eventsTo_append, hr.idle, eventsTo_cons, if_pos rfl]
      rfl
    case toClient =>
      rw [eventsTo_append, hpending, eventsTo_cons, if_neg hapart]
      exact List.append_nil _
    case still =>
      intro t ht hs hc
      rw [eventsTo_append, ht, eventsTo_cons, if_neg (Ne.symm hs)]
      rfl
  · intro d hd
    have hm : .delivery d ∈ eventsTo tag s.network.transit := hpending ▸ List.mem_map_of_mem hd
    exact hr.fresh d (mem_eventsTo.1 hm)

/-- A server that marks its answers with an exception of its own. -/
def grumbler : Server where
  handler := {
    callProps := some fun _ parm reply =>
      { answer := .ok parm, reply := reply.setHeader "x-rpc-exception" "tired" } }

/-- A server behind an exchange, an open client, and a stray reply on its way to it. -/
def preparation : List Label :=
  [.operate .openChannel, .operate .openChannel, .operate (.declareQueue 2 "work"),
    .subscribe 2 "work" (.server grumbler), .operate (.declareExchange 1 "office"),
    .operate (.bind 1 "work" "office" "urgent"), .connect .infinite 1, .start 0 .opening,
    .exchange 0, .exchange 0,
    .operate (.publish 2 {
      routingKey := "amq.gen-1", properties := { correlationId := some "7" }, body := [9] })]

/-- The client after that. -/
def prepared : Endpoint where
  client := { lifecycle := .opened "amq.gen-1" "ctag-1.2" }
  channel := 1

/-- A request whose own id and reply address are replaced. -/
def errand : Message where
  exchange := "office"
  routingKey := "urgent"
  properties := { correlationId := some "mine", replyTo := some "work", appId := some "desk" }
  body := [1, 2]

theorem call_returns_exception :
    Ready (.run {} preparation) 0 prepared "amq.gen-1" "ctag-1.2" ⟨2, "ctag-2.1"⟩ grumbler
        "work" ∧
      (System.run {} preparation).network.broker.RoutesAlone "office" "urgent" "work" ∧
      ∃ n, (System.run {} preparation).network.runClient 0 (.calling errand) =
          (.waiting "1", n) ∧
        (n.turns ["ctag-1.2", "ctag-2.1", "ctag-1.2", "ctag-2.1", "ctag-2.1",
          "ctag-1.2"]).Returns 0 "1" (.error (.unexpectedException "tired" [1, 2])) := by
  have hready : Ready (.run {} preparation) 0 prepared "amq.gen-1" "ctag-1.2" ⟨2, "ctag-2.1"⟩
      grumbler "work" := by
    constructor
    case client => rfl
    case opened => rfl
    case patient => rfl
    case live => rfl
    case server => rfl
    case consumer => rfl
    case idle => rfl
    case fresh =>
      intro d hd
      have htransit : (System.run {} preparation).network.transit =
          [⟨"ctag-1.2", .delivery {
            envelope := { deliveryTag := 1, exchange := "", routingKey := "amq.gen-1" }
            properties := { correlationId := some "7" }
            body := [9] }⟩] := rfl
      rw [htransit, List.mem_singleton] at hd
      cases hd
      decide
  have hroute : (System.run {} preparation).network.broker.RoutesAlone "office" "urgent" "work" :=
    Or.inr ⟨[⟨"urgent", "work"⟩], rfl, fun name => by simp⟩
  have hreachable : (System.run {} preparation).Reachable := ⟨preparation, rfl⟩
  obtain ⟨n, properties, hrun, -, -, hsettles⟩ :=
    hreachable.call_returns hready (m := errand) hroute
  obtain ⟨hreturns, -⟩ := hsettles.atLast
    [["ctag-1.2", "ctag-2.1"], ["ctag-1.2", "ctag-2.1"], ["ctag-2.1", "ctag-1.2"]]
    (by simp [Call.Involves]) (by decide)
  exact ⟨hready, hroute, n, hrun, hreturns⟩

end Network

end BrokeredRpc
