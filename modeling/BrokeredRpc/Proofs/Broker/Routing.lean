import BrokeredRpc.Proofs.Broker.Consistency

/-!
# What is routed to a queue

Which messages come to a queue is decided by the open channels, by the queue's
own existence and by the bindings that name it. `Agrees` says that two brokers
do not differ in these. Who consumes from the queue, or from any other, has no
part in it: an operation that is not about the queue changes none of them
(`agrees_perform`), one that is does the same to two brokers that agree
(`Agrees.perform`), and so subscriptions can come and go at any time.

* `routed`: the messages routed to a queue in a history;
* `run_agrees`: they are the same without the operations that make and cancel
  subscriptions, as long as the queue exists.
-/
namespace BrokeredRpc.Broker

variable {b b' : Broker} {name : String}

/-! ## Arrivals -/

/-- The message that an operation routes to the queue. -/
def arrival (name : String) (b : Broker) : Operation → List Message
  | .publish c m =>
    if b.isOpen c ∧ name ∈ (b.route? m.exchange m.routingKey).getD [] then [m] else []
  | _ => []

/-- The messages routed to the queue in a history, in publish order. -/
def routed (name : String) (b : Broker) (ops : List Operation) : List Message :=
  gather (arrival name) b ops

theorem mem_route? {x key : String} :
    name ∈ (b.route? x key).getD [] ↔
      if x = defaultExchange then key = name ∧ (b.queues.get? name).isSome
      else ∃ bindings, b.exchanges.get? x = some bindings ∧ Binding.mk key name ∈ bindings := by
  unfold route?
  split
  · rw [Option.getD_some, hasQueue, Table.contains]
    split
    · next hq =>
      rw [List.mem_singleton]
      exact ⟨fun he => ⟨he.symm, he ▸ hq⟩, fun h => h.1.symm⟩
    · next hq =>
      exact ⟨fun h => absurd h List.not_mem_nil, fun h => absurd (h.1 ▸ h.2) hq⟩
  · cases b.exchanges.get? x with
    | none => simp
    | some bindings =>
      simp only [Option.map_some, Option.getD_some, List.mem_map, List.mem_filter, beq_iff_eq,
        Option.some.injEq, exists_eq_left']
      constructor
      · rintro ⟨⟨key', queue⟩, ⟨hm, rfl⟩, rfl⟩
        exact hm
      · exact fun hm => ⟨_, ⟨hm, rfl⟩, rfl⟩

/-! ## Brokers that agree on a queue -/

/-- The brokers do not differ in anything that decides what is routed to the queue. -/
structure Agrees (name : String) (b b' : Broker) : Prop where
  channels : b'.channels = b.channels
  named : b'.namedQueues = b.namedQueues
  owner : (b'.queues.get? name).map (·.owner) = (b.queues.get? name).map (·.owner)
  bindings : ∀ x, (b'.exchanges.get? x).map (·.filter (·.queue == name)) =
    (b.exchanges.get? x).map (·.filter (·.queue == name))

namespace Agrees

theorem refl (name : String) (b : Broker) : Agrees name b b := ⟨rfl, rfl, rfl, fun _ => rfl⟩

theorem symm (h : Agrees name b b') : Agrees name b' b :=
  ⟨h.channels.symm, h.named.symm, h.owner.symm, fun x => (h.bindings x).symm⟩

theorem trans {b₁ b₂ b₃ : Broker} (h : Agrees name b₁ b₂) (h' : Agrees name b₂ b₃) :
    Agrees name b₁ b₃ :=
  ⟨h'.channels.trans h.channels, h'.named.trans h.named, h'.owner.trans h.owner,
    fun x => (h'.bindings x).trans (h.bindings x)⟩

theorem isOpen (h : Agrees name b b') (c : Nat) : b'.isOpen c = b.isOpen c :=
  isOpen_congr h.channels c

theorem isSome_queue (h : Agrees name b b') :
    (b'.queues.get? name).isSome = (b.queues.get? name).isSome := by
  have := congrArg Option.isSome h.owner
  rwa [Option.isSome_map, Option.isSome_map] at this

theorem isSome_exchange (h : Agrees name b b') (x : String) :
    (b'.exchanges.get? x).isSome = (b.exchanges.get? x).isSome := by
  have := congrArg Option.isSome (h.bindings x)
  rwa [Option.isSome_map, Option.isSome_map] at this

theorem bound_iff (h : Agrees name b b') (x key : String) :
    (∃ bindings, b'.exchanges.get? x = some bindings ∧ Binding.mk key name ∈ bindings) ↔
      ∃ bindings, b.exchanges.get? x = some bindings ∧ Binding.mk key name ∈ bindings := by
  have hfilter : ∀ bindings : List Binding,
      Binding.mk key name ∈ bindings ↔ Binding.mk key name ∈ bindings.filter (·.queue == name) :=
    fun bindings => by simp
  have hx := h.bindings x
  constructor
  · rintro ⟨bindings', hb', hm⟩
    rw [hb', Option.map_some, eq_comm, Option.map_eq_some_iff] at hx
    obtain ⟨bindings, hb, he⟩ := hx
    exact ⟨bindings, hb, (hfilter _).2 (he ▸ (hfilter _).1 hm)⟩
  · rintro ⟨bindings, hb, hm⟩
    rw [hb, Option.map_some, Option.map_eq_some_iff] at hx
    obtain ⟨bindings', hb', he⟩ := hx
    exact ⟨bindings', hb', (hfilter _).2 (he ▸ (hfilter _).1 hm)⟩

theorem arrival_eq (h : Agrees name b b') (op : Operation) :
    arrival name b' op = arrival name b op := by
  cases op with
  | publish c m => simp only [arrival, mem_route?, h.isOpen, h.isSome_queue, h.bound_iff]
  | _ => rfl

end Agrees

/-! ## Steps that leave a queue alone -/

theorem agrees_insertQueue {other : String} (hne : other ≠ name) (b : Broker) (q : Queue) :
    Agrees name b { b with queues := b.queues.insert other q } := by
  refine ⟨rfl, rfl, ?_, fun _ => rfl⟩
  rw [Table.get?_insert, if_neg hne]

theorem agrees_replaceQueue {other : String} {q : Queue} (hq : b.queues.get? other = some q)
    (q' : Queue) (ho : q'.owner = q.owner) :
    Agrees name b { b with queues := b.queues.insert other q' } := by
  refine ⟨rfl, rfl, ?_, fun _ => rfl⟩
  rw [Table.get?_insert]
  split
  · next he => rw [← he, hq, Option.map_some, Option.map_some, ho]
  · rfl

theorem agrees_trim {ended removed : String → Bool} (hr : removed name = false) (b : Broker) :
    Agrees name b (b.trim ended removed) := by
  refine ⟨rfl, rfl, ?_, fun x => ?_⟩
  · rw [get?_queues_trim, hr, if_neg Bool.false_ne_true, Option.map_map]
    rfl
  · rw [get?_exchanges_trim, Option.map_map]
    refine congrArg (fun f => (b.exchanges.get? x).map f) ?_
    funext bindings
    rw [Function.comp_apply, List.filter_filter]
    refine List.filter_congr fun m _ => ?_
    by_cases he : m.queue = name <;> simp [he, hr]

theorem agrees_removeQueue {other : String} (hne : other ≠ name) (b : Broker) :
    Agrees name b (b.removeQueue other) := by
  rw [removeQueue_eq_trim]
  exact agrees_trim (beq_eq_false_iff_ne.2 hne) b

theorem agrees_detach (b : Broker) (other : String)
    (hs : ((b.detach other).queues.get? name).isSome) : Agrees name b (b.detach other) := by
  unfold detach at hs ⊢
  split
  · exact .refl name b
  · next q hq =>
    split
    · next ho =>
      refine agrees_removeQueue ?_ b
      rintro rfl
      simp only [hq, ho, if_true, get?_queues_removeQueue] at hs
      cases hs
    · exact agrees_replaceQueue hq _ rfl

theorem agrees_endSubscription (b : Broker) (tag : String) (last : Event)
    (hs : ((b.endSubscription tag last).1.queues.get? name).isSome) :
    Agrees name b (b.endSubscription tag last).1 := by
  unfold endSubscription at hs ⊢
  split
  · exact .refl name b
  · next s hsub =>
    simp only [hsub] at hs
    have := agrees_detach { b with subscriptions := b.subscriptions.erase tag } s.queue hs
    exact ⟨this.channels, this.named, this.owner, this.bindings⟩

theorem agrees_enqueue (b : Broker) (other : String) (m : Message) :
    Agrees name b (b.enqueue other m).1 := by
  unfold enqueue
  split
  · exact .refl name b
  · next q hq =>
    split
    · exact ⟨rfl, rfl, rfl, fun _ => rfl⟩
    · exact agrees_replaceQueue hq _ rfl

theorem agrees_enqueueAll (b : Broker) (m : Message) (queues : List String) :
    Agrees name b (b.enqueueAll m queues).1 :=
  forEach_induct (P := Agrees name b) queues b
    (fun b' other _ h => h.trans (agrees_enqueue b' other m)) (.refl name b)

/-! ## One operation -/

/-- Whether an operation may change what is routed to the queue. -/
def Operation.concerns (name : String) : Operation → Bool
  | .openChannel | .declareExchange .. | .declareExclusive _ | .closeChannel _ | .abortChannel ..
  | .abortConnection _ => true
  | .declareQueue _ queue | .bind _ queue .. | .deleteQueue _ queue => queue == name
  | .consume .. | .cancel .. | .publish .. => false

/-- Operations with which subscriptions are made and cancelled. -/
def Operation.subscribes : Operation → Bool
  | .consume .. | .cancel .. => true
  | _ => false

/-- An operation that does not concern a queue leaves it alone, unless it cancels the
subscription with which an exclusive queue goes. -/
theorem agrees_perform {op : Operation} (hop : op.concerns name = false)
    (hs : op.subscribes = true → ((b.perform op).broker.queues.get? name).isSome) :
    Agrees name b (b.perform op).broker := by
  rcases perform_cases b op with ⟨e, hr⟩ | hg
  · rw [hr]; exact .refl name b
  generalize b.perform op = effect at hg hs
  cases hg with
  | opened => cases hop
  | exchangeKept => exact .refl name b
  | exchangeAdded => cases hop
  | queueKept => exact .refl name b
  | queueAdded => exact agrees_insertQueue (beq_eq_false_iff_ne.1 hop) b _
  | exclusiveAdded => cases hop
  | bindingKept => exact .refl name b
  | @bindingAdded c other x key q bindings hc hq hx =>
    refine ⟨rfl, rfl, rfl, fun x' => ?_⟩
    simp only [grant, Table.get?_insert]
    split
    · next he =>
      have hne : (other == name) = false := hop
      rw [← he, hx, Option.map_some, Option.map_some, List.filter_append,
        List.filter_cons_of_neg (by simp [hne]), List.filter_nil, List.append_nil]
    · rfl
  | @subscribed c other q hc hq =>
    have : Agrees name b { b with queues := b.queues.insert other _ } := agrees_replaceQueue hq
      { q with backlog := ∅, consumer := some (tagName c (b.issuedTags + 1)) } rfl
    exact ⟨this.channels, this.named, this.owner, this.bindings⟩
  | @deletedBusy c other tag =>
    have := agrees_removeQueue (beq_eq_false_iff_ne.1 hop)
      { b with subscriptions := b.subscriptions.erase tag }
    exact ⟨this.channels, this.named, this.owner, this.bindings⟩
  | deletedIdle => exact agrees_removeQueue (beq_eq_false_iff_ne.1 hop) b
  | cancelled => exact agrees_endSubscription b _ _ (hs rfl)
  | @published c m queues => exact agrees_enqueueAll b m queues
  | closed => cases hop
  | aborted => cases hop
  | lost => cases hop

/-! ### Operations in closed form -/

theorem broker_onChannel {α : Type} (b : Broker) (c : Nat) (next : Effect α) :
    (b.onChannel c next).broker = if b.isOpen c = true then next.broker else b := by
  unfold onChannel
  cases hc : b.closedBy? c with
  | some cause =>
    rw [if_neg]
    · rfl
    · rw [isOpen_iff, hc]
      exact nofun
  | none => rw [if_pos (isOpen_iff.2 hc)]

theorem broker_declareExchange (b : Broker) (c : Nat) (x : String) :
    (b.perform (.declareExchange c x)).broker =
      if b.isOpen c = true ∧ x ≠ defaultExchange ∧ (b.exchanges.get? x).isSome = false then
        { b with exchanges := b.exchanges.insert x [] }
      else b := by
  show (b.declareExchange c x).broker = _
  rw [declareExchange, broker_onChannel]
  by_cases ho : b.isOpen c = true
  · by_cases hd : x = defaultExchange <;> cases hx : (b.exchanges.get? x).isSome <;>
      simp [grant, Table.contains, ho, hd, hx]
  · simp [ho]

theorem broker_declareQueue (b : Broker) (c : Nat) (name : String) :
    (b.perform (.declareQueue c name)).broker =
      if b.isOpen c = true ∧ (b.queues.get? name).isSome = false then
        { b with queues := b.queues.insert name {} }
      else b := by
  show (b.declareQueue c name).broker = _
  rw [declareQueue, broker_onChannel]
  by_cases ho : b.isOpen c = true
  · cases b.queues.get? name with
    | none => simp [grant, ho]
    | some q => cases ha : q.admits c <;> simp [grant, refuse, ho, ha]
  · simp [ho]

theorem broker_declareExclusive (b : Broker) (c : Nat) :
    (b.perform (.declareExclusive c)).broker =
      if b.isOpen c = true then
        { b with
          namedQueues := b.namedQueues + 1
          queues := b.queues.insert (generatedName (b.namedQueues + 1)) { owner := some c } }
      else b := by
  show (b.declareExclusive c).broker = _
  rw [declareExclusive, broker_onChannel]
  rfl

theorem broker_bind (b : Broker) (c : Nat) (name x key : String) :
    (b.perform (.bind c name x key)).broker =
      if b.isOpen c = true ∧ (b.queues.get? name).isSome = true then
        match b.exchanges.get? x with
        | none => b
        | some bindings =>
          if Binding.mk key name ∈ bindings then b
          else { b with exchanges := b.exchanges.insert x (bindings ++ [⟨key, name⟩]) }
      else b := by
  show (b.bind c name x key).broker = _
  rw [bind, broker_onChannel, onQueue]
  by_cases ho : b.isOpen c = true
  · cases b.queues.get? name with
    | none => simp [refuse]
    | some q =>
      cases b.exchanges.get? x with
      | none => simp [refuse]
      | some bindings =>
        by_cases hm : Binding.mk key name ∈ bindings <;> simp [grant, ho, hm]
  · simp [ho]

/-- A deletion is granted exactly if the channel is open and may, and then the queue is gone. -/
theorem broker_deleteQueue (b : Broker) (c : Nat) (name : String) :
    if b.isOpen c = true ∧ (b.queues.get? name).any (·.admits c) = true then
      (b.perform (.deleteQueue c name)).broker.queues.get? name = none
    else (b.perform (.deleteQueue c name)).broker = b := by
  show if _ then (b.deleteQueue c name).broker.queues.get? name = none
    else (b.deleteQueue c name).broker = b
  rw [deleteQueue, broker_onChannel, onQueue]
  by_cases ho : b.isOpen c = true
  · cases hq : b.queues.get? name with
    | none => simp [refuse]
    | some q =>
      cases ha : q.admits c with
      | false => simp [refuse, ha]
      | true =>
        rw [if_pos ⟨ho, ha⟩, if_pos ho]
        simp only [ha, Bool.not_true, Bool.false_eq_true, if_false]
        split <;> exact (get?_queues_removeQueue _ name name).trans (if_pos rfl)
  · simp [ho]

/-! ### The same to both brokers -/

namespace Agrees

theorem admits (h : Agrees name b b') (c : Nat) :
    (b'.queues.get? name).any (·.admits c) = (b.queues.get? name).any (·.admits c) := by
  have hadmits : ∀ q : Option Queue,
      q.any (·.admits c) = (q.map (·.owner)).any (·.all (· == c)) := by
    intro q
    cases q <;> rfl
  rw [hadmits, hadmits, h.owner]

theorem insertQueue (h : Agrees name b b') (other : String) (q : Queue) :
    Agrees name { b with queues := b.queues.insert other q }
      { b' with queues := b'.queues.insert other q } := by
  refine ⟨h.channels, h.named, ?_, h.bindings⟩
  simp only [Table.get?_insert]
  split
  · rfl
  · exact h.owner

theorem insertExchange (h : Agrees name b b') (x : String) {bindings bindings' : List Binding}
    (hb : bindings'.filter (·.queue == name) = bindings.filter (·.queue == name)) :
    Agrees name { b with exchanges := b.exchanges.insert x bindings }
      { b' with exchanges := b'.exchanges.insert x bindings' } := by
  refine ⟨h.channels, h.named, h.owner, fun x' => ?_⟩
  simp only [Table.get?_insert]
  split
  · exact congrArg some hb
  · exact h.bindings x'

theorem bind (h : Agrees name b b') (c : Nat) (x key : String) :
    Agrees name (b.perform (.bind c name x key)).broker
      (b'.perform (.bind c name x key)).broker := by
  have hx := h.bindings x
  have hmem := h.bound_iff x key
  rw [broker_bind, broker_bind, h.isOpen, h.isSome_queue]
  split
  · cases hb : b.exchanges.get? x with
    | none =>
      cases hb' : b'.exchanges.get? x with
      | none => exact h
      | some bindings' => rw [hb, hb'] at hx; cases hx
    | some bindings =>
      cases hb' : b'.exchanges.get? x with
      | none => rw [hb, hb'] at hx; cases hx
      | some bindings' =>
        simp only [hb, hb', Option.some.injEq, exists_eq_left'] at hmem
        simp only [hb, hb', Option.map_some, Option.some.injEq] at hx
        simp only [hmem]
        split
        · exact h
        · exact h.insertExchange x (by rw [List.filter_append, List.filter_append, hx])
  · exact h

theorem recordClosed (h : Agrees name b b') (c : Nat) (cause : Shutdown) :
    Agrees name (b.recordClosed c cause) (b'.recordClosed c cause) :=
  ⟨by rw [Broker.recordClosed, Broker.recordClosed, h.channels], h.named, h.owner, h.bindings⟩

theorem queuesOf (h : Agrees name b b') (c : Nat) :
    (b'.queuesOf c).contains name = (b.queuesOf c).contains name := by
  have hmem : ∀ b : Broker, (b.queuesOf c).contains name =
      ((b.queues.get? name).map (·.owner) == some (some c)) := by
    intro b
    rw [Bool.eq_iff_iff, List.contains_iff_mem, mem_queuesOf, beq_iff_eq, Option.map_eq_some_iff]
  rw [hmem, hmem, h.owner]

theorem shutdownChannel (h : Agrees name b b') (hl : b.Linked) (hl' : b'.Linked)
    (cause : Shutdown) (c : Nat)
    (hs : ((b.shutdownChannel cause c).1.queues.get? name).isSome) :
    Agrees name (b.shutdownChannel cause c).1 (b'.shutdownChannel cause c).1 := by
  by_cases ho : b.isOpen c = true
  · rw [shutdownChannel_eq_trim hl cause ho] at hs ⊢
    rw [shutdownChannel_eq_trim hl' cause (by rw [h.isOpen, ho])]
    have hr : (b.queuesOf c).contains name = false := by
      rw [get?_queues_trim] at hs
      rw [← Bool.not_eq_true]
      intro hc
      rw [if_pos hc] at hs; cases hs
    have hr' : (b'.queuesOf c).contains name = false := (h.queuesOf c).trans hr
    exact ((agrees_trim hr _).symm.trans (h.recordClosed c cause)).trans (agrees_trim hr' _)
  · have ho' : ¬b'.isOpen c = true := by rwa [h.isOpen]
    rw [Broker.shutdownChannel, Broker.shutdownChannel, if_neg ho, if_neg ho']
    exact h

theorem shutdownChannels (cause : Shutdown) (cs : List Nat) :
    ∀ {b b' : Broker}, Agrees name b b' → b.Linked → b'.Linked →
      ((b.shutdownChannels cause cs).1.queues.get? name).isSome →
      Agrees name (b.shutdownChannels cause cs).1 (b'.shutdownChannels cause cs).1 := by
  induction cs with
  | nil => exact fun h _ _ _ => h
  | cons c rest ih =>
    intro b b' h hl hl' hs
    rw [Broker.shutdownChannels, forEach_cons] at hs ⊢
    rw [Broker.shutdownChannels, forEach_cons]
    refine ih (h.shutdownChannel hl hl' cause c ?_) (hl.shutdownChannel cause c)
      (hl'.shutdownChannel cause c) hs
    -- The queue is there after the rest, so it is there before it.
    obtain ⟨q, hq⟩ := Option.isSome_iff_exists.1 hs
    obtain ⟨p, hp, -⟩ := (Shrinks.shutdownChannels _ cause rest).queues name q hq
    exact Option.isSome_of_eq_some hp

/-- **An operation that makes no subscription and cancels none** does the same to two brokers
that agree on a queue, as long as it does not remove it. -/
theorem perform (h : Agrees name b b') (hl : b.Linked) (hl' : b'.Linked) {op : Operation}
    (hs : ((b.perform op).broker.queues.get? name).isSome)
    (hop : op.concerns name = true) :
    Agrees name (b.perform op).broker (b'.perform op).broker := by
  cases op with
  | openChannel =>
    refine ⟨?_, h.named, h.owner, h.bindings⟩
    show b'.channels.push none = b.channels.push none
    rw [h.channels]
  | declareExchange c x =>
    rw [broker_declareExchange, broker_declareExchange, h.isOpen, h.isSome_exchange]
    split
    · exact h.insertExchange x rfl
    · exact h
  | declareQueue c other =>
    obtain rfl := beq_iff_eq.1 hop
    rw [broker_declareQueue, broker_declareQueue, h.isOpen, h.isSome_queue]
    split
    · exact h.insertQueue other {}
    · exact h
  | declareExclusive c =>
    rw [broker_declareExclusive, broker_declareExclusive, h.isOpen, h.named]
    split
    · have := h.insertQueue (generatedName (b.namedQueues + 1)) { owner := some c }
      exact ⟨this.channels, rfl, this.owner, this.bindings⟩
    · exact h
  | bind c other x key =>
    obtain rfl := beq_iff_eq.1 hop
    exact h.bind c x key
  | deleteQueue c other =>
    obtain rfl := beq_iff_eq.1 hop
    have hb := broker_deleteQueue b c other
    have hb' := broker_deleteQueue b' c other
    rw [h.isOpen, h.admits] at hb'
    split at hb
    · rw [hb] at hs; cases hs
    · next hc =>
      rw [if_neg hc] at hb'
      rw [hb, hb']
      exact h
  | closeChannel c => exact h.shutdownChannel hl hl' _ c hs
  | abortChannel c reason => exact h.shutdownChannel hl hl' _ c hs
  | abortConnection reason =>
    have hc : b'.channels.size = b.channels.size := congrArg Array.size h.channels
    show Agrees name (b.abortConnection reason).1 (b'.abortConnection reason).1
    rw [Broker.abortConnection, Broker.abortConnection, hc]
    exact Agrees.shutdownChannels _ _ h hl hl' hs
  | consume => cases hop
  | cancel => cases hop
  | publish => cases hop

end Agrees

/-! ## Histories -/

/-- The queue exists after every operation. -/
def Keeps (name : String) (b : Broker) : List Operation → Prop
  | [] => True
  | op :: rest =>
    ((b.perform op).broker.queues.get? name).isSome ∧ Keeps name (b.perform op).broker rest

instance instDecidableKeeps (name : String) :
    ∀ (b : Broker) (ops : List Operation), Decidable (Keeps name b ops)
  | _, [] => isTrue trivial
  | b, op :: rest =>
    have := instDecidableKeeps name (b.perform op).broker rest
    inferInstanceAs (Decidable (((b.perform op).broker.queues.get? name).isSome ∧ _))

theorem keeps_concat {past : List Operation} {op : Operation} :
    ∀ {b : Broker}, Keeps name b (past ++ [op]) ↔
      Keeps name b past ∧ (((b.run past).1.perform op).broker.queues.get? name).isSome := by
  induction past with
  | nil => exact ⟨fun h => ⟨trivial, h.1⟩, fun h => ⟨h.2, trivial⟩⟩
  | cons first rest ih =>
    intro b
    rw [List.cons_append, Keeps, Keeps, ih, and_assoc]
    rfl

/-- The history without the operations that make and cancel subscriptions. -/
def unsubscribed (ops : List Operation) : List Operation := ops.filter fun op => !op.subscribes

theorem unsubscribed_concat (past : List Operation) (op : Operation) :
    unsubscribed (past ++ [op]) =
      if op.subscribes = true then unsubscribed past else unsubscribed past ++ [op] := by
  rw [unsubscribed, List.filter_append]
  cases hop : op.subscribes <;> simp [unsubscribed, hop]

theorem arrival_of_subscribes {op : Operation} (hop : op.subscribes = true) (b : Broker) :
    arrival name b op = [] := by
  cases op with
  | publish => cases hop
  | _ => rfl

theorem concerns_of_subscribes {op : Operation} (hop : op.subscribes = true) :
    op.concerns name = false := by
  cases op with
  | consume => rfl
  | cancel => rfl
  | _ => cases hop

/-- **Subscriptions have no part in routing.** A history and the same history without
subscriptions route the same to a queue that the first one keeps, and end in agreement. -/
theorem run_agrees {before during : List Operation} (hi : OnIssued {} (before ++ during))
    (hnames : ∀ c n, .declareQueue c (generatedName n) ∉ before ++ during)
    (hk : Keeps name (run {} before).1 during) :
    OnIssued {} (before ++ unsubscribed during) ∧
      Agrees name (run {} (before ++ during)).1 (run {} (before ++ unsubscribed during)).1 ∧
      routed name (run {} before).1 (unsubscribed during) =
        routed name (run {} before).1 during := by
  refine history_induct_after (P := fun during =>
    (∀ c n, .declareQueue c (generatedName n) ∉ before ++ during) →
    Keeps name (run {} before).1 during →
    OnIssued {} (before ++ unsubscribed during) ∧
      Agrees name (run {} (before ++ during)).1 (run {} (before ++ unsubscribed during)).1 ∧
      routed name (run {} before).1 (unsubscribed during) =
        routed name (run {} before).1 during)
    (fun _ _ => ⟨?_, .refl _ _, rfl⟩) (fun past op hpast hop ih hnames hk => ?_) hi hnames hk
  · rw [unsubscribed, List.filter_nil, List.append_nil]
    exact (onIssued_append.1 hi).1
  obtain ⟨hkpast, hs⟩ := keeps_concat.1 hk
  have hp : ∀ c n, .declareQueue c (generatedName n) ∉ before ++ past := fun c n hm =>
    hnames c n (by rw [← List.append_assoc]; exact List.mem_append_left _ hm)
  have hp' : ∀ c n, .declareQueue c (generatedName n) ∉ before ++ unsubscribed past := by
    intro c n hm
    refine hp c n (List.mem_append.2 ((List.mem_append.1 hm).imp_right fun hm => ?_))
    exact (List.mem_filter.1 hm).1
  obtain ⟨hi', ha, hr⟩ := ih hp hkpast
  have hl := run_linked hpast hp
  have hl' := run_linked hi' hp'
  have hrun : ∀ ops, (run (run {} before).1 ops).1 = (run {} (before ++ ops)).1 := fun ops => by
    rw [run_append]
  rw [hrun] at hs
  rw [← List.append_assoc before past, run_concat, unsubscribed_concat]
  simp only [routed, gather_concat, hrun] at hr ⊢
  split
  · next hsub =>
    have hstep := agrees_perform (concerns_of_subscribes hsub) fun _ => hs
    exact ⟨hi', hstep.symm.trans ha, by rw [hr, arrival_of_subscribes hsub, List.append_nil]⟩
  · next hsub =>
    have hissued : ∀ c ∈ op.channel?, (run {} (before ++ unsubscribed past)).1.Issued c :=
      fun c hc => (issued_congr (congrArg Array.size ha.channels)).2 (hop c hc)
    rw [← List.append_assoc before (unsubscribed past), run_concat, gather_concat, hrun, hr,
      ha.arrival_eq]
    refine ⟨onIssued_append.2 ⟨hi', hissued, trivial⟩, ?_, rfl⟩
    cases hc : op.concerns name with
    | true => exact ha.perform hl hl' hs hc
    | false =>
      have hstep := agrees_perform (b := (run {} (before ++ past)).1) hc
        fun h => absurd h hsub
      have hstep' := agrees_perform (b := (run {} (before ++ unsubscribed past)).1) hc
        fun h => absurd h hsub
      exact (hstep.symm.trans ha).trans hstep'

end BrokeredRpc.Broker
