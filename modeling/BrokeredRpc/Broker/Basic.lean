import BrokeredRpc.Log
import BrokeredRpc.Message
import BrokeredRpc.TransportError

/-!
# The broker's state

A broker holds exchanges, queues and subscriptions. Channels are numbered from
one in the order in which they are opened; for each of them the broker keeps
the cause that closed it, once there is one. A queue is shared, or exclusive to
one channel, and then it goes away with its consumer.

Here are the steps from which all operations are made: putting a message into a
queue, ending a subscription, removing a queue, shutting a channel down. Each
step returns the broker after it and the events that it sends, in order.
-/
namespace BrokeredRpc

structure Queue where
  /-- The channel that the queue is exclusive to. -/
  owner : Option Nat := none
  backlog : Log Message := ∅
  /-- The tag of the subscription on the queue. -/
  consumer : Option String := none
  deriving DecidableEq

/-- Whether a channel may declare, consume from or delete the queue. -/
def Queue.admits (q : Queue) (channel : Nat) : Bool := q.owner.all (· == channel)

/-- Messages with routing key `key` go to `queue`. -/
structure Binding where
  key : String
  queue : String
  deriving DecidableEq

structure Subscription where
  channel : Nat
  queue : String
  deriving DecidableEq

structure Broker where
  /-- For each channel opened so far, in order, the cause that closed it. -/
  channels : Array (Option Shutdown) := #[]
  /-- How many queues the broker has named, tags it has issued and deliveries
  it has numbered. -/
  namedQueues : Nat := 0
  issuedTags : Nat := 0
  deliveries : Nat := 0
  exchanges : Table (List Binding) := ∅
  queues : Table Queue := ∅
  subscriptions : Table Subscription := ∅
  deriving DecidableEq

namespace Broker

variable {α : Type}

instance : Inhabited Broker := ⟨{}⟩

/-- The exchange that routes by queue name and is never declared. -/
def defaultExchange : String := ""

/-! ## Repeated steps -/

/-- A step for each item of a list, one after another; what they send comes out
in their order. -/
def forEach (b : Broker) (items : List α) (step : Broker → α → Broker × List Dispatch) :
    Broker × List Dispatch :=
  items.foldl
    (fun (b, sent) item =>
      let (b, more) := step b item
      (b, sent ++ more))
    (b, [])

@[simp] theorem forEach_nil (b : Broker) (step : Broker → α → Broker × List Dispatch) :
    b.forEach [] step = (b, []) := rfl

theorem forEach_cons (b : Broker) (item : α) (rest : List α)
    (step : Broker → α → Broker × List Dispatch) :
    b.forEach (item :: rest) step =
      (((step b item).1.forEach rest step).1,
        (step b item).2 ++ ((step b item).1.forEach rest step).2) := by
  have shift : ∀ (l : List α) (b : Broker) (sent : List Dispatch),
      l.foldl (fun p i => ((step p.1 i).1, p.2 ++ (step p.1 i).2)) (b, sent) =
        ((l.foldl (fun p i => ((step p.1 i).1, p.2 ++ (step p.1 i).2)) (b, [])).1,
          sent ++ (l.foldl (fun p i => ((step p.1 i).1, p.2 ++ (step p.1 i).2)) (b, [])).2) := by
    intro l
    induction l with
    | nil => intro b sent; simp
    | cons i l ih =>
      intro b sent
      simp only [List.foldl_cons, List.nil_append]
      rw [ih (step b i).1 (sent ++ (step b i).2), ih (step b i).1 (step b i).2]
      simp
  exact shift rest (step b item).1 ([] ++ (step b item).2)

/-! ## Channels -/

/-- The cause that closed a channel. -/
def closedBy? (b : Broker) : Nat → Option Shutdown
  | 0 => none
  | index + 1 => (b.channels[index]?).join

def isOpen (b : Broker) (channel : Nat) : Bool := (b.closedBy? channel).isNone

/-- Whether a channel of this number has been opened. -/
def Issued (b : Broker) (channel : Nat) : Prop := 0 < channel ∧ channel ≤ b.channels.size

instance (b : Broker) (channel : Nat) : Decidable (b.Issued channel) :=
  inferInstanceAs (Decidable (_ ∧ _))

/-- Opens a channel and returns its number. The numbers have 16 bits, so a
broker opens at most 65535 channels: asking for one more overflows and fails
before anything has changed. The bound is left out here; what is said of a
broker with more channels is about no state that it reaches. -/
def openChannel (b : Broker) : Nat × Broker :=
  (b.channels.size + 1, { b with channels := b.channels.push none })

/-- Records the cause that closes a channel. -/
def recordClosed (b : Broker) (channel : Nat) (cause : Shutdown) : Broker :=
  { b with channels := b.channels.setIfInBounds (channel - 1) (some cause) }

theorem closedBy?_openChannel (b : Broker) (channel : Nat) :
    b.openChannel.2.closedBy? channel = b.closedBy? channel := by
  cases channel with
  | zero => rfl
  | succ index =>
    simp only [closedBy?, openChannel, Array.getElem?_push]
    split
    · next h => subst h; simp
    · rfl

theorem closedBy?_recordClosed {b : Broker} {channel : Nat} (h : b.Issued channel)
    (cause : Shutdown) (c : Nat) :
    (b.recordClosed channel cause).closedBy? c =
      if channel = c then some cause else b.closedBy? c := by
  obtain ⟨hpos, hle⟩ := h
  cases c with
  | zero => simp [closedBy?]; omega
  | succ index =>
    simp only [closedBy?, recordClosed, Array.getElem?_setIfInBounds]
    by_cases hc : channel = index + 1
    · subst hc
      have hlt : index < b.channels.size := hle
      simp [hlt]
    · rw [if_neg (show ¬channel - 1 = index by omega), if_neg hc]

/-! ## Queues -/

def hasQueue (b : Broker) (queue : String) : Bool := b.queues.contains queue

/-- How many messages wait in a queue for a consumer. -/
def queueDepth? (b : Broker) (queue : String) : Option Nat :=
  (b.queues.get? queue).map (·.backlog.size)

/-- Removes a queue and all its bindings. -/
def removeQueue (b : Broker) (queue : String) : Broker :=
  { b with
    queues := b.queues.erase queue
    exchanges := b.exchanges.mapValues (·.filter (·.queue != queue)) }

theorem get?_queues_removeQueue (b : Broker) (queue name : String) :
    (b.removeQueue queue).queues.get? name =
      if queue = name then none else b.queues.get? name :=
  Table.get?_erase b.queues queue name

theorem get?_exchanges_removeQueue (b : Broker) (queue exchange : String) :
    (b.removeQueue queue).exchanges.get? exchange =
      (b.exchanges.get? exchange).map (·.filter (·.queue != queue)) :=
  Table.get?_mapValues _ b.exchanges exchange

/-- Takes the consumer off a queue, and removes the queue if it is exclusive. -/
def detach (b : Broker) (queue : String) : Broker :=
  match b.queues.get? queue with
  | none => b
  | some q =>
    if q.owner.isSome then b.removeQueue queue
    else { b with queues := b.queues.insert queue { q with consumer := none } }

/-- The subscription that a queue's messages go to. -/
def consumerOf? (b : Broker) (q : Queue) : Option String :=
  q.consumer.filter b.subscriptions.contains

/-- Hands a message to the queue's consumer, or keeps it in the backlog. -/
def enqueue (b : Broker) (queue : String) (m : Message) : Broker × List Dispatch :=
  match b.queues.get? queue with
  | none => (b, [])
  | some q =>
    match b.consumerOf? q with
    | some tag =>
      let number := b.deliveries + 1
      ({ b with deliveries := number }, [⟨tag, .delivery (m.deliver number)⟩])
    | none =>
      ({ b with queues := b.queues.insert queue { q with backlog := q.backlog.push m } }, [])

/-- A copy of a message to each of the queues, in order. -/
def enqueueAll (b : Broker) (m : Message) (queues : List String) : Broker × List Dispatch :=
  b.forEach queues fun b queue => b.enqueue queue m

/-- The queues that a message goes to, in order; none for an exchange that
does not exist. -/
def route? (b : Broker) (exchange key : String) : Option (List String) :=
  if exchange = defaultExchange then some (if b.hasQueue key then [key] else [])
  else
    (b.exchanges.get? exchange).map fun bindings =>
      (bindings.filter (·.key == key)).map (·.queue)

/-! ## Ends -/

/-- Ends a subscription with a last event. -/
def endSubscription (b : Broker) (tag : String) (last : Event) : Broker × List Dispatch :=
  match b.subscriptions.get? tag with
  | none => (b, [])
  | some s =>
    ({ b with subscriptions := b.subscriptions.erase tag }.detach s.queue, [⟨tag, last⟩])

def endSubscriptions (b : Broker) (last : Event) (tags : List String) :
    Broker × List Dispatch :=
  b.forEach tags fun b tag => b.endSubscription tag last

/-- The subscriptions made on a channel. -/
def tagsOf (b : Broker) (channel : Nat) : List String :=
  (b.subscriptions.filter fun _ s => s.channel == channel).keys

/-- The queues exclusive to a channel. -/
def queuesOf (b : Broker) (channel : Nat) : List String :=
  (b.queues.filter fun _ q => q.owner == some channel).keys

theorem mem_tagsOf {b : Broker} {channel : Nat} {tag : String} :
    tag ∈ b.tagsOf channel ↔ ∃ s, b.subscriptions.get? tag = some s ∧ s.channel = channel := by
  simp only [tagsOf, Table.mem_keys_iff, Table.get?_filter, Option.isSome_iff_exists,
    Option.filter_eq_some_iff, beq_iff_eq]

theorem mem_queuesOf {b : Broker} {channel : Nat} {queue : String} :
    queue ∈ b.queuesOf channel ↔
      ∃ q, b.queues.get? queue = some q ∧ q.owner = some channel := by
  simp only [queuesOf, Table.mem_keys_iff, Table.get?_filter, Option.isSome_iff_exists,
    Option.filter_eq_some_iff, beq_iff_eq]

/-- Shuts a channel down: ends its subscriptions and removes its exclusive
queues. A channel that is closed already stays as it is. -/
def shutdownChannel (b : Broker) (cause : Shutdown) (channel : Nat) : Broker × List Dispatch :=
  if b.isOpen channel then
    let b := b.recordClosed channel cause
    let (b, sent) := b.endSubscriptions (.shutdown cause) (b.tagsOf channel)
    ((b.queuesOf channel).foldl removeQueue b, sent)
  else (b, [])

def shutdownChannels (b : Broker) (cause : Shutdown) (channels : List Nat) :
    Broker × List Dispatch :=
  b.forEach channels fun b channel => b.shutdownChannel cause channel

end Broker

end BrokeredRpc
