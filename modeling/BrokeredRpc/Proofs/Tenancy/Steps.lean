import BrokeredRpc.Proofs.Broker.Bystanders
import BrokeredRpc.Proofs.Client.Stranding
import BrokeredRpc.Proofs.Network.Histories

/-!
# Clients that share a broker

Any number of clients, on channels of one broker, with everything that runs at
once: the callers and the listener of each client, the thread that brings it the
events of its reply subscription, and whoever else uses the broker. A request
and its answer are two steps (`ask` and `answer`), so that anything can come
between the moment at which the broker does something and the moment at which
the client learns of it. Everybody else is `operate`: replies, other consumers
and shutdowns are operations on the broker like all others.

`asked` lists what has been asked of the broker so far. It decides nothing.

* `exchange_of_ask_answer`: a request and its answer, with nothing in between,
  are `Network.exchange`.
-/
namespace BrokeredRpc

namespace Client.System

theorem client_start {s : System} (hs : s.stage = none) (op : Operation) :
    (s.start op).client = (s.client.start op).1 ∧
      (s.start op).stage = (s.client.start op).2.stage? := by
  simp only [start, hs]
  rcases s.client.start op with ⟨client, progress⟩
  cases progress with
  | asking stage => cases stage <;> exact ⟨rfl, rfl⟩
  | failed e =>
    dsimp only
    split <;> exact ⟨rfl, rfl⟩
  | done => exact ⟨rfl, rfl⟩
  | waiting => exact ⟨rfl, rfl⟩

theorem client_answer {s : System} {stage : Stage} (hs : s.stage = some stage)
    (a : Except TransportError String) :
    (s.answer a).client = (s.client.resume stage (a.map stage.grant)).1 ∧
      (s.answer a).stage = (s.client.resume stage (a.map stage.grant)).2.stage? := by
  cases stage with
  | publishing id m =>
    simp only [answer, hs]
    rcases a with e | name
    · cases e <;> exact ⟨rfl, rfl⟩
    · exact ⟨rfl, rfl⟩
  | cancelling queue tag =>
    simp only [answer, hs]
    rcases a with e | name
    · cases e <;> exact ⟨rfl, rfl⟩
    · exact ⟨rfl, rfl⟩
  | _ => rcases a with e | name <;> simp only [answer, hs] <;> exact ⟨rfl, rfl⟩

end Client.System

/-- What a client takes of an answer: the name in it. -/
def Broker.Operation.Value.text : Value → String
  | .nothing | .channel _ => ""
  | .name text => text

namespace Tenancy

open Broker (OnIssued)
open Broker.Operation (Value)

/-- A client on a channel. -/
structure Tenant where
  channel : Nat
  client : Client.System
  /-- The broker's answer to the request under way, until the client takes it. -/
  held : Option (Except TransportError String) := none
  /-- The reply subscription, from the moment at which the broker grants it. -/
  tag? : Option String := none
  /-- Events of the reply subscription that the delivery thread has not taken yet. -/
  inbox : List Event := []

/-- What goes on in a client without the broker. -/
inductive Move
  | start (op : Client.Operation)
  /-- The client takes the answer to its request. -/
  | answer
  /-- The delivery thread hands over the next event, or goes on with the last one. -/
  | turn
  | look (id : String)
  | tick (nanos : Nat)

namespace Tenant

def move (t : Tenant) : Move → Tenant
  | .start op => { t with client := t.client.step (.start op) }
  | .answer =>
    match t.held with
    | some answer => { t with client := t.client.step (.answer answer), held := none }
    | none => t
  | .turn =>
    match t.client.listener, t.tag?, t.inbox with
    | .idle, some tag, event :: rest =>
      { t with client := t.client.step (.event tag event), inbox := rest }
    | _, _, _ => { t with client := t.client.step .listen }
  | .look id => { t with client := t.client.step (.look id) }
  | .tick nanos => { t with client := t.client.step (.tick nanos) }

/-- What the client asks the broker for at a stage. -/
def request (t : Tenant) (stage : Client.Stage) : Broker.Operation :=
  Endpoint.request { client := t.client.client, channel := t.channel } stage

/-- The broker has answered the request of a stage. -/
def accept (t : Tenant) (stage : Client.Stage) (answer : Except TransportError Value) : Tenant :=
  { t with
    held := some (answer.map Value.text)
    tag? :=
      match stage, answer with
      | .subscribing _, .ok value => some value.text
      | _, _ => t.tag? }

/-- The events among those sent that are for the client. -/
def stream (t : Tenant) (sent : List Dispatch) : List Event := t.tag?.elim [] (eventsTo · sent)

def hear (t : Tenant) (sent : List Dispatch) : Tenant :=
  { t with inbox := t.inbox ++ t.stream sent }

end Tenant

structure System where
  broker : Broker := {}
  tenants : Array Tenant := #[]
  asked : List Broker.Operation := []

inductive Label
  /-- Somebody asks the broker for something. -/
  | operate (op : Broker.Operation)
  /-- A client is made on a channel. -/
  | connect (timeout : Timeout) (channel : Nat)
  /-- The request under way on a client reaches the broker. -/
  | ask (client : Nat)
  | move (client : Nat) (m : Move)

namespace System

/-- The broker does what it is asked for, and everybody hears of it who should. -/
def perform (s : System) (op : Broker.Operation) : System where
  broker := (s.broker.perform op).broker
  tenants := s.tenants.map (·.hear (s.broker.perform op).sent)
  asked := s.asked ++ [op]

/-- An operation on a channel that has been opened. -/
def operate (s : System) (op : Broker.Operation) : System :=
  if ∀ c ∈ op.channel?, s.broker.Issued c then s.perform op else s

def connect (s : System) (timeout : Timeout) (channel : Nat) : System :=
  if s.broker.Issued channel then
    { s with tenants := s.tenants.push { channel, client := .fresh timeout } }
  else s

def ask (s : System) (index : Nat) : System :=
  match s.tenants[index]? with
  | some t =>
    match t.client.stage, t.held with
    | some stage, none =>
      { s with
        tenants := s.tenants.modify index
          (·.accept stage (s.broker.perform (t.request stage)).answer) }.perform (t.request stage)
    | _, _ => s
  | none => s

def move (s : System) (index : Nat) (m : Move) : System :=
  { s with tenants := s.tenants.modify index (·.move m) }

def step (s : System) : Label → System
  | .operate op => s.operate op
  | .connect timeout channel => s.connect timeout channel
  | .ask index => s.ask index
  | .move index m => s.move index m

def run (s : System) (labels : List Label) : System := labels.foldl step s

/-- Some list of steps leads here from nothing. -/
def Reachable (s : System) : Prop := ∃ labels, s = run {} labels

theorem run_cons (s : System) (label : Label) (rest : List Label) :
    s.run (label :: rest) = (s.step label).run rest := rfl

theorem run_append (s : System) (labels more : List Label) :
    s.run (labels ++ more) = (s.run labels).run more := List.foldl_append

end System

/-! ## What a step does to one client -/

variable {s : System} {i j : Nat} {t : Tenant}

@[simp] theorem getElem?_perform (s : System) (op : Broker.Operation) (i : Nat) :
    (s.perform op).tenants[i]? = s.tenants[i]?.map (·.hear (s.broker.perform op).sent) :=
  Array.getElem?_map

@[simp] theorem getElem?_move (s : System) (i : Nat) (m : Move) (j : Nat) :
    (s.move i m).tenants[j]? = if i = j then s.tenants[j]?.map (·.move m) else s.tenants[j]? :=
  Array.getElem?_modify

@[simp] theorem asked_connect (s : System) (timeout : Timeout) (channel : Nat) :
    (s.connect timeout channel).asked = s.asked := by
  unfold System.connect
  split <;> rfl

@[simp] theorem broker_connect (s : System) (timeout : Timeout) (channel : Nat) :
    (s.connect timeout channel).broker = s.broker := by
  unfold System.connect
  split <;> rfl

theorem getElem?_connect (ht : s.tenants[i]? = some t) (timeout : Timeout) (channel : Nat) :
    (s.connect timeout channel).tenants[i]? = some t := by
  unfold System.connect
  split
  · obtain ⟨hlt, -⟩ := Array.getElem?_eq_some_iff.1 ht
    show (s.tenants.push _)[i]? = some t
    rw [Array.getElem?_push, if_neg (Nat.ne_of_lt hlt)]
    exact ht
  · exact ht

theorem ask_eq (ht : s.tenants[i]? = some t) {stage : Client.Stage}
    (hs : t.client.stage = some stage) (hh : t.held = none) :
    s.ask i = { s with
      tenants := s.tenants.modify i
        (·.accept stage (s.broker.perform (t.request stage)).answer) }.perform
          (t.request stage) := by
  simp only [System.ask, ht, hs, hh]

theorem broker_ask (ht : s.tenants[i]? = some t) {stage : Client.Stage}
    (hs : t.client.stage = some stage) (hh : t.held = none) :
    (s.ask i).broker = (s.broker.perform (t.request stage)).broker := by
  rw [ask_eq ht hs hh]
  rfl

theorem asked_ask (ht : s.tenants[i]? = some t) {stage : Client.Stage}
    (hs : t.client.stage = some stage) (hh : t.held = none) :
    (s.ask i).asked = s.asked ++ [t.request stage] := by
  rw [ask_eq ht hs hh]
  rfl

/-- One client gets the broker's answer; to the others it is as if somebody else had asked. -/
theorem getElem?_ask (ht : s.tenants[i]? = some t) {stage : Client.Stage}
    (hs : t.client.stage = some stage) (hh : t.held = none) (j : Nat) :
    (s.ask i).tenants[j]? =
      if i = j then
        some ((t.accept stage (s.broker.perform (t.request stage)).answer).hear
          (s.broker.perform (t.request stage)).sent)
      else s.tenants[j]?.map (·.hear (s.broker.perform (t.request stage)).sent) := by
  rw [ask_eq ht hs hh, getElem?_perform, Array.getElem?_modify]
  split
  · next hij =>
    rw [← hij, ht]
    rfl
  · rfl

theorem ask_cases (s : System) (i : Nat) :
    s.ask i = s ∨ ∃ t stage, s.tenants[i]? = some t ∧ t.client.stage = some stage ∧
      t.held = none := by
  unfold System.ask
  split
  · next t ht =>
    split
    · next stage hs hh => exact Or.inr ⟨t, stage, ht, hs, hh⟩
    · exact Or.inl rfl
  · exact Or.inl rfl

theorem answer_ask (n : Network) (i : Nat) {e : Endpoint} (hf : e.faults = {})
    (stage : Client.Stage) :
    ((n.broker.perform (e.request stage)).answer.map Value.text).map stage.grant =
      (n.ask i e stage).1 := by
  have hno : Faults.refusal? {} stage = none := by cases stage <;> rfl
  rw [Network.ask.eq_def, hf, hno]
  cases stage with
  | declaring =>
    simp only [Endpoint.request, Broker.perform, Effect.map, Network.absorb]
    cases (n.broker.declareExclusive e.channel).answer <;> rfl
  | subscribing queue =>
    simp only [Endpoint.request, Broker.perform, Effect.map, Network.subscribe, Network.absorb]
    cases (n.broker.consume e.channel queue).answer <;> rfl
  | discarding queue =>
    simp only [Endpoint.request, Broker.perform, Effect.map, Network.absorb]
    cases (n.broker.deleteQueue e.channel queue).answer <;> rfl
  | cancelling queue tag =>
    simp only [Endpoint.request, Broker.perform, Effect.map, Network.absorb]
    cases (n.broker.cancel e.channel tag).answer <;> rfl
  | publishing id m =>
    simp only [Endpoint.request, Broker.perform, Effect.map, Network.absorb]
    cases (n.broker.publish e.channel m).answer <;> rfl

theorem ask_frame (n : Network) (i : Nat) {e : Endpoint} (hf : e.faults = {})
    (stage : Client.Stage) :
    (n.ask i e stage).2.broker = (n.broker.perform (e.request stage)).broker ∧
      (n.ask i e stage).2.endpoints = n.endpoints := by
  by_cases hs : ∃ queue, stage = .subscribing queue
  · obtain ⟨queue, rfl⟩ := hs
    rw [Network.ask_subscribing n i hf]
    rcases Network.subscribe_cases n e.channel queue (.replies i) with ⟨tag, -, h⟩ | ⟨_, h⟩ <;>
      rw [h] <;> exact ⟨rfl, rfl⟩
  · rw [Network.ask_snd n i hf fun queue h => hs ⟨queue, h⟩]
    exact ⟨rfl, rfl⟩

/-- **Requests.** A request and its answer, with nothing in between, do to the broker and to the
client what `Network.exchange` does at once. -/
theorem exchange_of_ask_answer {n : Network} {e : Endpoint} (he : n.endpoints[i]? = some e)
    (hf : e.faults = {}) (hb : s.broker = n.broker) (ht : s.tenants[i]? = some t)
    (hch : t.channel = e.channel) (hc : t.client.client = e.client) {stage : Client.Stage}
    (hs : t.client.stage = some stage) (hh : t.held = none) :
    ((s.ask i).move i .answer).broker = (n.exchange i e stage).2.broker ∧
      ∃ t', ((s.ask i).move i .answer).tenants[i]? = some t' ∧ t'.held = none ∧
        (n.exchange i e stage).2.client? i = some t'.client.client ∧
        t'.client.stage = (n.exchange i e stage).1.stage? := by
  have hreq : t.request stage = e.request stage := by
    cases stage <;> simp only [Tenant.request, Endpoint.request, hch]
  obtain ⟨hbroker, hends⟩ := ask_frame n i hf stage
  refine ⟨?_, ?_⟩
  · show (s.ask i).broker = _
    rw [broker_ask ht hs hh, hreq, hb]
    exact hbroker.symm
  have hclient := Client.System.client_answer hs
    ((n.broker.perform (e.request stage)).answer.map Value.text)
  rw [answer_ask n i hf stage, hc] at hclient
  obtain ⟨hstate, hstage⟩ := hclient
  let t' := ((t.accept stage (n.broker.perform (e.request stage)).answer).hear
    (n.broker.perform (e.request stage)).sent).move .answer
  refine ⟨t', ?_, rfl, ?_, hstage⟩
  · rw [getElem?_move, if_pos rfl, getElem?_ask ht hs hh, if_pos rfl, hreq, hb]
    rfl
  · rw [Network.exchange_eq, Network.client?, Network.getElem?_setClient, if_pos rfl,
      hends, he]
    exact congrArg some hstate.symm

/-- A move is a step of the client's own at most, with the answer that it has got or with an event
from its inbox. -/
theorem Tenant.client_move (t : Tenant) (m : Move) :
    (t.move m).client = t.client ∨ ∃ label, (t.move m).client = t.client.step label ∧
      (∀ answer, label = .answer answer → t.held = some answer) ∧
      ∀ tag event, label = .event tag event → event ∈ t.inbox := by
  have hown : ∀ {label : Client.Label}, (∀ answer, label ≠ .answer answer) →
      (∀ tag event, label ≠ .event tag event) →
      (∀ answer, label = .answer answer → t.held = some answer) ∧
        ∀ tag event, label = .event tag event → event ∈ t.inbox :=
    fun ha he => ⟨fun answer h => absurd h (ha answer), fun tag event h => absurd h (he tag event)⟩
  cases m with
  | start op =>
    exact Or.inr ⟨.start op, rfl, hown (fun _ h => by cases h) (fun _ _ h => by cases h)⟩
  | answer =>
    simp only [Tenant.move]
    split
    · next answer hh =>
      refine Or.inr ⟨.answer answer, rfl, fun a ha => ?_, fun _ _ h => by cases h⟩
      cases ha
      exact hh
    · exact Or.inl rfl
  | turn =>
    simp only [Tenant.move]
    split
    · next tag event rest _ _ hi =>
      refine Or.inr ⟨.event tag event, rfl, (fun _ h => by cases h), fun _ e he => ?_⟩
      cases he
      rw [hi]
      exact List.mem_cons_self
    · exact Or.inr ⟨.listen, rfl, hown (fun _ h => by cases h) (fun _ _ h => by cases h)⟩
  | look id =>
    exact Or.inr ⟨.look id, rfl, hown (fun _ h => by cases h) (fun _ _ h => by cases h)⟩
  | tick nanos =>
    exact Or.inr ⟨.tick nanos, rfl, hown (fun _ h => by cases h) (fun _ _ h => by cases h)⟩

end Tenancy

end BrokeredRpc
