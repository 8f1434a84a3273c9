import BrokeredRpc.Network.Basic
import BrokeredRpc.Proofs.Broker.Fates

/-!
# Histories of a network

A broker, its clients and its consumers run side by side. What is indivisible is
one operation on the broker, one event in the hands of its consumer, one look of
a caller. A `System` is a network with what each client has under way; `step`
makes one such step of whoever is told to go on, and a step that is not possible
changes nothing. The operation of a client advances request by request, with
anything else in between, except for another operation of the same client: that
one waits for the lock.

`asked` lists what has been asked of the broker so far. It decides nothing; by
`Traced` the broker is what these operations make of it, and what is in transit
they have sent.
-/
namespace BrokeredRpc

open Broker (OnIssued)

def Role.isReplies : Role → Bool
  | .replies _ => true
  | _ => false

theorem Role.isReplies_receive {role : Role} (hr : role.isReplies = false) (event : Event) :
    (role.receive event).1.isReplies = false := by
  cases role with
  | replies => cases hr
  | _ => cases event <;> rfl

/-- What a client asks the broker for at a stage. -/
def Endpoint.request (e : Endpoint) : Client.Stage → Broker.Operation
  | .declaring => .declareExclusive e.channel
  | .subscribing queue => .consume e.channel queue
  | .discarding queue _ => .deleteQueue e.channel queue
  | .cancelling _ tag => .cancel e.channel tag
  | .publishing _ m => .publish e.channel m

def Client.Progress.stage? : Progress → Option Stage
  | .asking stage => some stage
  | _ => none

namespace Network

/-! ## Steps -/

/-- What the broker is asked for when an event of a subscription is handled. -/
def answersTo (n : Network) (tag : String) (event : Event) : List Broker.Operation :=
  match n.consumers.get? tag with
  | none | some { role := .replies _, .. } => []
  | some { channel, role } => (role.receive event).2.map (.publish channel)

/-- What the broker is asked for when a subscription's next event is handled. -/
def published (n : Network) (tag : String) : List Broker.Operation :=
  match nextFor? tag n.transit with
  | none => []
  | some (event, _) => n.answersTo tag event

structure System where
  network : Network := {}
  /-- What the operation under way on a client has asked for. -/
  stage? : Nat → Option Client.Stage := fun _ => none
  asked : List Broker.Operation := []

inductive Label
  /-- Somebody asks the broker for something. -/
  | operate (op : Broker.Operation)
  | subscribe (channel : Nat) (queue : String) (role : Role)
  /-- A client is made on a channel. -/
  | connect (timeout : Timeout) (channel : Nat)
  | start (client : Nat) (op : Client.Operation)
  /-- The operation under way on a client gets the broker's answer. -/
  | exchange (client : Nat)
  | handle (tag : String)
  | look (client : Nat) (id : String) (since now : Nat)

namespace System

def setStage (s : System) (index : Nat) (progress : Client.Progress) : System :=
  { s with stage? := fun i => if i = index then progress.stage? else s.stage? i }

/-- An operation on a channel that has been opened. -/
def operate (s : System) (op : Broker.Operation) : System :=
  if ∀ c ∈ op.channel?, s.network.broker.Issued c then
    { s with network := (s.network.operate op).2, asked := s.asked ++ [op] }
  else s

/-- A consumer of any kind but a client's. -/
def subscribe (s : System) (channel : Nat) (queue : String) (role : Role) : System :=
  if s.network.broker.Issued channel ∧ role.isReplies = false then
    { s with
      network := (s.network.subscribe channel queue role).2
      asked := s.asked ++ [.consume channel queue] }
  else s

def connect (s : System) (timeout : Timeout) (channel : Nat) : System :=
  if s.network.broker.Issued channel then
    { s with
      network := { s.network with
        endpoints := s.network.endpoints.push { client := { timeout }, channel } } }
  else s

/-- An operation of a client begins, once the one before is over. -/
def start (s : System) (index : Nat) (op : Client.Operation) : System :=
  match s.stage? index, s.network.endpoints[index]? with
  | none, some e =>
    { s with network := s.network.setClient index (e.client.start op).1 }.setStage index
      (e.client.start op).2
  | _, _ => s

def exchange (s : System) (index : Nat) : System :=
  match s.stage? index, s.network.endpoints[index]? with
  | some stage, some e =>
    { s with
      network := (s.network.exchange index e stage).2
      asked := s.asked ++ [e.request stage] }.setStage index (s.network.exchange index e stage).1
  | _, _ => s

def handle (s : System) (tag : String) : System :=
  { s with network := s.network.handleNext tag, asked := s.asked ++ s.network.published tag }

def look (s : System) (index : Nat) (id : String) (since now : Nat) : System :=
  match s.network.endpoints[index]? with
  | some e => { s with network := s.network.setClient index (e.client.look id since now).2 }
  | none => s

def step (s : System) : Label → System
  | .operate op => s.operate op
  | .subscribe channel queue role => s.subscribe channel queue role
  | .connect timeout channel => s.connect timeout channel
  | .start index op => s.start index op
  | .exchange index => s.exchange index
  | .handle tag => s.handle tag
  | .look index id since now => s.look index id since now

def run (s : System) (labels : List Label) : System := labels.foldl step s

/-- Some list of steps leads here from nothing. -/
def Reachable (s : System) : Prop := ∃ labels, s = run {} labels

end System

/-! ## What a step does -/

theorem getElem?_setClient (n : Network) (index : Nat) (client : Client) (i : Nat) :
    (n.setClient index client).endpoints[i]? =
      if index = i then (n.endpoints[i]?).map ({ · with client }) else n.endpoints[i]? :=
  Array.getElem?_modify

theorem getElem?_setClient_self {n : Network} {index : Nat} {e : Endpoint}
    (he : n.endpoints[index]? = some e) (client : Client) :
    (n.setClient index client).endpoints[index]? = some { e with client } := by
  rw [getElem?_setClient, if_pos rfl, he]
  rfl

theorem handle_of_none {n : Network} {tag : String} (hk : n.consumers.get? tag = none)
    (event : Event) : n.handle tag event = n ∧ n.answersTo tag event = [] := by
  rw [handle, answersTo, hk]
  exact ⟨rfl, rfl⟩

theorem handle_of_client {n : Network} {tag : String} {channel index : Nat} {e : Endpoint}
    (hk : n.consumers.get? tag = some { channel, role := .replies index })
    (he : n.endpoints[index]? = some e) (event : Event) :
    n.handle tag event = n.setClient index (e.client.receive tag event) ∧
      n.answersTo tag event = [] := by
  have hends : n.endpoints.modify index (fun e => { e with client := e.client.receive tag event }) =
      n.endpoints.modify index ({ · with client := e.client.receive tag event }) := by
    refine Array.ext_getElem? fun i => ?_
    rw [Array.getElem?_modify, Array.getElem?_modify]
    split
    · next hi => subst hi; rw [he]; rfl
    · rfl
  rw [handle, answersTo, hk, setClient]
  exact ⟨congrArg (fun endpoints => { n with endpoints }) hends, rfl⟩

theorem handle_of_role {n : Network} {tag : String} {channel : Nat} {role : Role}
    (hk : n.consumers.get? tag = some { channel, role }) (hr : role.isReplies = false)
    (event : Event) :
    n.handle tag event =
        { n with
          consumers := n.consumers.insert tag { channel, role := (role.receive event).1 }
        }.publishAll channel (role.receive event).2 ∧
      n.answersTo tag event = (role.receive event).2.map (.publish channel) := by
  rw [handle, answersTo, hk]
  cases role with
  | replies => cases hr
  | _ => exact ⟨rfl, rfl⟩

/-- What becomes of a network when an event is handled, and what the broker is asked for: there
is nobody to handle it, a client receives it, or another consumer changes and publishes its
answers. -/
inductive Handles (n : Network) (tag : String) (event : Event) :
    Network → List Broker.Operation → Prop
  | nobody (hk : n.consumers.get? tag = none) : Handles n tag event n []
  | client {channel index : Nat}
      (hk : n.consumers.get? tag = some { channel, role := .replies index }) :
      Handles n tag event
        { n with endpoints := n.endpoints.modify index fun e =>
          { e with client := e.client.receive tag event } } []
  | role {channel : Nat} {role : Role} (hk : n.consumers.get? tag = some { channel, role })
      (hr : role.isReplies = false) :
      Handles n tag event
        ({ n with
          consumers := n.consumers.insert tag { channel, role := (role.receive event).1 }
        }.publishAll channel (role.receive event).2)
        ((role.receive event).2.map (.publish channel))

theorem handles (n : Network) (tag : String) (event : Event) :
    Handles n tag event (n.handle tag event) (n.answersTo tag event) := by
  cases hk : n.consumers.get? tag with
  | none =>
    obtain ⟨hn, ha⟩ := handle_of_none hk event
    rw [hn, ha]
    exact .nobody hk
  | some k =>
    obtain ⟨channel, role⟩ := k
    cases hr : role.isReplies with
    | true =>
      obtain ⟨index, rfl⟩ : ∃ index, role = .replies index := by
        cases role <;> cases hr
        exact ⟨_, rfl⟩
      simp only [handle, answersTo, hk]
      exact .client hk
    | false =>
      obtain ⟨hn, ha⟩ := handle_of_role hk hr event
      rw [hn, ha]
      exact .role hk hr

theorem handleNext_of_none {n : Network} {tag : String} (h : nextFor? tag n.transit = none) :
    n.handleNext tag = n ∧ n.published tag = [] := by
  rw [handleNext, published, h]
  exact ⟨rfl, rfl⟩

theorem handleNext_of_some {n : Network} {tag : String} {event : Event} {others : List Dispatch}
    (h : nextFor? tag n.transit = some (event, others)) :
    Handles { n with transit := others } tag event (n.handleNext tag) (n.published tag) := by
  rw [handleNext, published, h]
  exact handles { n with transit := others } tag event

/-- A subscription is granted, and then there is a consumer for it, or it is refused. -/
theorem subscribe_cases (n : Network) (channel : Nat) (queue : String) (role : Role) :
    (∃ tag, (n.broker.perform (.consume channel queue)).answer = .ok (.name tag) ∧
        n.subscribe channel queue role =
          (.ok tag, { (n.operate (.consume channel queue)).2 with
            consumers := n.consumers.insert tag { channel, role } })) ∨
      ∃ refusal, n.subscribe channel queue role =
        (.error refusal, (n.operate (.consume channel queue)).2) := by
  have hanswer : (n.broker.perform (.consume channel queue)).answer =
      (n.broker.consume channel queue).answer.map .name := rfl
  rw [subscribe, absorb, hanswer]
  cases (n.broker.consume channel queue).answer with
  | ok tag => exact Or.inl ⟨tag, rfl, rfl⟩
  | error refusal => exact Or.inr ⟨refusal, rfl⟩

theorem exchange_eq (n : Network) (index : Nat) (e : Endpoint) (stage : Client.Stage) :
    n.exchange index e stage =
      ((e.client.resume stage (n.ask index e stage).1).2,
        (n.ask index e stage).2.setClient index
          (e.client.resume stage (n.ask index e stage).1).1) := rfl

theorem ask_snd (n : Network) (index : Nat) {e : Endpoint} (hf : e.faults = {})
    {stage : Client.Stage} (hs : ∀ queue, stage ≠ .subscribing queue) :
    (n.ask index e stage).2 = (n.operate (e.request stage)).2 := by
  cases stage with
  | subscribing queue => exact absurd rfl (hs queue)
  | _ => rw [ask.eq_def, hf]; rfl

theorem ask_subscribing (n : Network) (index : Nat) {e : Endpoint} (hf : e.faults = {})
    (queue : String) :
    n.ask index e (.subscribing queue) = n.subscribe e.channel queue (.replies index) := by
  rw [ask.eq_def, hf]; rfl

theorem publishAll_eq_run (channel : Nat) (messages : List Message) :
    ∀ n : Network, n.publishAll channel messages =
      { n with
        broker := (n.broker.run (messages.map (.publish channel))).1
        transit := n.transit ++ (n.broker.run (messages.map (.publish channel))).2 } := by
  induction messages with
  | nil =>
    intro n
    rw [List.map_nil, Broker.run, List.append_nil]
    rfl
  | cons m rest ih =>
    intro n
    refine (ih (n.absorb (n.broker.publish channel m)).2).trans ?_
    rw [List.map_cons, Broker.run, absorb]
    simp only [List.append_assoc]
    rfl

theorem onIssued_publish {b : Broker} {channel : Nat} (messages : List Message)
    (h : b.Issued channel) : b.OnIssued (messages.map (.publish channel)) := by
  induction messages generalizing b with
  | nil => trivial
  | cons m rest ih =>
    refine ⟨fun c hc => ?_, ih (Broker.issued_perform h)⟩
    cases hc
    exact h

theorem perm_of_nextFor? {tag : String} {event : Event} {others transit : List Dispatch}
    (h : nextFor? tag transit = some (event, others)) :
    transit.Perm (⟨tag, event⟩ :: others) := by
  induction transit generalizing others with
  | nil => cases h
  | cons d rest ih =>
    rw [nextFor?] at h
    split at h
    · next he => cases h; subst he; exact .refl _
    · rw [Option.map_eq_some_iff] at h
      obtain ⟨⟨event', others'⟩, h', he⟩ := h
      cases he
      exact ((ih h').cons d).trans (.swap _ _ _)

theorem mem_of_nextFor? {tag : String} {event : Event} {others transit : List Dispatch}
    (h : nextFor? tag transit = some (event, others)) :
    ⟨tag, event⟩ ∈ transit ∧ ∀ d ∈ others, d ∈ transit := by
  have hperm := perm_of_nextFor? h
  exact ⟨hperm.mem_iff.2 List.mem_cons_self,
    fun d hd => hperm.mem_iff.2 (List.mem_cons_of_mem _ hd)⟩

/-! ## Whole operations -/

theorem setClient_self {n : Network} {index : Nat} {e : Endpoint}
    (he : n.endpoints[index]? = some e) : n.setClient index e.client = n := by
  have hends : n.endpoints.modify index ({ · with client := e.client }) = n.endpoints := by
    refine Array.ext_getElem? fun i => ?_
    rw [Array.getElem?_modify]
    split
    · next hi => subst hi; rw [he]; rfl
    · rfl
  rw [setClient, hends]

/-- How an operation that has come so far has ended, if it has. -/
def conclusion? : Client.Progress → Option Conclusion
  | .asking _ => none
  | .done => some .done
  | .failed error => some (.failed error)
  | .waiting id => some (.waiting id)

theorem conclusion_cases (progress : Client.Progress) :
    (∃ stage, progress = .asking stage) ∨
      ∃ c, conclusion? progress = some c ∧ progress.stage? = none := by
  cases progress with
  | asking stage => exact Or.inl ⟨stage, rfl⟩
  | done => exact Or.inr ⟨_, rfl, rfl⟩
  | failed => exact Or.inr ⟨_, rfl, rfl⟩
  | waiting => exact Or.inr ⟨_, rfl, rfl⟩

theorem advance_of_conclusion {n n' : Network} {index : Nat} {e : Endpoint} {stage : Client.Stage}
    {progress : Client.Progress} {c : Conclusion} (he : n.endpoints[index]? = some e)
    (hx : n.exchange index e stage = (progress, n')) (hc : conclusion? progress = some c) :
    n.advance index stage = (c, n') := by
  rw [advance, he]
  dsimp only
  split <;> next hx' =>
    cases hx.symm.trans hx'
    cases hc <;> rfl

theorem advance_of_asking {n n' : Network} {index : Nat} {e : Endpoint}
    {stage next : Client.Stage} (he : n.endpoints[index]? = some e)
    (hx : n.exchange index e stage = (.asking next, n')) :
    n.advance index stage = n'.advance index next := by
  rw [advance, he]
  dsimp only
  split <;> next hx' =>
    cases hx.symm.trans hx' <;> rfl

theorem runClient_of_conclusion {n : Network} {index : Nat} {e : Endpoint}
    {op : Client.Operation} {client : Client} {progress : Client.Progress} {c : Conclusion}
    (he : n.endpoints[index]? = some e) (hs : e.client.start op = (client, progress))
    (hc : conclusion? progress = some c) :
    n.runClient index op = (c, n.setClient index client) := by
  simp only [runClient, he, hs]
  cases progress <;> cases hc <;> rfl

theorem runClient_of_asking {n : Network} {index : Nat} {e : Endpoint} {op : Client.Operation}
    {client : Client} {stage : Client.Stage} (he : n.endpoints[index]? = some e)
    (hs : e.client.start op = (client, .asking stage)) :
    n.runClient index op = (n.setClient index client).advance index stage := by
  simp only [runClient, he, hs]

/-! ## What the broker has been asked -/

/-- The broker and the events in transit are those that the operations made. -/
structure Traced (asked : List Broker.Operation) (n : Network) : Prop where
  issued : OnIssued {} asked
  broker : n.broker = (Broker.run {} asked).1
  sent : ∀ d ∈ n.transit, d ∈ (Broker.run {} asked).2

namespace Traced

variable {asked : List Broker.Operation} {n : Network}

theorem of_same (h : Traced asked n) {n' : Network} (hb : n'.broker = n.broker)
    (ht : ∀ d ∈ n'.transit, d ∈ n.transit) : Traced asked n' :=
  ⟨h.issued, hb.trans h.broker, fun d hd => h.sent d (ht d hd)⟩

theorem run (h : Traced asked n) {ops : List Broker.Operation} (hi : n.broker.OnIssued ops)
    {n' : Network} (hb : n'.broker = (n.broker.run ops).1)
    (ht : n'.transit = n.transit ++ (n.broker.run ops).2) : Traced (asked ++ ops) n' := by
  rw [h.broker] at hi hb ht
  refine ⟨Broker.onIssued_append.2 ⟨h.issued, hi⟩, ?_, fun d hd => ?_⟩
  · rw [Broker.run_append]; exact hb
  · rw [Broker.run_append]
    rw [ht] at hd
    exact List.mem_append.2 ((List.mem_append.1 hd).imp_left (h.sent d))

theorem operate (h : Traced asked n) {op : Broker.Operation}
    (hi : ∀ c ∈ op.channel?, n.broker.Issued c) {n' : Network}
    (hb : n'.broker = (n.broker.perform op).broker)
    (ht : n'.transit = n.transit ++ (n.broker.perform op).sent) : Traced (asked ++ [op]) n' := by
  have hone : n.broker.run [op] = ((n.broker.perform op).broker, (n.broker.perform op).sent) :=
    congrArg (Prod.mk _) (List.append_nil _)
  have hissued : n.broker.OnIssued [op] := ⟨hi, trivial⟩
  exact h.run hissued (by rw [hone, hb]) (by rw [hone, ht])

end Traced

end Network

end BrokeredRpc
