import BrokeredRpc.Proofs.Broker.Refusals
import BrokeredRpc.Proofs.Network.Soundness

/-!
# Closing a client

To close, a client cancels its reply subscription. It forgives the broker that
the channel is closed, but not that the subscription is unknown. So a client
whose subscription was taken from it on a channel that is still open
(`Deserted`) cannot close, and stays open; every other one closes, once and for
all.

* `System.Reachable.closes_unless_deserted`: how a client closes, in every reachable system;
* `close_refused`: a client that stays open.
-/
namespace BrokeredRpc

namespace Network

open Broker (EndedBy)

variable {n : Network} {index : Nat} {e : Endpoint} {queue tag : String}

/-! ## One attempt -/

theorem runClient_closing_idle (he : n.endpoints[index]? = some e)
    (hc : e.client.isOpen = false) : n.runClient index .closing = (.done, n) := by
  have hstart : e.client.start .closing = (e.client, .done) := by
    rw [Client.start, Client.startClose]
    cases hl : e.client.lifecycle with
    | opened queue tag => rw [Client.isOpen, hl] at hc; cases hc
    | unopened => rfl
    | closed => rfl
  rw [runClient_of_conclusion he hstart rfl, setClient_self he]

theorem runClient_closing (he : n.endpoints[index]? = some e) (hf : e.faults = {})
    (hl : e.client.lifecycle = .opened queue tag) {client : Client} {progress : Client.Progress}
    {c : Conclusion} (hr : e.client.resume (.cancelling queue tag)
      (n.broker.cancel e.channel tag).answer = (client, progress))
    (hc : conclusion? progress = some c) :
    n.runClient index .closing =
      (c, (n.absorb (n.broker.cancel e.channel tag)).2.setClient index client) := by
  have hstart : e.client.start .closing = (e.client, .asking (.cancelling queue tag)) := by
    rw [Client.start, Client.startClose, hl]
  have hask : n.ask index e (.cancelling queue tag) =
      n.absorb (n.broker.cancel e.channel tag) := by rw [ask.eq_def, hf]; rfl
  have hx : n.exchange index e (.cancelling queue tag) =
      (progress, (n.absorb (n.broker.cancel e.channel tag)).2.setClient index client) := by
    rw [exchange_eq, hask]
    exact congrArg (fun r => (r.2, Network.setClient _ index r.1)) hr
  rw [runClient_of_asking he hstart, setClient_self he]
  exact advance_of_conclusion he hx hc

/-! ## In every reachable system -/

/-- The client's reply subscription was cancelled, or its queue deleted, by somebody else, and
its channel is open. -/
def Deserted (s : System) (e : Endpoint) (queue tag : String) : Prop :=
  s.network.broker.isOpen e.channel = true ∧ EndedBy s.asked tag ⟨e.channel, queue⟩ .cancelled

/-- The broker answers the cancellation in one of three ways, by how the subscription ended. -/
theorem cancel_cases {s : System} (h : Sound s) (he : s.network.endpoints[index]? = some e)
    (hl : e.client.lifecycle = .opened queue tag) :
    Deserted s e queue tag ∧
        s.network.broker.cancel e.channel tag = s.network.broker.refuse (.unknownConsumer tag) ∨
      ¬Deserted s e queue tag ∧
        ((s.network.broker.cancel e.channel tag).answer = .ok () ∨
          ∃ cause, (s.network.broker.cancel e.channel tag).answer =
            .error (.channelClosed cause)) := by
  obtain ⟨hsub, -⟩ := (h.peopled.attached index e he).subscribed queue tag hl
  have hbroker := h.traced.broker
  cases hc : s.network.broker.closedBy? e.channel with
  | some cause =>
    refine Or.inr ⟨fun hd => ?_, Or.inr ⟨cause, ?_⟩⟩
    · have ho := Broker.isOpen_iff.1 hd.1
      rw [hc] at ho; cases ho
    · rw [Broker.cancel_of_closed hc]; rfl
  | none =>
    have ho := Broker.isOpen_iff.2 hc
    cases Broker.run_stream h.traced.issued tag with
    | unused _ _ hn => exact absurd hsub (hn _).1
    | used _ _ hu hst =>
      obtain rfl := (hu _).1 hsub
      cases hst with
      | goesOn _ _ hs hn =>
        rw [← hbroker] at hs
        exact Or.inr ⟨fun hd => hn _ hd.2, Or.inl (Broker.cancel_of_live ho hs rfl)⟩
      | ended _ last _ hs hlast =>
        rw [← hbroker] at hs
        refine Or.inl ⟨⟨ho, ?_⟩, Broker.cancel_of_unknown ho hs⟩
        have hended := (hlast last).2 rfl
        cases last with
        | delivery d =>
          obtain ⟨past, op, -, hends⟩ := hended
          cases hends.isTerminal
        | cancelled => exact hended
        | shutdown cause =>
          have hclosed := hended.closedBy? h.traced.issued
          rw [← hbroker, hc] at hclosed
          cases hclosed

/-- **Closing.** A client that is not open has nothing to close. One that is open closes for
good and keeps its reply queue, unless its subscription was taken from it on a channel that is
still open: then the broker does not know the subscription, and the client stays as it is. -/
theorem System.Reachable.closes_unless_deserted {s : System} (h : s.Reachable) {index : Nat}
    {e : Endpoint} (he : s.network.endpoints[index]? = some e) :
    (e.client.isOpen = false → s.network.runClient index .closing = (.done, s.network)) ∧
      ∀ queue tag, e.client.lifecycle = .opened queue tag →
        (¬Deserted s e queue tag → ∃ n,
          s.network.runClient index .closing = (.done, n) ∧
            n.client? index = some { e.client with lifecycle := .closed queue } ∧
            (n.client? index).bind Client.replyQueue? = e.client.replyQueue? ∧
            n.runClient index .closing = (.done, n)) ∧
        (Deserted s e queue tag → s.network.runClient index .closing =
          (.failed (.transport (.unknownConsumer tag)), s.network)) := by
  have hf := (h.sound.peopled.attached index e he).faultless
  refine ⟨runClient_closing_idle he, fun queue tag hl => ?_⟩
  obtain ⟨hd, hrefused⟩ | ⟨hnot, hanswer⟩ := cancel_cases h.sound he hl
  · refine ⟨fun hnot => absurd hd hnot, fun _ => ?_⟩
    have hr : e.client.resume (.cancelling queue tag)
        (s.network.broker.cancel e.channel tag).answer =
        (e.client, .failed (.transport (.unknownConsumer tag))) := by rw [hrefused]; rfl
    have hsame : (s.network.absorb (s.network.broker.cancel e.channel tag)).2 = s.network := by
      rw [hrefused, absorb]
      exact congrArg (fun transit => { s.network with transit }) (List.append_nil _)
    rw [runClient_closing he hf hl hr rfl, hsame, setClient_self he]
  · refine ⟨fun _ => ?_, fun hd => absurd hd hnot⟩
    have hr : e.client.resume (.cancelling queue tag)
        (s.network.broker.cancel e.channel tag).answer =
        ({ e.client with lifecycle := .closed queue }, .done) := by
      obtain ha | ⟨cause, ha⟩ := hanswer <;> rw [ha] <;> rfl
    have hclosed : ((s.network.absorb (s.network.broker.cancel e.channel tag)).2.setClient index
        { e.client with lifecycle := .closed queue }).endpoints[index]? =
        some { e with client := { e.client with lifecycle := .closed queue } } :=
      getElem?_setClient_self he _
    refine ⟨_, runClient_closing he hf hl hr rfl, ?_, ?_, runClient_closing_idle hclosed rfl⟩
    · rw [client?, hclosed]; rfl
    · rw [client?, hclosed, Client.replyQueue?, hl]; rfl

/-- A client opens, and its reply queue is deleted on its own channel. -/
def desertion : List Label :=
  [.operate .openChannel, .connect .infinite 1, .start 0 .opening, .exchange 0, .exchange 0,
    .operate (.deleteQueue 1 "amq.gen-1")]

/-- The client is still open after that. -/
def deserted : Endpoint where
  client := { lifecycle := .opened "amq.gen-1" "ctag-1.1" }
  channel := 1

/-- Once the channel is closed as well, nothing is in the way of closing. -/
theorem close_after_shutdown :
    (System.run {} (desertion ++ [.operate (.closeChannel 1)])).network.endpoints[0]? =
        some deserted ∧
      ∃ n, (System.run {} (desertion ++ [.operate (.closeChannel 1)])).network.runClient 0
          .closing = (.done, n) ∧
        n.client? 0 = some { lifecycle := .closed "amq.gen-1" } ∧
        n.runClient 0 .closing = (.done, n) := by
  have he : (System.run {} (desertion ++ [.operate (.closeChannel 1)])).network.endpoints[0]? =
      some deserted := rfl
  obtain ⟨-, hopen⟩ := System.Reachable.closes_unless_deserted ⟨_, rfl⟩ he
  obtain ⟨hcloses, -⟩ := hopen "amq.gen-1" "ctag-1.1" rfl
  obtain ⟨n, hdone, hclient, -, hagain⟩ := hcloses fun hd => absurd hd.1 (by decide)
  exact ⟨he, n, hdone, hclient, hagain⟩

/-- Not every open client closes: the broker no longer knows this one's subscription. -/
theorem close_refused :
    ¬∀ s : System, s.Reachable → ∀ index e, s.network.endpoints[index]? = some e →
      e.client.isOpen = true → ∃ n, s.network.runClient index .closing = (.done, n) := by
  intro hall
  have he : (System.run {} desertion).network.endpoints[0]? = some deserted := rfl
  obtain ⟨n, hdone⟩ := hall _ ⟨desertion, rfl⟩ 0 deserted he rfl
  have hfailed := runClient_closing he rfl rfl rfl rfl
  rw [hfailed] at hdone
  cases hdone

end Network

end BrokeredRpc
