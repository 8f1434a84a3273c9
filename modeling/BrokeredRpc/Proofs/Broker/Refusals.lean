import BrokeredRpc.Proofs.Broker.Streams

/-!
# Refused operations

Eight operations of a broker can fail, all of them on a channel: those for which
`Operation.asks?` names it. What is refused has not happened
(`perform_of_error`), so a refused operation can be struck from every history,
whatever comes after it. The first thing that is looked at is the channel, and a
closed one refuses all eight with the cause that closed it
(`perform_of_closedBy`).

* `run_refusal`: both, after every history.
-/
namespace BrokeredRpc.Broker

variable {b : Broker}

/-- The channel of an operation that can be refused. -/
def Operation.asks? : Operation → Option Nat
  | .declareExchange c _ | .declareQueue c _ | .declareExclusive c | .bind c .. | .consume c _
  | .deleteQueue c _ | .cancel c _ | .publish c _ => some c
  | .openChannel | .closeChannel _ | .abortChannel .. | .abortConnection _ => none

theorem Grants.answer_ok {op : Operation} {effect : Effect Operation.Value}
    (h : Grants b op effect) : ∃ value, effect.answer = .ok value := by
  cases h <;> exact ⟨_, rfl⟩

/-- **What is refused has not happened**: the broker is what it was and nothing is sent. -/
theorem perform_of_error {op : Operation} {e : TransportError}
    (h : (b.perform op).answer = .error e) : b.perform op = b.refuse e := by
  rcases perform_cases b op with ⟨e', hr⟩ | hg
  · rw [hr] at h ⊢
    cases h
    rfl
  · obtain ⟨value, hv⟩ := hg.answer_ok
    rw [hv] at h; cases h

/-- **A closed channel** refuses with its cause, before anything else is looked at. -/
theorem perform_of_closedBy {op : Operation} {c : Nat} (ho : op.asks? = some c) {cause : Shutdown}
    (hc : b.closedBy? c = some cause) : b.perform op = b.refuse (.channelClosed cause) := by
  have hshut : ∀ {α : Type} (next : Effect α),
      b.onChannel c next = b.refuse (.channelClosed cause) := fun next => by
    simp only [onChannel, hc]
  cases op <;> cases ho <;>
    simp only [perform, declareExchange, declareQueue, declareExclusive, bind, consume, deleteQueue,
      cancel, publish, hshut] <;>
    rfl

section Cancel

variable {channel : Nat} {tag : String}

theorem cancel_of_closed {cause : Shutdown} (h : b.closedBy? channel = some cause) :
    b.cancel channel tag = b.refuse (.channelClosed cause) := by
  rw [cancel, onChannel, h]

theorem cancel_of_live (ho : b.isOpen channel = true) {s : Subscription}
    (hs : b.subscriptions.get? tag = some s) (hc : s.channel = channel) :
    (b.cancel channel tag).answer = .ok () := by
  rw [cancel, onChannel, isOpen_iff.1 ho]
  simp only [hs, if_pos hc]
  rfl

theorem cancel_of_unknown (ho : b.isOpen channel = true)
    (hs : b.subscriptions.get? tag = none) :
    b.cancel channel tag = b.refuse (.unknownConsumer tag) := by
  rw [cancel, onChannel, isOpen_iff.1 ho]
  simp only [hs]

/-- To cancel a subscription that is not there changes nothing, on whatever channel. -/
theorem perform_cancel_of_absent (h : b.subscriptions.get? tag = none) (channel : Nat) :
    (b.perform (.cancel channel tag)).broker = b ∧ (b.perform (.cancel channel tag)).sent = [] ∧
      (b.isOpen channel = true →
        (b.perform (.cancel channel tag)).answer = .error (.unknownConsumer tag)) := by
  cases hc : b.closedBy? channel with
  | none =>
    have ho := isOpen_iff.2 hc
    rw [perform, cancel_of_unknown ho h]
    exact ⟨rfl, rfl, fun _ => rfl⟩
  | some cause =>
    rw [perform, cancel_of_closed hc]
    refine ⟨rfl, rfl, fun ho => ?_⟩
    rw [isOpen_iff.1 ho] at hc
    cases hc

end Cancel

/-- **Refusals.** After every history, an operation that is answered with an error leaves the
whole broker as it is and sends nothing, so that the history goes on as if it had not been
asked. And a channel that is closed refuses, in this state and in every later one, all that can
be refused, whatever the arguments, with the cause that closed it. -/
theorem run_refusal (ops : List Operation) :
    (∀ op e, ((run {} ops).1.perform op).answer = .error e →
      ((run {} ops).1.perform op).broker = (run {} ops).1 ∧
      ((run {} ops).1.perform op).sent = [] ∧
      ∀ more, run {} (ops ++ op :: more) = run {} (ops ++ more)) ∧
    ∀ c cause, (run {} ops).1.closedBy? c = some cause →
      ∀ more, OnIssued {} (ops ++ more) → ∀ op, op.asks? = some c →
        ((run {} (ops ++ more)).1.perform op).answer = .error (.channelClosed cause) := by
  refine ⟨fun op e he => ?_, fun c cause hc more hm op ho => ?_⟩
  · have hr := perform_of_error he
    refine ⟨by rw [hr]; rfl, by rw [hr]; rfl, fun more => ?_⟩
    rw [run_append, run_append, run, hr]
    rfl
  · have hlater : (run {} (ops ++ more)).1.closedBy? c = some cause := by
      rw [run_append]
      exact closedBy?_run more (onIssued_append.1 hm).2 hc
    rw [perform_of_closedBy ho hlater]
    rfl

/-- An operation that would change the broker is refused: a queue is bound to an exchange that
does not exist, while a message waits in the queue. A second channel is aborted. -/
def refusedHistory : List Operation :=
  [.openChannel, .openChannel, .declareQueue 1 "mail", .publish 2 { routingKey := "mail" },
    .abortChannel 2 "gone"]

theorem run_refusal_bind :
    run {} (refusedHistory ++ [.bind 1 "mail" "jobs" "new", .consume 1 "mail"]) =
        run {} (refusedHistory ++ [.consume 1 "mail"]) ∧
    ((run {} (refusedHistory ++ [.consume 1 "mail", .closeChannel 2])).1.perform
      (.cancel 2 "ctag-9.9")).answer = .error (.channelClosed (.channelAborted 2 "gone")) := by
  obtain ⟨hrefused, hclosed⟩ := run_refusal refusedHistory
  refine ⟨?_, ?_⟩
  · exact (hrefused (.bind 1 "mail" "jobs" "new") (.exchangeNotFound "jobs") rfl).2.2
      [.consume 1 "mail"]
  · exact hclosed 2 _ (by decide) [.consume 1 "mail", .closeChannel 2] (by decide) _ rfl

end BrokeredRpc.Broker
