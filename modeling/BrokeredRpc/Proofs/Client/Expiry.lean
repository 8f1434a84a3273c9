import BrokeredRpc.Proofs.Client.Acts

/-!
# Timeouts and late replies

A call that nothing has been told by the time its wait is over takes its slot back
and returns a timeout. Nobody is registered under its id from then on, since ids
are used once (`Unlisted`), so a reply that comes late changes nothing, and a run
with late replies is the run without them (`Unlisted.acts_filter`).

* `run_timeout`: when a call times out and when it does not, and what late replies
  are worth.
-/
namespace BrokeredRpc.Client

/-- Whether an act is the arrival of a reply to the call `id`. -/
def Act.answers (id : String) : Act → Bool
  | .event _ (.delivery d) => d.properties.correlationId == some id
  | _ => false

namespace System

variable {s : System} {id : String}

/-! ## Calls that are not registered -/

/-- The id has been given out, and nobody is registered under it. -/
structure Unlisted (s : System) (id : String) : Prop where
  used : s.Used id
  pending : s.pending? id = none

theorem used_act (h : s.Used id) (a : Act) : (s.act a).Used id := by
  cases a with
  | start op => exact used_moves (start_moves s op) h
  | answer a => exact used_moves (answer_moves s a) h
  | event tag e => exact h
  | look other =>
    simp only [act]
    split
    · next since _ =>
      have hlast : (s.client.look other since s.now).2.lastId = s.client.lastId := by
        rcases look_snd s.client other since s.now with he | he <;> rw [he]
        rfl
      obtain ⟨k, hk, hid⟩ := h
      split <;> next he =>
        rw [he] at hlast
        exact ⟨k, hlast ▸ hk, hid⟩
    · exact h
  | tick nanos => exact h

namespace Unlisted

theorem act (h : s.Unlisted id) (a : Act) : (s.act a).Unlisted id := by
  refine ⟨used_act h.used a, ?_⟩
  cases a with
  | start op => exact (same_start h.used op).pending.trans h.pending
  | answer a =>
    show (s.answer a).pending? id = none
    rcases answer_cases s a with ⟨other, m, -, ⟨-, he⟩ | ⟨e, -, he⟩⟩ | ⟨-, hr⟩
    · rw [he]
      exact h.pending
    · rw [he]
      exact (pending?_take s other id).trans (by rw [h.pending, ite_self])
    · rw [pending?, hr]
      exact h.pending
  | event tag e => exact receive_of_absent h.pending
  | look other =>
    by_cases he : other = id
    · subst he
      simp only [System.act]
      split
      · next since _ =>
        have hlook := look_snd s.client other since s.now
        have hkept : ∀ c : Client, c = s.client ∨ c = s.client.withdraw other →
            c.replies.registry.pending.get? other = none := by
          rintro c (rfl | rfl)
          · exact h.pending
          · exact (Replies.get?_pending_take _ _ _).trans (if_pos rfl)
        split <;> next he => rw [he] at hlook; exact hkept _ hlook
      · exact h.pending
    · exact (same_look he).pending.trans h.pending
  | tick nanos => exact h.pending

theorem acts (l : List Act) : ∀ {s : System}, s.Unlisted id → (s.acts l).Unlisted id := by
  induction l with
  | nil => exact fun h => h
  | cons a rest ih => exact fun h => ih (h.act a)

theorem act_of_answers (h : s.Unlisted id) {a : Act} (ha : a.answers id = true) : s.act a = s := by
  cases a with
  | event tag e =>
    cases e with
    | delivery d =>
      show { s with client := s.client.receive tag (.delivery d) } = s
      rw [receive_of_late h.pending (beq_iff_eq.1 ha)]
    | shutdown => cases ha
    | cancelled => cases ha
  | _ => cases ha

/-- **Late replies are worth nothing.** A run is what it would have been without them. -/
theorem acts_filter (l : List Act) :
    ∀ {s : System}, s.Unlisted id → s.acts l = s.acts (l.filter fun a => !a.answers id) := by
  induction l with
  | nil => exact fun _ => rfl
  | cons a rest ih =>
    intro s h
    cases ha : a.answers id with
    | true =>
      rw [List.filter_cons_of_neg (by simp [ha])]
      refine Eq.trans ?_ (ih h)
      show (s.act a).acts rest = s.acts rest
      rw [h.act_of_answers ha]
    | false =>
      rw [List.filter_cons_of_pos (by simp [ha])]
      exact ih (h.act a)

end Unlisted

/-! ## Calls that time out -/

/-- An act that lets a call return a timeout finds the wait over and nothing told. -/
theorem Concludes.timeout {told : Option Outcome} {a : Act} {i : String} {w : Duration}
    (h : s.Concludes id told a (.error (.timeout i w))) :
    a = .look id ∧ i = id ∧ told = none ∧ s.client.timeout = .after w ∧
      ∃ since, s.calls.get? id = some (.waiting since) ∧
        s.client.timeout.isOver since s.now = true := by
  generalize hr : (Except.error (.timeout i w) : Except CallError Bytes) = result at h
  cases h with
  | @refused m e => cases e <;> cases hr
  | @resolved since outcome => exact absurd hr.symm (outcome.toResult_ne_timeout i w)
  | expired hc ht hd ho =>
    cases hr
    exact ⟨rfl, rfl, ht, hd, _, hc, ho⟩

/-- A call takes its slot out of the registry with the look that times out. -/
theorem look_expired {told : Option Outcome} (h : s.Engages id told) {since : Nat}
    (hc : s.calls.get? id = some (.waiting since)) {d : Duration}
    (hd : s.client.timeout = .after d) (ho : s.client.timeout.isOver since s.now = true)
    (ht : told = none) :
    (s.act (.look id)).calls.get? id = some (.returned (.error (.timeout id d))) ∧
      (s.act (.look id)).pending? id = none := by
  have hvalue : (s.client.replies.slot id).value = none := h.value.trans ht
  have hlook : (s.client.replies.slot id).look s.client.timeout since s.now =
      some (.error ⟨d⟩) := by
    rw [hd] at ho
    simp only [Slot.look, hvalue, hd, ho, if_true]
  have htake : s.client.replies.take id = (some id, (s.client.replies.take id).2) :=
    Prod.ext (h.filed ht) rfl
  simp only [act, hc, Client.look, hlook]
  rw [htake]
  exact ⟨Table.get?_insert_self _ _ _, (Replies.get?_pending_take _ _ _).trans (if_pos rfl)⟩

theorem Engages.of_waiting (h : s.Engages id none) (ho : s.Orderly) {l : List Act} {since : Nat}
    (hc : (s.acts l).calls.get? id = some (.waiting since)) :
    (s.acts l).Engages id (told? id l) := by
  rcases h.acts l ho with hend | ⟨_, _, _, _, -, -, -, hr⟩
  · rwa [Option.none_or] at hend
  · rw [hc] at hr; cases hr

/-- **Timeouts.** A call that has timed out by the end of a run has looked, at some point, when
its wait was over and it had been told nothing; and a call that does that times out. -/
theorem timed_out_iff (h : s.Engages id none) (ho : s.Orderly) {d : Duration}
    (hd : s.client.timeout = .after d) {l : List Act} {i : String} {w : Duration} :
    (s.acts l).calls.get? id = some (.returned (.error (.timeout i w))) ↔
      i = id ∧ w = d ∧ ∃ during rest since, l = during ++ .look id :: rest ∧
        (s.acts during).calls.get? id = some (.waiting since) ∧
        (Timeout.after d).isOver since (s.acts during).now = true ∧ told? id during = none := by
  constructor
  · intro hr
    rcases h.acts l ho with hend | ⟨during, a, rest, result, rfl, hb, hc, hr'⟩
    · rcases hend.call with hc | ⟨since, hc⟩ <;> rw [hr] at hc <;> cases hc
    · rw [hr] at hr'; cases hr'
      rw [Option.none_or] at hc
      obtain ⟨rfl, rfl, ht, hw, since, hwait, hover⟩ := hc.timeout
      rw [timeout_acts, hd] at hw hover
      cases hw
      exact ⟨rfl, rfl, during, rest, since, rfl, hwait, hover, ht⟩
  · rintro ⟨rfl, rfl, during, rest, since, rfl, hwait, hover, ht⟩
    have htimeout : (s.acts during).client.timeout = .after w := (timeout_acts during s).trans hd
    rw [acts_append]
    refine returned_acts rest ((ho.acts during).act _) ?_
    exact (look_expired (h.of_waiting ho hwait) hwait htimeout (by rwa [htimeout]) ht).1

theorem unlisted_of_timed_out (h : s.Engages id none) (ho : s.Orderly) {d : Duration}
    (hd : s.client.timeout = .after d) {l : List Act} {i : String} {w : Duration}
    (hr : (s.acts l).calls.get? id = some (.returned (.error (.timeout i w)))) :
    (s.acts l).Unlisted id := by
  obtain ⟨rfl, rfl, during, rest, since, rfl, hwait, hover, ht⟩ := (timed_out_iff h ho hd).1 hr
  have htimeout : (s.acts during).client.timeout = .after w := (timeout_acts during s).trans hd
  have hon := h.of_waiting ho hwait
  rw [acts_append]
  refine Unlisted.acts rest ⟨used_act (hon.used (ho.acts during)) _, ?_⟩
  exact (look_expired hon hwait htimeout (by rwa [htimeout]) ht).2

/-- **Timeouts and late replies.** A client waits for its calls for `d`. Whatever has happened
to it before, and whatever happens after it has registered a call, each event and each look being
done at once:

* the call has returned a timeout, with its own id and `d`, exactly if it has looked when its wait
  was over and no reply to it and no end of the subscription had come since it was registered;
* while it waits, what came first is what its next look returns, however short `d` is, and if
  nothing has come, that look times out if the wait is over and otherwise changes nothing;
* once the call has timed out it is not registered, and never again. Every reply to it that comes
  then leaves the client as it is, and everything goes on as if no such reply had been sent. -/
theorem run_timeout {d : Duration} {before : List Act} {m : Message} {s r : System} {id : String}
    (hs : s = (fresh (.after d)).acts before) (ha : s.admits (.start (.calling m)) = true)
    (hu : s.sealedBy? = none) (hid : id = s.nextId) (hr : r = s.act (.start (.calling m))) :
    (∀ l i w, (r.acts l).calls.get? id = some (.returned (.error (.timeout i w))) ↔
      i = id ∧ w = d ∧ ∃ during rest since, l = during ++ .look id :: rest ∧
        (r.acts during).calls.get? id = some (.waiting since) ∧
        (Timeout.after d).isOver since (r.acts during).now = true ∧ told? id during = none) ∧
    (∀ during since, (r.acts during).calls.get? id = some (.waiting since) →
      match told? id during with
      | some outcome => ((r.acts during).act (.look id)).calls.get? id =
          some (.returned outcome.toResult)
      | none =>
        if (Timeout.after d).isOver since (r.acts during).now then
          ((r.acts during).act (.look id)).calls.get? id =
            some (.returned (.error (.timeout id d)))
        else (r.acts during).act (.look id) = r.acts during) ∧
    ∀ l i w, (r.acts l).calls.get? id = some (.returned (.error (.timeout i w))) →
      ∀ later, ((r.acts l).acts later).pending? id = none ∧
        (∀ tag delivery, delivery.properties.correlationId = some id →
          ((r.acts l).acts later).client.receive tag (.delivery delivery) =
            ((r.acts l).acts later).client) ∧
        (r.acts l).acts later = (r.acts l).acts (later.filter fun a => !a.answers id) := by
  have horder : s.Orderly := hs ▸ (Orderly.fresh (.after d)).acts before
  have htimeout : r.client.timeout = .after d := by rw [hr, timeout_act, hs, timeout_acts]; rfl
  have hon : r.Engages id none := by rw [hr, hid]; exact .of_start horder ha hu
  have ho : r.Orderly := hr ▸ horder.act _
  refine ⟨fun l i w => timed_out_iff hon ho htimeout, fun during since hwait => ?_,
    fun l i w ht later => ?_⟩
  · have hnow := hon.of_waiting ho hwait
    have hd : (r.acts during).client.timeout = .after d := (timeout_acts during r).trans htimeout
    split
    · next outcome htold =>
      simp only [act, hwait, look_of_filled (hnow.value.trans htold), Table.get?_insert_self]
    · next htold =>
      split
      · next hover => exact (look_expired hnow hwait hd (by rwa [hd]) htold).1
      · next hover =>
        rcases hnow.look with hl | ⟨result, hc, hr⟩
        · exact hl
        · rw [htold] at hc
          cases hc with
          | resolved _ ht => cases ht
          | expired hc' _ _ hover' =>
            rw [hwait] at hc'; cases hc'
            rw [hd] at hover'
            exact absurd hover' hover
  · have hun := unlisted_of_timed_out hon ho htimeout ht
    have hnone := (hun.acts later).pending
    exact ⟨hnone, fun tag delivery hcid => receive_of_late hnone hcid, hun.acts_filter later⟩

/-- A client is opened. -/
def openedActs : List Act := [.start .opening, .answer (.ok "amq.gen-1"), .answer (.ok "ctag-1.1")]

/-- A reply arrives. -/
def replied (id body : String) : Act :=
  .event "ctag-1.1" (.delivery {
    envelope := { deliveryTag := 1, exchange := "", routingKey := "amq.gen-1" }
    properties := { correlationId := some id }
    body := .ofText body })

/-- So many nanoseconds, less than a second. -/
def nanoseconds (n : Nat) (h : n < 1_000_000_000) : Duration := ⟨0, n, by decide, h⟩

/-- A call times out after seven nanoseconds instead of five, and its reply comes while the next
call waits; and with no time to wait at all, a reply that is there is returned. -/
theorem run_timeout_late :
    ∃ five zero r r', five = nanoseconds 5 (by decide) ∧ zero = nanoseconds 0 (by decide) ∧
      r = ((fresh (.after five)).acts openedActs).act (.start (.calling { routingKey := "rpc" })) ∧
      r' = ((fresh (.after zero)).acts openedActs).act (.start (.calling { routingKey := "rpc" })) ∧
      (r.acts [.answer (.ok ""), .tick 7, .look "1"]).calls.get? "1" =
        some (.returned (.error (.timeout "1" five))) ∧
      (r.acts [.answer (.ok ""), .tick 7, .look "1"]).acts
          [.start (.calling { routingKey := "rpc" }), .answer (.ok ""), replied "1" "late",
            replied "2" "pong", .look "2"] =
        (r.acts [.answer (.ok ""), .tick 7, .look "1"]).acts
          [.start (.calling { routingKey := "rpc" }), .answer (.ok ""), replied "2" "pong",
            .look "2"] ∧
      ((r'.acts [.answer (.ok ""), replied "1" "pong", .tick 7]).act (.look "1")).calls.get? "1" =
        some (.returned (.ok (.ofText "pong"))) := by
  refine ⟨_, _, _, _, rfl, rfl, rfl, rfl, ?_⟩
  obtain ⟨htimes, -, hlate⟩ := run_timeout (m := { routingKey := "rpc" })
    (rfl : _ = (fresh (.after (nanoseconds 5 (by decide)))).acts openedActs)
    (by decide) (by decide) rfl rfl
  obtain ⟨-, hfirst, -⟩ := run_timeout (m := { routingKey := "rpc" })
    (rfl : _ = (fresh (.after (nanoseconds 0 (by decide)))).acts openedActs)
    (by decide) (by decide) rfl rfl
  have htimed := (htimes [.answer (.ok ""), .tick 7, .look "1"] "1" (nanoseconds 5 (by decide))).2
    ⟨by decide, rfl, [.answer (.ok ""), .tick 7], [], 0, rfl, rfl, by decide, rfl⟩
  refine ⟨htimed, ?_, ?_⟩
  · exact (hlate _ _ _ htimed _).2.2.trans rfl
  · exact hfirst [.answer (.ok ""), replied "1" "pong", .tick 7] 0 rfl

end System

end BrokeredRpc.Client
