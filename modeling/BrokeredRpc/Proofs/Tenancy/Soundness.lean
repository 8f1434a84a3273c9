import BrokeredRpc.Proofs.Client.Returns
import BrokeredRpc.Proofs.Network.Soundness
import BrokeredRpc.Proofs.Tenancy.Steps

/-!
# What holds of every client on a shared broker

A client goes through the phases of its life request by request (`Phase`), and
at each of them it is known which reply queue is its own and which subscription.
The queue is named by the broker, the subscription has been made on it, and the
events of the subscription are those that the client has taken, followed by
those in its inbox (`Heard`). No two clients have the same queue.

* `Sound.step`, `System.Reachable.sound`: every step keeps all of this.
-/
namespace BrokeredRpc

namespace Broker

open Operation (Value)

variable {b : Broker}

/-! ## Names that the broker gives -/

theorem of_declareExclusive_answer {c : Nat} {value : Value}
    (h : (b.perform (.declareExclusive c)).answer = .ok value) :
    value = .name b.nextName ∧
      (b.perform (.declareExclusive c)).broker.namedQueues = b.namedQueues + 1 ∧
      (b.perform (.declareExclusive c)).broker.queues.get? b.nextName = some { owner := some c } := by
  rcases perform_cases b (.declareExclusive c) with ⟨e, hr⟩ | hg
  · rw [hr] at h; cases h
  generalize b.perform (.declareExclusive c) = effect at hg h
  cases hg
  cases h
  exact ⟨rfl, rfl, Table.get?_insert_self _ _ _⟩

theorem name_of_consume_answer {c : Nat} {queue : String} {value : Value}
    (h : (b.perform (.consume c queue)).answer = .ok value) : value = .name value.text := by
  rcases perform_cases b (.consume c queue) with ⟨e, hr⟩ | hg
  · rw [hr] at h; cases h
  generalize b.perform (.consume c queue) = effect at hg h
  cases hg
  cases h
  rfl

end Broker

namespace Tenancy

open Broker (OnIssued Subscribed)
open Broker.Operation (Value)

/-! ## Phases of a client -/

/-- The reply queue of a client, from the moment at which the broker grants it. -/
def queueAt (c : Client) : Option Client.Stage → Option (Except TransportError String) →
    Option String
  | some .declaring, some (.ok queue) => some queue
  | some (.subscribing queue), _ | some (.discarding queue _), _ => some queue
  | _, _ => c.replyQueue?

def Tenant.queue? (t : Tenant) : Option String :=
  queueAt t.client.client t.client.stage t.held

/-- The phases of a client: its stage, the answer that it has not taken yet and its
subscription. -/
inductive Phase (c : Client) : Option Client.Stage → Option (Except TransportError String) →
    Option String → Prop
  | unopened (hl : c.lifecycle = .unopened) : Phase c none none none
  | declaring {held : Option (Except TransportError String)} (hl : c.lifecycle = .unopened) :
      Phase c (some .declaring) held none
  | subscribing {queue : String} {held : Option (Except TransportError String)}
      (hl : c.lifecycle = .unopened) (hh : ∀ tag, held ≠ some (.ok tag)) :
      Phase c (some (.subscribing queue)) held none
  | subscribed {queue tag : String} (hl : c.lifecycle = .unopened) :
      Phase c (some (.subscribing queue)) (some (.ok tag)) (some tag)
  | discarding {queue : String} {failure : TransportError}
      {held : Option (Except TransportError String)} (hl : c.lifecycle = .unopened) :
      Phase c (some (.discarding queue failure)) held none
  | opened {queue tag : String} (hl : c.lifecycle = .opened queue tag) :
      Phase c none none (some tag)
  | cancelling {queue tag : String} {held : Option (Except TransportError String)}
      (hl : c.lifecycle = .opened queue tag) :
      Phase c (some (.cancelling queue tag)) held (some tag)
  | publishing {queue tag id : String} {m : Message}
      {held : Option (Except TransportError String)} (hl : c.lifecycle = .opened queue tag) :
      Phase c (some (.publishing id m)) held (some tag)
  | closed {queue tag : String} (hl : c.lifecycle = .closed queue) :
      Phase c none none (some tag)

theorem queueAt_congr {c c' : Client} (hl : c'.lifecycle = c.lifecycle)
    (stage : Option Client.Stage) (held : Option (Except TransportError String)) :
    queueAt c' stage held = queueAt c stage held := by
  unfold queueAt Client.replyQueue?
  rw [hl]

namespace Phase

variable {c c' : Client} {stage : Option Client.Stage}
  {held : Option (Except TransportError String)} {tag? : Option String}

theorem congr (h : Phase c stage held tag?) (hl : c'.lifecycle = c.lifecycle) :
    Phase c' stage held tag? := by
  cases h with
  | unopened h => exact .unopened (hl.trans h)
  | declaring h => exact .declaring (hl.trans h)
  | subscribing h hh => exact .subscribing (hl.trans h) hh
  | subscribed h => exact .subscribed (hl.trans h)
  | discarding h => exact .discarding (hl.trans h)
  | opened h => exact .opened (hl.trans h)
  | cancelling h => exact .cancelling (hl.trans h)
  | publishing h => exact .publishing (hl.trans h)
  | closed h => exact .closed (hl.trans h)

theorem start {s : Client.System} (h : Phase s.client s.stage held tag?) (op : Client.Operation) :
    Phase (s.start op).client (s.start op).stage held tag? := by
  cases hs : s.stage with
  | some stage =>
    have hsame : s.start op = s := by simp only [Client.System.start, hs]
    rw [hsame]
    exact h
  | none =>
    obtain ⟨hclient, hstage⟩ := Client.System.client_start hs op
    have hlife : (s.start op).client.lifecycle = s.client.lifecycle := by
      rw [hclient, Client.lifecycle_start]
    rw [hs] at h
    refine Phase.congr ?_ hlife
    rw [hstage]
    cases h with
    | unopened hl =>
      cases op with
      | opening => rw [Client.start, Client.startOpen, hl]; exact .declaring hl
      | closing => rw [Client.start, Client.startClose, hl]; exact .unopened hl
      | calling m => rw [Client.start, Client.startCall, hl]; exact .unopened hl
    | opened hl =>
      cases op with
      | opening => rw [Client.start, Client.startOpen, hl]; exact .opened hl
      | closing => rw [Client.start, Client.startClose, hl]; exact .cancelling hl
      | calling m =>
        rw [Client.start, Client.startCall, hl]
        dsimp only
        split
        · exact .opened hl
        · exact .publishing hl
    | closed hl =>
      cases op with
      | opening => rw [Client.start, Client.startOpen, hl]; exact .closed hl
      | closing => rw [Client.start, Client.startClose, hl]; exact .closed hl
      | calling m => rw [Client.start, Client.startCall, hl]; exact .closed hl

theorem answer {s : Client.System} {a : Except TransportError String}
    (h : Phase s.client s.stage (some a) tag?) :
    Phase (s.answer a).client (s.answer a).stage none tag? := by
  generalize hs : s.stage = stage at h
  cases stage with
  | none => cases h
  | some stage =>
    obtain ⟨hclient, hstage⟩ := Client.System.client_answer hs a
    rw [hclient, hstage]
    cases h with
    | declaring hl =>
      cases a with
      | error e => exact .unopened hl
      | ok queue => exact .subscribing hl fun _ h => by cases h
    | subscribing hl hh =>
      cases a with
      | error e => exact .discarding hl
      | ok tag => exact absurd rfl (hh tag)
    | subscribed hl => exact .opened rfl
    | discarding hl => exact .unopened hl
    | cancelling hl =>
      cases a with
      | ok name => exact .closed rfl
      | error e =>
        cases e with
        | channelClosed => exact .closed rfl
        | _ => exact .opened hl
    | publishing hl =>
      cases a with
      | ok name => exact .opened hl
      | error e => cases e <;> exact .opened hl

theorem queueAt_start {s : Client.System} (h : Phase s.client s.stage held tag?)
    (op : Client.Operation) :
    queueAt (s.start op).client (s.start op).stage held = queueAt s.client s.stage held := by
  cases hs : s.stage with
  | some stage =>
    have hsame : s.start op = s := by simp only [Client.System.start, hs]
    rw [hsame, hs]
  | none =>
    have hheld : held = none := by
      rw [hs] at h
      cases h <;> rfl
    obtain ⟨hclient, hstage⟩ := Client.System.client_start hs op
    rw [hstage, hheld, queueAt_congr (hclient ▸ Client.lifecycle_start s.client op)]
    cases op with
    | opening =>
      simp only [Client.start, Client.startOpen]
      split <;> rfl
    | closing =>
      simp only [Client.start, Client.startClose]
      split <;> rfl
    | calling m =>
      simp only [Client.start, Client.startCall]
      split
      · rfl
      · rfl
      · split <;> rfl

theorem queueAt_answer {s : Client.System} {a : Except TransportError String} {queue : String}
    (h : Phase s.client s.stage (some a) tag?)
    (hq : queueAt (s.answer a).client (s.answer a).stage none = some queue) :
    queueAt s.client s.stage (some a) = some queue := by
  generalize hs : s.stage = stage at h
  cases stage with
  | none => cases h
  | some stage =>
    obtain ⟨hclient, hstage⟩ := Client.System.client_answer hs a
    rw [hclient, hstage] at hq
    cases h with
    | declaring hl => cases a <;> exact hq
    | subscribing hl hh =>
      cases a with
      | error e => exact hq
      | ok tag => exact absurd rfl (hh tag)
    | subscribed hl => exact hq
    | discarding hl =>
      have hnone : s.client.replyQueue? = some queue := hq
      rw [Client.replyQueue?, hl] at hnone
      cases hnone
    | cancelling hl =>
      show s.client.replyQueue? = some queue
      rw [Client.replyQueue?, hl]
      cases a with
      | ok name => exact hq
      | error e =>
        cases e with
        | channelClosed => exact hq
        | _ =>
          have hopen : s.client.replyQueue? = some queue := hq
          rwa [Client.replyQueue?, hl] at hopen
    | publishing hl =>
      cases a with
      | ok name => exact hq
      | error e => cases e <;> exact hq

end Phase

/-! ## Moves and requests -/

namespace Tenant

variable {t : Tenant}

def InPhase (t : Tenant) : Prop := Phase t.client.client t.client.stage t.held t.tag?

theorem turn_cases (t : Tenant) :
    (∃ tag event rest, t.client.listener = .idle ∧ t.tag? = some tag ∧ t.inbox = event :: rest ∧
      t.move .turn = { t with client := t.client.receive tag event, inbox := rest }) ∨
      t.move .turn = { t with client := t.client.listen } := by
  simp only [move]
  split
  · next tag event rest hl ht hi => exact Or.inl ⟨tag, event, rest, hl, ht, hi, rfl⟩
  · exact Or.inr rfl

theorem InPhase.move (h : t.InPhase) (m : Move) : (t.move m).InPhase := by
  cases m with
  | start op => exact h.start op
  | answer =>
    cases hh : t.held with
    | none => simp only [Tenant.move, hh]; exact h
    | some a =>
      rw [InPhase, hh] at h
      simp only [Tenant.move, hh]
      exact h.answer
  | turn =>
    rcases t.turn_cases with ⟨tag, event, rest, -, -, -, he⟩ | he <;> rw [he]
    · obtain ⟨hl, hs⟩ := t.client.frame_receive tag event
      rw [InPhase, hs]
      exact h.congr hl
    · obtain ⟨hl, hs⟩ := t.client.frame_listen
      rw [InPhase, hs]
      exact h.congr hl
  | look id =>
    obtain ⟨hl, hs⟩ := t.client.frame_look id
    rw [InPhase, Tenant.move, Client.System.step, hs]
    exact h.congr hl
  | tick => exact h

theorem queue?_move (h : t.InPhase) {m : Move} {queue : String}
    (hq : (t.move m).queue? = some queue) : t.queue? = some queue := by
  cases m with
  | start op => exact (h.queueAt_start op).symm.trans hq
  | answer =>
    cases hh : t.held with
    | none => simpa only [Tenant.move, hh] using hq
    | some a =>
      rw [InPhase, hh] at h
      simp only [Tenant.move, hh] at hq
      rw [queue?, hh]
      exact h.queueAt_answer hq
  | turn =>
    rcases t.turn_cases with ⟨tag, event, rest, -, -, -, he⟩ | he <;> rw [he, queue?] at hq
    · obtain ⟨hl, hs⟩ := t.client.frame_receive tag event
      rw [hs] at hq
      exact (queueAt_congr hl _ _).symm.trans hq
    · obtain ⟨hl, hs⟩ := t.client.frame_listen
      rw [hs] at hq
      exact (queueAt_congr hl _ _).symm.trans hq
  | look id =>
    obtain ⟨hl, hs⟩ := t.client.frame_look id
    rw [Tenant.move, Client.System.step, queue?, hs] at hq
    exact (queueAt_congr hl _ _).symm.trans hq
  | tick => exact hq

theorem stream_append (t : Tenant) (sent more : List Dispatch) :
    t.stream (sent ++ more) = t.stream sent ++ t.stream more := by
  unfold stream
  cases t.tag? with
  | none => rfl
  | some tag => exact eventsTo_append tag sent more

@[simp] theorem channel_move (t : Tenant) (m : Move) : (t.move m).channel = t.channel := by
  cases m <;> simp only [move] <;> split <;> rfl

@[simp] theorem tag?_move (t : Tenant) (m : Move) : (t.move m).tag? = t.tag? := by
  cases m <;> simp only [move] <;> split <;> rfl

theorem InPhase.accept (h : t.InPhase) {stage : Client.Stage} (hs : t.client.stage = some stage)
    (hh : t.held = none) (answer : Except TransportError Value) :
    (t.accept stage answer).InPhase := by
  rw [InPhase, hs, hh] at h
  generalize ht : t.tag? = tag? at h
  have hkeep : ∀ {tag?}, (t.accept stage answer).tag? = tag? →
      Phase t.client.client (some stage) (some (answer.map Value.text)) tag? →
      (t.accept stage answer).InPhase := by
    rintro tag? rfl h
    rw [InPhase]
    exact hs ▸ h
  cases h with
  | declaring hl => exact hkeep ht (.declaring hl)
  | subscribing hl =>
    cases answer with
    | error e => exact hkeep ht (.subscribing hl fun _ h => by cases h)
    | ok value => exact hkeep rfl (.subscribed hl)
  | discarding hl => exact hkeep ht (.discarding hl)
  | cancelling hl => exact hkeep ht (.cancelling hl)
  | publishing hl => exact hkeep ht (.publishing hl)

theorem queue?_accept {stage : Client.Stage} (hs : t.client.stage = some stage)
    (hh : t.held = none) {answer : Except TransportError Value} {queue : String}
    (hq : (t.accept stage answer).queue? = some queue) :
    t.queue? = some queue ∨ stage = .declaring ∧ ∃ value, answer = .ok value ∧
      queue = value.text := by
  replace hq : queueAt t.client.client t.client.stage (some (answer.map Value.text)) =
    some queue := hq
  rw [hs] at hq
  rw [queue?, hs, hh]
  cases stage with
  | declaring =>
    cases answer with
    | error e => exact Or.inl hq
    | ok value =>
      cases hq
      exact Or.inr ⟨rfl, value, rfl, rfl⟩
  | _ => exact Or.inl hq

theorem tag?_accept (h : t.InPhase) {stage : Client.Stage} (hs : t.client.stage = some stage)
    (hh : t.held = none) (answer : Except TransportError Value) :
    (t.accept stage answer).tag? = t.tag? ∨ ∃ queue value, stage = .subscribing queue ∧
      answer = .ok value ∧ t.tag? = none ∧ (t.accept stage answer).tag? = some value.text := by
  rw [InPhase, hs, hh] at h
  generalize ht : t.tag? = tag? at h
  cases h with
  | @subscribing queue =>
    cases answer with
    | error e => exact Or.inl ht
    | ok value => exact Or.inr ⟨queue, value, rfl, rfl, rfl, rfl⟩
  | _ => exact Or.inl ht

theorem InPhase.queue (h : t.InPhase) {tag : String} (ht : t.tag? = some tag) :
    ∃ queue, t.queue? = some queue := by
  rw [InPhase, ht] at h
  rw [queue?]
  generalize t.client.stage = stage at h
  generalize t.held = held at h
  have hopen : ∀ {queue tag}, t.client.client.lifecycle = .opened queue tag →
      t.client.client.replyQueue? = some queue := fun hl => by rw [Client.replyQueue?, hl]
  cases h with
  | @subscribed queue => exact ⟨queue, rfl⟩
  | opened hl => exact ⟨_, hopen hl⟩
  | cancelling hl => exact ⟨_, hopen hl⟩
  | publishing hl => exact ⟨_, hopen hl⟩
  | @closed queue _ hl =>
    have hclosed : t.client.client.replyQueue? = some queue := by rw [Client.replyQueue?, hl]
    exact ⟨queue, hclosed⟩

end Tenant

/-! ## Clients and the history of the broker -/

/-- The client has taken the events of its subscription up to those in its inbox, and they have
left their marks. -/
def Heard (sent : List Dispatch) (t : Tenant) : Prop :=
  ∃ taken, t.stream sent = taken ++ t.inbox ∧
    Client.eventMarks t.client.history = taken.map (Event.mark (t.tag?.getD ""))

/-- What the broker's history has to do with a client. -/
structure Housed (asked : List Broker.Operation) (t : Tenant) : Prop where
  issued : (Broker.run {} asked).1.Issued t.channel
  ran : ∃ timeout labels, t.client = (Client.System.fresh timeout).run labels
  phase : t.InPhase
  named : ∀ queue, t.queue? = some queue →
    ∃ n, n ≤ (Broker.run {} asked).1.namedQueues ∧ queue = Broker.generatedName n
  subscribed : ∀ queue tag, t.queue? = some queue → t.tag? = some tag →
    Subscribed asked tag ⟨t.channel, queue⟩
  heard : Heard (Broker.run {} asked).2 t

theorem Heard.move {sent : List Dispatch} {t : Tenant} (h : Heard sent t) (m : Move) :
    Heard sent (t.move m) := by
  obtain ⟨taken, hs, hmarks⟩ := h
  have hquiet : ∀ client : Client.System,
      Client.eventMarks client.history = Client.eventMarks t.client.history →
      ∀ held, Heard sent { t with client, held } :=
    fun client hsame held => ⟨taken, hs, hsame.trans hmarks⟩
  cases m with
  | start op => exact hquiet _ (t.client.eventMarks_start op) _
  | answer =>
    simp only [Tenant.move]
    split
    · next a _ => exact hquiet _ (t.client.eventMarks_answer a) _
    · exact ⟨taken, hs, hmarks⟩
  | turn =>
    rcases t.turn_cases with ⟨tag, event, rest, hl, ht, hi, he⟩ | he <;> rw [he]
    · refine ⟨taken ++ [event], ?_, ?_⟩
      · rw [List.append_assoc, List.singleton_append, ← hi]
        exact hs
      · rw [Client.System.eventMarks_receive hl, hmarks, ht, List.map_append]
        rfl
    · exact hquiet _ t.client.eventMarks_listen _
  | look id => exact hquiet _ (t.client.eventMarks_look id) _
  | tick => exact hquiet _ rfl _

/-- The marks of the events are those of the events of the subscription. -/
theorem Heard.event {sent : List Dispatch} {t : Tenant} (h : Heard sent t) {m : Client.Mark}
    (hm : m ∈ t.client.history) (he : m.ofEvent = true) :
    ∃ event ∈ t.stream sent, event.mark (t.tag?.getD "") = m := by
  obtain ⟨taken, hs, hmarks⟩ := h
  have hmem := Client.mem_eventMarks.2 ⟨hm, he⟩
  rw [hmarks] at hmem
  obtain ⟨event, hevent, rfl⟩ := List.mem_map.1 hmem
  rw [hs]
  exact ⟨event, List.mem_append_left _ hevent, rfl⟩

namespace Housed

variable {asked : List Broker.Operation} {t : Tenant}

theorem move (h : Housed asked t) (m : Move) : Housed asked (t.move m) where
  issued := by rw [Tenant.channel_move]; exact h.issued
  ran := by
    obtain ⟨timeout, past, hc⟩ := h.ran
    rcases t.client_move m with hm | ⟨label, hm, -, -⟩ <;> rw [hm]
    · exact ⟨timeout, past, hc⟩
    · exact ⟨timeout, past ++ [label], by rw [hc, Client.System.run_append]; rfl⟩
  phase := h.phase.move m
  named queue hq := h.named queue (t.queue?_move h.phase hq)
  subscribed queue tag hq ht := by
    rw [Tenant.tag?_move] at ht
    rw [Tenant.channel_move]
    exact h.subscribed queue tag (t.queue?_move h.phase hq) ht
  heard := h.heard.move m

theorem hear (h : Housed asked t) (op : Broker.Operation) :
    Housed (asked ++ [op]) (t.hear ((Broker.run {} asked).1.perform op).sent) where
  issued := by
    rw [Broker.run_concat]
    exact Broker.issued_perform h.issued
  ran := h.ran
  phase := h.phase
  named queue hq := by
    obtain ⟨n, hn, he⟩ := h.named queue hq
    rw [Broker.run_concat]
    exact ⟨n, Nat.le_trans hn (Broker.namedQueues_le_perform _ op), he⟩
  subscribed queue tag hq ht := (h.subscribed queue tag hq ht).append [op]
  heard := by
    obtain ⟨taken, hs, hmarks⟩ := h.heard
    refine ⟨taken, ?_, hmarks⟩
    show t.stream (Broker.run {} (asked ++ [op])).2 =
      taken ++ (t.inbox ++ t.stream ((Broker.run {} asked).1.perform op).sent)
    rw [Broker.sent_concat, Tenant.stream_append, hs, List.append_assoc]

theorem queue_ne_next (h : Housed asked t) : t.queue? ≠ some (Broker.run {} asked).1.nextName := by
  intro hq
  obtain ⟨n, hn, he⟩ := h.named _ hq
  have := Broker.generatedName_inj.1 he
  omega

theorem heard_ask (h : Housed asked t) (hi : OnIssued {} asked) {stage : Client.Stage}
    (hs : t.client.stage = some stage) (hh : t.held = none)
    {answer : Except TransportError Value}
    (ha : ((Broker.run {} asked).1.perform (t.request stage)).answer = answer) :
    Heard (Broker.run {} (asked ++ [t.request stage])).2
      ((t.accept stage answer).hear ((Broker.run {} asked).1.perform (t.request stage)).sent) := by
  obtain ⟨taken, hstream, hmarks⟩ := h.heard
  rcases Tenant.tag?_accept h.phase hs hh answer with he | ⟨name, value, rfl, rfl, hnone, he⟩
  · have hsame : (t.accept stage answer).stream = t.stream := by
      funext sent
      rw [Tenant.stream, Tenant.stream, he]
    refine ⟨taken, ?_, hmarks.trans ?_⟩
    · show (t.accept stage answer).stream _ = taken ++ (t.inbox ++ (t.accept stage answer).stream _)
      rw [Broker.sent_concat, Tenant.stream_append, hsame, hstream, List.append_assoc]
    · rw [← he]
      rfl
  · -- Nothing has been sent under the new tag before, and no other events have come.
    rw [Tenant.stream, hnone] at hstream
    obtain ⟨rfl, hinbox⟩ := List.append_eq_nil_iff.1 hstream.symm
    have hunused : eventsTo value.text (Broker.run {} asked).2 = [] :=
      Broker.eventsTo_of_answer hi (Broker.name_of_consume_answer ha ▸ ha)
    refine ⟨[], ?_, hmarks⟩
    · show (t.accept (.subscribing name) (.ok value)).stream _ =
        [] ++ (t.inbox ++ (t.accept (.subscribing name) (.ok value)).stream _)
      rw [Broker.sent_concat, Tenant.stream_append, hinbox]
      refine congrArg (· ++ _) ?_
      rw [Tenant.stream, he]
      exact hunused

theorem ask (h : Housed asked t) (hi : OnIssued {} asked) {stage : Client.Stage}
    (hs : t.client.stage = some stage) (hh : t.held = none) :
    Housed (asked ++ [t.request stage])
      ((t.accept stage ((Broker.run {} asked).1.perform (t.request stage)).answer).hear
        ((Broker.run {} asked).1.perform (t.request stage)).sent) := by
  have hheard := h.hear (t.request stage)
  generalize ha : ((Broker.run {} asked).1.perform (t.request stage)).answer = answer
  constructor
  case issued => exact hheard.issued
  case ran => exact h.ran
  case phase => exact h.phase.accept hs hh answer
  case named =>
    intro queue hq
    rcases Tenant.queue?_accept hs hh hq with hq | ⟨rfl, value, rfl, rfl⟩
    · exact hheard.named queue hq
    · obtain ⟨rfl, hn, -⟩ := Broker.of_declareExclusive_answer ha
      refine ⟨(Broker.run {} asked).1.namedQueues + 1, Nat.le_of_eq ?_, rfl⟩
      rw [Broker.run_concat]
      exact hn.symm
  case subscribed =>
    intro queue tag hq ht
    rcases Tenant.tag?_accept h.phase hs hh answer with he | ⟨name, value, rfl, rfl, hnone, he⟩
    · replace ht := he.symm.trans ht
      rcases Tenant.queue?_accept hs hh hq with hq | ⟨rfl, -⟩
      · exact hheard.subscribed queue tag hq ht
      · have hphase := h.phase
        rw [Tenant.InPhase, hs, ht] at hphase
        cases hphase
    · obtain rfl := Option.some.inj (he.symm.trans ht)
      have hqueue : queue = name := by
        rcases Tenant.queue?_accept hs hh hq with hq | ⟨hn, -⟩
        · rw [Tenant.queue?, hs, hh] at hq
          exact (Option.some.inj hq).symm
        · cases hn
      subst hqueue
      refine Broker.happened_concat.2 (Or.inr ⟨rfl, ?_⟩)
      rw [← Broker.name_of_consume_answer ha]
      exact ha
  case heard => exact h.heard_ask hi hs hh ha

theorem fresh (timeout : Timeout) {channel : Nat}
    (hi : (Broker.run {} asked).1.Issued channel) :
    Housed asked { channel, client := .fresh timeout } where
  issued := hi
  ran := ⟨timeout, [], rfl⟩
  phase := .unopened rfl
  named _ hq := by cases hq
  subscribed _ _ _ ht := by cases ht
  heard := ⟨[], rfl, rfl⟩

end Housed

/-! ## Steps -/

/-- The broker is what has been asked of it, and every client fits its history. -/
structure Sound (s : System) : Prop where
  issued : OnIssued {} s.asked
  broker : s.broker = (Broker.run {} s.asked).1
  housed : ∀ (i : Nat) (t : Tenant), s.tenants[i]? = some t → Housed s.asked t
  /-- No two clients have the same queue. -/
  apart : ∀ (i j : Nat) (t u : Tenant) (queue : String), s.tenants[i]? = some t →
    s.tenants[j]? = some u → t.queue? = some queue → u.queue? = some queue → i = j

namespace Sound

variable {s : System}

theorem init : Sound {} where
  issued := trivial
  broker := rfl
  housed _ _ h := by cases h
  apart _ _ _ _ _ h := by cases h

theorem of_queues (h : Sound s) {s' : System} (hi : OnIssued {} s'.asked)
    (hb : s'.broker = (Broker.run {} s'.asked).1)
    (ht : ∀ (i : Nat) (t' : Tenant), s'.tenants[i]? = some t' → Housed s'.asked t' ∧
      ∃ t, s.tenants[i]? = some t ∧ ∀ queue, t'.queue? = some queue → t.queue? = some queue) :
    Sound s' where
  issued := hi
  broker := hb
  housed i t' hi := (ht i t' hi).1
  apart i j t' u' queue hti huj hqt hqu := by
    obtain ⟨-, t, hti, hkeep⟩ := ht i t' hti
    obtain ⟨-, u, huj, hkeep'⟩ := ht j u' huj
    exact h.apart i j t u queue hti huj (hkeep queue hqt) (hkeep' queue hqu)

theorem perform (h : Sound s) {op : Broker.Operation}
    (hi : ∀ c ∈ op.channel?, s.broker.Issued c) : Sound (s.perform op) := by
  refine h.of_queues ?_ ?_ fun i t' ht' => ?_
  · exact Broker.onIssued_append.2 ⟨h.issued, h.broker ▸ hi, trivial⟩
  · show (s.broker.perform op).broker = (Broker.run {} (s.asked ++ [op])).1
    rw [Broker.run_concat, h.broker]
  · rw [getElem?_perform, Option.map_eq_some_iff] at ht'
    obtain ⟨t, ht, rfl⟩ := ht'
    refine ⟨?_, t, ht, fun queue hq => hq⟩
    rw [h.broker]
    exact (h.housed i t ht).hear op

theorem operate (h : Sound s) (op : Broker.Operation) : Sound (s.operate op) := by
  unfold System.operate
  split
  · next hi => exact h.perform hi
  · exact h

theorem connect (h : Sound s) (timeout : Timeout) (channel : Nat) :
    Sound (s.connect timeout channel) := by
  unfold System.connect
  split
  · next hi =>
    have hcases : ∀ (i : Nat) (t : Tenant), (s.tenants.push { channel, client := .fresh timeout })[i]? = some t →
        s.tenants[i]? = some t ∨ t = { channel, client := .fresh timeout } := by
      intro i t ht
      rw [Array.getElem?_push] at ht
      split at ht
      · exact Or.inr (Option.some.inj ht).symm
      · exact Or.inl ht
    refine ⟨h.issued, h.broker, fun i t ht => ?_, fun i j t u queue ht hu hqt hqu => ?_⟩
    · rcases hcases i t ht with ht | rfl
      · exact h.housed i t ht
      · exact .fresh timeout (h.broker ▸ hi)
    · rcases hcases i t ht with ht | rfl
      · rcases hcases j u hu with hu | rfl
        · exact h.apart i j t u queue ht hu hqt hqu
        · cases hqu
      · cases hqt
  · exact h

theorem issued_request (h : Sound s) {i : Nat} {t : Tenant} (ht : s.tenants[i]? = some t)
    (stage : Client.Stage) : ∀ c ∈ (t.request stage).channel?, s.broker.Issued c := by
  intro c hc
  have hch : c = t.channel := by cases stage <;> cases hc <;> rfl
  rw [hch, h.broker]
  exact (h.housed i t ht).issued

theorem queue_ask {i j : Nat} {t u : Tenant} (ht : s.tenants[i]? = some t)
    {stage : Client.Stage} (hs : t.client.stage = some stage) (hh : t.held = none)
    (hu : (s.ask i).tenants[j]? = some u) {queue : String} (hq : u.queue? = some queue) :
    (∃ u', s.tenants[j]? = some u' ∧ u'.queue? = some queue) ∨
      j = i ∧ queue = s.broker.nextName := by
  rw [getElem?_ask ht hs hh] at hu
  split at hu
  · next hij =>
    subst hij
    cases hu
    rcases Tenant.queue?_accept hs hh hq with hq | ⟨rfl, value, ha, rfl⟩
    · exact Or.inl ⟨t, ht, hq⟩
    · rw [(Broker.of_declareExclusive_answer ha).1]
      exact Or.inr ⟨rfl, rfl⟩
  · rw [Option.map_eq_some_iff] at hu
    obtain ⟨u', hu', rfl⟩ := hu
    exact Or.inl ⟨u', hu', hq⟩

theorem ask (h : Sound s) (i : Nat) : Sound (s.ask i) := by
  rcases ask_cases s i with he | ⟨t, stage, ht, hs, hh⟩
  · rw [he]; exact h
  have hasked := h.perform (h.issued_request ht stage)
  constructor
  case issued =>
    rw [asked_ask ht hs hh]
    exact hasked.issued
  case broker =>
    rw [broker_ask ht hs hh, asked_ask ht hs hh]
    exact hasked.broker
  case housed =>
    intro j u hu
    rw [asked_ask ht hs hh]
    rw [getElem?_ask ht hs hh] at hu
    split at hu
    · cases hu
      rw [h.broker]
      exact (h.housed i t ht).ask h.issued hs hh
    · exact hasked.housed j u ((getElem?_perform s _ j).trans hu)
  case apart =>
    intro j k u v queue hu hv hqu hqv
    have hfresh : ∀ {l : Nat} {u' : Tenant}, s.tenants[l]? = some u' →
        u'.queue? ≠ some s.broker.nextName := fun hu' => by
      rw [h.broker]
      exact (h.housed _ _ hu').queue_ne_next
    rcases queue_ask ht hs hh hu hqu with ⟨u', hu', hqu'⟩ | ⟨rfl, rfl⟩ <;>
      rcases queue_ask ht hs hh hv hqv with ⟨v', hv', hqv'⟩ | ⟨hk, hnext⟩
    · exact h.apart j k u' v' queue hu' hv' hqu' hqv'
    · exact absurd (hnext ▸ hqu') (hfresh hu')
    · exact absurd hqv' (hfresh hv')
    · exact hk.symm

theorem move (h : Sound s) (i : Nat) (m : Move) : Sound (s.move i m) := by
  refine h.of_queues h.issued h.broker fun j t' ht' => ?_
  rw [getElem?_move] at ht'
  split at ht'
  · rw [Option.map_eq_some_iff] at ht'
    obtain ⟨t, ht, rfl⟩ := ht'
    have hhoused := h.housed j t ht
    exact ⟨hhoused.move m, t, ht, fun queue => Tenant.queue?_move hhoused.phase⟩
  · exact ⟨h.housed j t' ht', t', ht', fun _ hq => hq⟩

theorem step (h : Sound s) (label : Label) : Sound (s.step label) := by
  cases label with
  | operate op => exact h.operate op
  | connect timeout channel => exact h.connect timeout channel
  | ask i => exact h.ask i
  | move i m => exact h.move i m

theorem run (h : Sound s) (labels : List Label) : Sound (s.run labels) := by
  induction labels generalizing s with
  | nil => exact h
  | cons label rest ih => exact ih (h.step label)

end Sound

/-- **Clients on a shared broker.** Wherever any steps lead, every client is in a phase of its
life, with a queue of its own and the events of its subscription, in their order. -/
theorem System.Reachable.sound {s : System} (h : s.Reachable) : Sound s := by
  obtain ⟨labels, rfl⟩ := h
  exact Sound.init.run labels

end Tenancy

end BrokeredRpc
