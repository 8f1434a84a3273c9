import BrokeredRpc.Proofs.Broker.Routing
import BrokeredRpc.Proofs.Tenancy.Isolation

/-!
# Queues that clients give back

A client takes a queue from the broker, and gives it back when it is closed and when it
fails to open. Between its requests anything may happen: somebody else may delete the
queue first, consume from it, end the client's subscription or shut the channel down.
Whoever was there first, once the client has the answer (`Tenant.Released`) the queue is
gone (`emptied_step`), and then nothing is left of it (`Broker.gone_of_absent`).

* `run_granted`: of all the queues that a client has ever been granted there is at most
  the one that it has now.
-/
namespace BrokeredRpc

namespace Broker

variable {b : Broker}

/-- Nothing is left of the queue: no subscription to it and no binding. -/
structure Gone (b : Broker) (name : String) : Prop where
  queue : b.queues.get? name = none
  unsubscribed : ∀ tag s, b.subscriptions.get? tag = some s → s.queue ≠ name
  unbound : ∀ x bindings, b.exchanges.get? x = some bindings → ∀ m ∈ bindings, m.queue ≠ name

theorem gone_of_absent (hl : b.Linked) (hb : b.Bound) {name : String}
    (h : b.queues.get? name = none) : b.Gone name := by
  refine ⟨h, fun tag s hs he => ?_, fun x bindings hx m hm he => ?_⟩
  · obtain ⟨q, hq, -⟩ := hl.consumer hs
    rw [he, h] at hq; cases hq
  · have hq := hb.existing x bindings hx m hm
    rw [he, h] at hq; cases hq

theorem absent_perform {n : Nat} (hn : n ≤ b.namedQueues) {op : Operation}
    (hop : ∀ c, op ≠ .declareQueue c (generatedName n))
    (h : b.queues.get? (generatedName n) = none) :
    (b.perform op).broker.queues.get? (generatedName n) = none := by
  cases hq : (b.perform op).broker.queues.get? (generatedName n) with
  | none => rfl
  | some q =>
    rcases owner_perform hq with ⟨p, hp, -⟩ | ⟨c, ho⟩ | ⟨c, -, hnext, -⟩
    · rw [h] at hp; cases hp
    · exact absurd ho (hop c)
    · have := generatedName_inj.1 hnext
      omega

/-! ## Queues that are given back -/

theorem absent_delete (hh : b.Held) {c : Nat} {name : String}
    (ho : ∀ q, b.queues.get? name = some q → q.owner = some c) :
    (b.perform (.deleteQueue c name)).broker.queues.get? name = none := by
  have hdelete := broker_deleteQueue b c name
  split at hdelete
  · exact hdelete
  · next hn =>
    rw [hdelete]
    cases hq : b.queues.get? name with
    | none => rfl
    | some q =>
      refine absurd ⟨(hh.owner name q c hq (ho q hq)).2, ?_⟩ hn
      simp [hq, Queue.admits, ho q hq]

/-- A cancellation that is granted, or refused because the channel is closed, leaves no queue
that is exclusive to the channel. -/
theorem absent_cancel (hh : b.Held) {c : Nat} {name tag : String}
    (ho : ∀ q, b.queues.get? name = some q → q.owner = some c)
    (hs : ∀ s, b.subscriptions.get? tag = some s → s.queue = name)
    (ha : ∀ e, (b.perform (.cancel c tag)).answer = .error e → ∃ cause, e = .channelClosed cause) :
    (b.perform (.cancel c tag)).broker.queues.get? name = none := by
  rcases perform_cases b (.cancel c tag) with ⟨e, hr⟩ | hg
  · obtain ⟨cause, rfl⟩ := ha e (by rw [hr]; rfl)
    rw [hr]
    cases hq : b.queues.get? name with
    | none => exact hq
    | some q =>
      -- The channel of the owner is open, so the refusal would be another one.
      have hopen := isOpen_iff.1 (hh.owner name q c hq (ho q hq)).2
      have hanswer := congrArg Effect.answer hr
      simp only [perform, cancel, onChannel, hopen] at hanswer
      split at hanswer
      · split at hanswer <;> cases hanswer
      · cases hanswer
  · generalize b.perform (.cancel c tag) = effect at hg
    cases hg with
    | @cancelled _ _ s _ hsub _ =>
      have hname := hs s hsub
      show (b.endSubscription tag .cancelled).1.queues.get? name = none
      simp only [endSubscription, hsub, get?_queues_detach, if_pos hname]
      cases hq : b.queues.get? name with
      | none => rfl
      | some q => simp [ho q hq]

end Broker

namespace Tenancy

open Broker (generatedName)
open Broker.Operation (Value)

variable {s : System} {i j : Nat} {t u : Tenant}

/-! ## Clients that have given their queue back -/

/-- The client has given its queue back: it is closed, or the broker has answered the last request
with which it closes or fails to open. -/
def ReleasedAt (c : Client) : Option Client.Stage → Option (Except TransportError String) → Prop
  | some (.discarding ..), some _ => True
  | some (.cancelling ..), some (.ok _) => True
  | some (.cancelling ..), some (.error (.channelClosed _)) => True
  | _, _ => ∃ queue, c.lifecycle = .closed queue

def Tenant.Released (t : Tenant) : Prop :=
  ReleasedAt t.client.client t.client.stage t.held

theorem Phase.not_closed {c : Client} {stage : Client.Stage}
    {held : Option (Except TransportError String)} {tag? : Option String}
    (h : Phase c (some stage) held tag?) (queue : String) : c.lifecycle ≠ .closed queue := by
  intro hl
  cases h with
  | declaring h | subscribing h | subscribed h | discarding h | cancelling h | publishing h =>
    rw [hl] at h
    cases h

/-- What an answer does to a client that has given its queue back, and to one that has not. -/
theorem Phase.answered {s : Client.System} {a : Except TransportError String} {tag? : Option String}
    (h : Phase s.client s.stage (some a) tag?) :
    (ReleasedAt s.client s.stage (some a) ∧
        (tag? = none ∨ ReleasedAt (s.answer a).client (s.answer a).stage none)) ∨
      ¬ReleasedAt s.client s.stage (some a) ∧
        ¬ReleasedAt (s.answer a).client (s.answer a).stage none ∧
        queueAt (s.answer a).client (s.answer a).stage none =
          queueAt s.client s.stage (some a) := by
  generalize hs : s.stage = stage at h
  cases stage with
  | none => cases h
  | some stage =>
    obtain ⟨hclient, hstage⟩ := Client.System.client_answer hs a
    rw [hclient, hstage]
    have hno : ¬∃ queue, s.client.lifecycle = .closed queue := by
      rintro ⟨queue, hl⟩
      exact h.not_closed queue hl
    cases h with
    | declaring hl => exact Or.inr ⟨hno, by cases a <;> exact hno, by cases a <;> rfl⟩
    | subscribing hl hh =>
      cases a with
      | error e => exact Or.inr ⟨hno, hno, rfl⟩
      | ok tag => exact absurd rfl (hh tag)
    | subscribed hl => exact Or.inr ⟨hno, nofun, rfl⟩
    | discarding hl => exact Or.inl ⟨trivial, Or.inl rfl⟩
    | cancelling hl =>
      cases a with
      | ok name => exact Or.inl ⟨trivial, Or.inr ⟨_, rfl⟩⟩
      | error e =>
        cases e with
        | channelClosed cause => exact Or.inl ⟨trivial, Or.inr ⟨_, rfl⟩⟩
        | _ => exact Or.inr ⟨hno, hno, rfl⟩
    | publishing hl =>
      cases a with
      | ok name => exact Or.inr ⟨hno, hno, rfl⟩
      | error e => cases e <;> exact Or.inr ⟨hno, hno, rfl⟩

theorem releasedAt_congr {c c' : Client} (hl : c'.lifecycle = c.lifecycle)
    (stage : Option Client.Stage) (held : Option (Except TransportError String)) :
    ReleasedAt c' stage held ↔ ReleasedAt c stage held := by
  unfold ReleasedAt
  rw [hl]

theorem releasedAt_none {c : Client} {stage : Option Client.Stage} :
    ReleasedAt c stage none ↔ ∃ queue, c.lifecycle = .closed queue := by
  cases stage with
  | none => rfl
  | some stage => cases stage <;> rfl

theorem Phase.held_of_idle {c : Client} {held : Option (Except TransportError String)}
    {tag? : Option String} (h : Phase c none held tag?) : held = none := by
  cases h <;> rfl

theorem Phase.releasedAt_start {s : Client.System} {held : Option (Except TransportError String)}
    {tag? : Option String} (h : Phase s.client s.stage held tag?) (op : Client.Operation) :
    ReleasedAt (s.start op).client (s.start op).stage held ↔
      ReleasedAt s.client s.stage held := by
  cases hs : s.stage with
  | some stage =>
    have hsame : s.start op = s := by simp only [Client.System.start, hs]
    rw [hsame, hs]
  | none =>
    rw [hs] at h
    rw [h.held_of_idle, releasedAt_none, releasedAt_none,
      (Client.System.client_start hs op).1, Client.lifecycle_start]

namespace Tenant

/-- A client begins something, it takes an answer, or it stays at its stage. -/
theorem move_cases (t : Tenant) (m : Move) :
    (∃ op, m = .start op) ∨ m = .answer ∨
      (t.move m).client.client.lifecycle = t.client.client.lifecycle ∧
        (t.move m).client.stage = t.client.stage ∧ (t.move m).held = t.held := by
  cases m with
  | start op => exact Or.inl ⟨op, rfl⟩
  | answer => exact Or.inr (Or.inl rfl)
  | turn =>
    refine Or.inr (Or.inr ?_)
    rcases t.turn_cases with ⟨tag, event, rest, -, -, -, he⟩ | he <;> rw [he]
    · exact ⟨(t.client.frame_receive tag event).1, (t.client.frame_receive tag event).2, rfl⟩
    · exact ⟨t.client.frame_listen.1, t.client.frame_listen.2, rfl⟩
  | look id => exact Or.inr (Or.inr ⟨(t.client.frame_look id).1, (t.client.frame_look id).2, rfl⟩)
  | tick nanos => exact Or.inr (Or.inr ⟨rfl, rfl, rfl⟩)

/-- A client keeps its queue until it has given it back, and what it has given back it does not
take again. -/
theorem InPhase.moved (h : t.InPhase) (m : Move) :
    t.Released ∧ (t.tag? = none ∨ (t.move m).Released) ∨
      ¬t.Released ∧ ¬(t.move m).Released ∧ (t.move m).queue? = t.queue? := by
  have hsame : ((t.move m).Released ↔ t.Released) → (t.move m).queue? = t.queue? →
      t.Released ∧ (t.tag? = none ∨ (t.move m).Released) ∨
        ¬t.Released ∧ ¬(t.move m).Released ∧ (t.move m).queue? = t.queue? := by
    intro hr hq
    rw [hr]
    by_cases hrel : t.Released
    · exact Or.inl ⟨hrel, Or.inr hrel⟩
    · exact Or.inr ⟨hrel, hrel, hq⟩
  rcases t.move_cases m with ⟨op, rfl⟩ | rfl | ⟨hlife, hstage, hheld⟩
  · exact hsame (h.releasedAt_start op) (h.queueAt_start op)
  · cases hh : t.held with
    | none =>
      have hidle : t.move .answer = t := by simp only [Tenant.move, hh]
      exact hsame (by rw [hidle]) (by rw [hidle])
    | some a =>
      rw [InPhase, hh] at h
      rw [Released, Released, queue?, queue?, hh]
      simp only [Tenant.move, hh]
      exact h.answered
  · refine hsame ?_ ?_
    · rw [Released, hstage, hheld]
      exact releasedAt_congr hlife _ _
    · rw [queue?, hstage, hheld]
      exact queueAt_congr hlife _ _

/-- An answer that a client has after a move it had before it, at the same stage. -/
theorem InPhase.held_of_move (h : t.InPhase) {m : Move} {a : Except TransportError String}
    (ha : (t.move m).held = some a) :
    t.held = some a ∧ (t.move m).client.stage = t.client.stage := by
  rcases t.move_cases m with ⟨op, rfl⟩ | rfl | ⟨-, hstage, hheld⟩
  · replace ha : t.held = some a := ha
    refine ⟨ha, ?_⟩
    show (t.client.start op).stage = t.client.stage
    cases hs : t.client.stage with
    | some stage => simp only [Client.System.start, hs]
    | none =>
      rw [InPhase, hs] at h
      rw [h.held_of_idle] at ha
      cases ha
  · cases hh : t.held <;> simp only [Tenant.move, hh] at ha <;> cases ha
  · exact ⟨hheld.symm.trans ha, hstage⟩

end Tenant

/-! ## Queues that have been given back are gone -/

namespace Sound

theorem linked (h : Sound s) (hnames : ∀ c n, .declareQueue c (generatedName n) ∉ s.asked) :
    s.broker.Linked := by
  rw [h.broker]
  exact Broker.run_linked h.issued hnames

theorem bound (h : Sound s) : s.broker.Bound := by
  rw [h.broker]
  exact Broker.run_bound h.issued

theorem held (h : Sound s) : s.broker.Held := by
  rw [h.broker]
  exact Broker.run_held h.issued

theorem own (h : Sound s) (ht : s.tenants[i]? = some t) {queue tag : String}
    (hq : t.queue? = some queue) (hg : t.tag? = some tag) {sub : Subscription}
    (hs : s.broker.subscriptions.get? tag = some sub) : sub = ⟨t.channel, queue⟩ := by
  rw [h.broker] at hs
  exact Broker.subscribed_unique h.issued (Broker.subscribed_of_live h.issued hs)
    ((h.housed i t ht).subscribed queue tag hq hg)

theorem absent_perform (h : Sound s) {op : Broker.Operation}
    (hop : ∀ c n, op ≠ .declareQueue c (generatedName n)) (ht : s.tenants[i]? = some t)
    {queue : String} (hq : t.queue? = some queue) (hn : s.broker.queues.get? queue = none) :
    (s.broker.perform op).broker.queues.get? queue = none := by
  obtain ⟨n, hle, rfl⟩ := (h.housed i t ht).named queue hq
  exact Broker.absent_perform (h.broker ▸ hle) (fun c => hop c n) hn

end Sound

/-- Of a queue that a client has given back nothing is left. -/
def Emptied (s : System) : Prop :=
  ∀ (i : Nat) (t : Tenant) (queue : String), s.tenants[i]? = some t → t.queue? = some queue →
    t.Released → s.broker.queues.get? queue = none

/-- With the last answer to a client that closes or fails to open, its queue is gone. -/
theorem Sound.absent_request (h : Sound s) (ho : Owned s) (ht : s.tenants[i]? = some t)
    {stage : Client.Stage} (hs : t.client.stage = some stage) (hh : t.held = none)
    {queue : String}
    (hq : (t.accept stage (s.broker.perform (t.request stage)).answer).queue? = some queue)
    (hr : (t.accept stage (s.broker.perform (t.request stage)).answer).Released) :
    (s.broker.perform (t.request stage)).broker.queues.get? queue = none := by
  have hphase := (h.housed i t ht).phase
  rw [Tenant.InPhase, hs, hh] at hphase
  replace hr : ReleasedAt t.client.client t.client.stage
    (some ((s.broker.perform (t.request stage)).answer.map Value.text)) := hr
  rw [hs] at hr
  have hkept : stage ≠ .declaring → t.queue? = some queue := fun hne =>
    (Tenant.queue?_accept hs hh hq).resolve_right fun hd => hne hd.1
  have howner : t.queue? = some queue →
      ∀ q, s.broker.queues.get? queue = some q → q.owner = some t.channel :=
    fun hq q => ho i t queue q ht hq
  generalize hg : t.tag? = tag? at hphase
  cases hphase with
  | declaring hl => simp [ReleasedAt, hl] at hr
  | subscribing hl => simp [ReleasedAt, hl] at hr
  | publishing hl => simp [ReleasedAt, hl] at hr
  | @discarding name failure _ hl =>
    have hold := hkept fun hd => by cases hd
    obtain rfl : name = queue := by
      rw [Tenant.queue?, hs] at hold
      exact Option.some.inj hold
    exact Broker.absent_delete h.held (howner hold)
  | @cancelling name tag _ hl =>
    have hold := hkept fun hd => by cases hd
    refine Broker.absent_cancel h.held (howner hold) (fun sub hsub => ?_) fun e he => ?_
    · rw [h.own ht hold hg hsub]
    · have hrefused : (s.broker.perform (t.request (.cancelling name tag))).answer = .error e := he
      rw [hrefused] at hr
      cases e with
      | channelClosed cause => exact ⟨cause, rfl⟩
      | _ => simp [ReleasedAt, Except.map, hl] at hr

theorem emptied_step (h : Sound s) (ho : Owned s) (he : Emptied s) (label : Label)
    (hnames : ∀ c n, .declareQueue c (generatedName n) ∉ (s.step label).asked) :
    Emptied (s.step label) := by
  cases label with
  | operate op =>
    simp only [System.step, System.operate] at hnames ⊢
    split
    · next hop =>
      rw [if_pos hop] at hnames
      have hne := undeclared_of_names hnames
      intro k t' queue ht' hq hr
      rw [getElem?_perform, Option.map_eq_some_iff] at ht'
      obtain ⟨t, ht, rfl⟩ := ht'
      exact h.absent_perform hne ht hq (he k t queue ht hq hr)
    · exact he
  | connect timeout channel =>
    simp only [System.step, System.connect]
    split
    · intro k t queue ht hq hr
      replace ht : (s.tenants.push _)[k]? = some t := ht
      rw [Array.getElem?_push] at ht
      split at ht
      · cases ht
        cases hq
      · exact he k t queue ht hq hr
    · exact he
  | ask i =>
    simp only [System.step]
    rcases ask_cases s i with hsame | ⟨t, stage, ht, hs, hh⟩
    · rw [hsame]; exact he
    have hne : ∀ c n, t.request stage ≠ .declareQueue c (generatedName n) := fun c n =>
      t.request_ne_declareQueue stage c _
    intro k u queue hu hq hr
    rw [broker_ask ht hs hh]
    rw [getElem?_ask ht hs hh] at hu
    split at hu
    · cases hu
      exact h.absent_request ho ht hs hh hq hr
    · rw [Option.map_eq_some_iff] at hu
      obtain ⟨u', hu', rfl⟩ := hu
      exact h.absent_perform hne hu' hq (he k u' queue hu' hq hr)
  | move i m =>
    intro k t' queue ht' hq hr
    simp only [System.step] at ht'
    rw [getElem?_move] at ht'
    split at ht'
    · rw [Option.map_eq_some_iff] at ht'
      obtain ⟨t, ht, rfl⟩ := ht'
      have hphase := (h.housed k t ht).phase
      refine he k t queue ht (Tenant.queue?_move hphase hq) ?_
      exact (hphase.moved m).elim (·.1) fun hn => absurd hr hn.2.1
    · exact he k t' queue ht' hq hr

/-- What holds of a system in which no caller declares a queue under a name of the broker's own. -/
structure Orderly (s : System) : Prop where
  sound : Sound s
  owned : Owned s
  emptied : Emptied s
  undeclared : ∀ c n, .declareQueue c (generatedName n) ∉ s.asked

namespace Orderly

theorem init : Orderly {} where
  sound := .init
  owned _ _ _ _ ht := by cases ht
  emptied _ _ _ ht := by cases ht
  undeclared _ _ hm := by cases hm

theorem step (h : Orderly s) (label : Label)
    (hnames : ∀ c n, .declareQueue c (generatedName n) ∉ (s.step label).asked) :
    Orderly (s.step label) :=
  ⟨h.sound.step label, owned_step h.sound h.owned label hnames,
    emptied_step h.sound h.owned h.emptied label hnames, hnames⟩

theorem run (labels : List Label) : ∀ {s : System}, Orderly s →
    (∀ c n, .declareQueue c (generatedName n) ∉ (s.run labels).asked) →
    Orderly (s.run labels) := by
  induction labels with
  | nil => exact fun h _ => h
  | cons label rest ih =>
    intro s h hnames
    exact ih (h.step label (names_of_run rest hnames)) hnames

end Orderly

/-! ## Names that a client has been granted -/

/-- The broker has granted the client at `i` a queue of this name. -/
def Granted (labels : List Label) (i : Nat) (name : String) : Prop :=
  ∃ past t, past ++ [.ask i] <+: labels ∧ (System.run {} past).tenants[i]? = some t ∧
    t.client.stage = some .declaring ∧ t.held = none ∧
    ((System.run {} past).broker.perform (t.request .declaring)).answer = .ok (.name name)

/-- The name has been given out, and it is that of the client's queue, or no queue has it. -/
def Spent (s : System) (i : Nat) (name : String) : Prop :=
  ∃ t n, s.tenants[i]? = some t ∧ n ≤ s.broker.namedQueues ∧ name = generatedName n ∧
    (t.queue? = some name ∨ s.broker.queues.get? name = none)

theorem Tenant.queue?_accept_of (h : t.InPhase) {stage : Client.Stage}
    (hs : t.client.stage = some stage) (hh : t.held = none) {queue : String}
    (hq : t.queue? = some queue) (answer : Except TransportError Value) :
    (t.accept stage answer).queue? = some queue := by
  rw [InPhase, hs, hh] at h
  rw [queue?, hs, hh] at hq
  show queueAt t.client.client t.client.stage (some (answer.map Value.text)) = some queue
  rw [hs]
  generalize t.tag? = tag? at h
  cases h with
  | declaring hl =>
    have hnone : t.client.client.replyQueue? = some queue := hq
    rw [Client.replyQueue?, hl] at hnone
    cases hnone
  | _ => exact hq

theorem Spent.perform {name : String} {op : Broker.Operation}
    (hop : ∀ c n, op ≠ .declareQueue c (generatedName n)) {s' : System}
    (hb : s'.broker = (s.broker.perform op).broker) (h : Spent s i name)
    (ht : ∀ t, s.tenants[i]? = some t → ∃ t', s'.tenants[i]? = some t' ∧
      (t.queue? = some name → t'.queue? = some name)) : Spent s' i name := by
  obtain ⟨t, n, hget, hle, rfl, hcases⟩ := h
  obtain ⟨t', hget', hkeep⟩ := ht t hget
  have hmono := Broker.namedQueues_le_perform s.broker op
  refine ⟨t', n, hget', hb ▸ Nat.le_trans hle hmono, rfl, hcases.imp hkeep fun hn => ?_⟩
  rw [hb]
  exact Broker.absent_perform hle (fun c => hop c n) hn

theorem Spent.step {name : String} (h : Spent s i name) (ho : Orderly s) (label : Label)
    (hnames : ∀ c n, .declareQueue c (generatedName n) ∉ (s.step label).asked) :
    Spent (s.step label) i name := by
  cases label with
  | operate op =>
    simp only [System.step, System.operate] at hnames ⊢
    split
    · next hop =>
      rw [if_pos hop] at hnames
      have hne := undeclared_of_names hnames
      exact h.perform hne rfl fun t ht =>
        ⟨t.hear (s.broker.perform op).sent, by rw [getElem?_perform, ht]; rfl, fun hq => hq⟩
    · exact h
  | connect timeout channel =>
    obtain ⟨t, n, ht, hle, hname, hcases⟩ := h
    refine ⟨t, n, getElem?_connect ht timeout channel, ?_, hname, ?_⟩ <;>
      rw [System.step, broker_connect]
    · exact hle
    · exact hcases
  | ask k =>
    simp only [System.step]
    rcases ask_cases s k with hsame | ⟨t, stage, ht, hs, hh⟩
    · rw [hsame]; exact h
    refine h.perform (fun c n => t.request_ne_declareQueue stage c _) (broker_ask ht hs hh)
      fun u hu => ?_
    rw [getElem?_ask ht hs hh]
    split
    · next hki =>
      subst hki
      rw [ht] at hu; cases hu
      exact ⟨_, rfl, fun hq =>
        Tenant.queue?_accept_of (ho.sound.housed k t ht).phase hs hh hq _⟩
    · rw [hu]
      exact ⟨_, rfl, fun hq => hq⟩
  | move k m =>
    obtain ⟨t, n, ht, hle, hname, hcases⟩ := h
    simp only [System.step]
    by_cases hki : k = i
    · subst hki
      refine ⟨t.move m, n, by rw [getElem?_move, if_pos rfl, ht]; rfl, hle, hname, ?_⟩
      rcases hcases with hq | hn
      · rcases (ho.sound.housed k t ht).phase.moved m with ⟨hr, -⟩ | ⟨-, -, hsame⟩
        · exact Or.inr (ho.emptied k t name ht hq hr)
        · exact Or.inl (hsame.trans hq)
      · exact Or.inr hn
    · exact ⟨t, n, by rw [getElem?_move, if_neg hki]; exact ht, hle, hname, hcases⟩

theorem spent_of_granted (ht : s.tenants[i]? = some t)
    (hs : t.client.stage = some .declaring) (hh : t.held = none) {name : String}
    (ha : (s.broker.perform (t.request .declaring)).answer = .ok (.name name)) :
    Spent (s.ask i) i name := by
  obtain ⟨hname, hnext, -⟩ := Broker.of_declareExclusive_answer ha
  cases hname
  refine ⟨_, s.broker.namedQueues + 1, by rw [getElem?_ask ht hs hh, if_pos rfl], ?_, rfl,
    Or.inl ?_⟩
  · rw [broker_ask ht hs hh]
    exact Nat.le_of_eq hnext.symm
  · show queueAt t.client.client t.client.stage _ = _
    rw [hs, ha]
    rfl

theorem Spent.run {name : String} (rest : List Label) : ∀ {s : System}, Spent s i name →
    Orderly s → (∀ c n, .declareQueue c (generatedName n) ∉ (s.run rest).asked) →
    Spent (s.run rest) i name := by
  induction rest with
  | nil => exact fun h _ _ => h
  | cons label rest ih =>
    intro s h ho hnames
    have hnow : ∀ c n, .declareQueue c (generatedName n) ∉ (s.step label).asked :=
      names_of_run rest hnames
    exact ih (h.step ho label hnow) (ho.step label hnow) hnames

/-- **Names.** A queue that the broker has granted a client is the client's, or it is gone. -/
theorem run_granted {labels : List Label}
    (hnames : ∀ c n, .declareQueue c (generatedName n) ∉ (System.run {} labels).asked)
    {name : String} (h : Granted labels i name) : Spent (System.run {} labels) i name := by
  obtain ⟨past, t, ⟨rest, rfl⟩, ht, hs, hh, ha⟩ := h
  rw [System.run_append] at hnames ⊢
  refine Spent.run rest ?_ (Orderly.init.run _ (names_of_run rest hnames)) hnames
  rw [System.run_append]
  exact spent_of_granted ht hs hh ha

end Tenancy

end BrokeredRpc
