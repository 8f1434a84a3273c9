import BrokeredRpc.Proofs.Broker.Refusals
import BrokeredRpc.Proofs.Tenancy.Soundness

/-!
# A client whose channel is shut down

A client learns of the shutdown of its channel in two ways: the broker refuses
what it asks for, and its subscription brings the last event, which seals the
registry. The broker keeps one copy of the cause for the channel and sends
another to the subscription, and the two agree (`Severed.closedBy?`,
`Severed.cause_of_sealed`). So it makes no difference which of them a call meets first.

From the shutdown on, a step does to the client what `Advances` lists: its own
moves, and the refusal of its requests.
-/
namespace BrokeredRpc

namespace Tenancy

open Broker (OnIssued EndedBy Subscribed)
open Broker.Operation (Value)

variable {s s' : System} {i : Nat} {t t' : Tenant} {cause : Shutdown}

@[simp] theorem Tenant.stream_nil (t : Tenant) : t.stream [] = [] := by
  rw [stream]
  cases t.tag? <;> rfl

/-- The channel of the client has been shut down while its reply subscription was live. -/
structure Severed (s : System) (i : Nat) (t : Tenant) (cause : Shutdown) : Prop where
  sound : Sound s
  tenant : s.tenants[i]? = some t
  ended : ∃ tag queue, t.tag? = some tag ∧
    EndedBy s.asked tag ⟨t.channel, queue⟩ (.shutdown cause)

/-- What a step does to the client from then on. -/
inductive Advances (cause : Shutdown) (t : Tenant) : Tenant → Prop
  | stayed : Advances cause t t
  | moved (m : Move) : Advances cause t (t.move m)
  | refused {stage : Client.Stage} (hs : t.client.stage = some stage) (hh : t.held = none) :
      Advances cause t { t with held := some (.error (.channelClosed cause)) }

namespace Severed

theorem housed (h : Severed s i t cause) : Housed s.asked t := h.sound.housed i t h.tenant

theorem closedBy? (h : Severed s i t cause) : s.broker.closedBy? t.channel = some cause := by
  obtain ⟨tag, queue, -, he⟩ := h.ended
  rw [h.sound.broker]
  exact he.closedBy? h.sound.issued

theorem stream (h : Severed s i t cause) : ∃ deliveries : List Delivery,
    t.stream (Broker.run {} s.asked).2 = deliveries.map .delivery ++ [.shutdown cause] := by
  obtain ⟨tag, queue, ht, he⟩ := h.ended
  rw [Tenant.stream, ht]
  exact (he.stream h.sound.issued).2

/-- Every seal that the registry gets is the cause. -/
theorem cause_of_sealed (h : Severed s i t cause) {cause' : Shutdown}
    (hs : .sealed cause' ∈ t.client.history) : cause' = cause := by
  obtain ⟨deliveries, he⟩ := h.stream
  obtain ⟨event, hm, hmark⟩ := h.housed.heard.event hs rfl
  rw [he] at hm
  rcases List.mem_append.1 hm with hm | hm
  · obtain ⟨d, -, rfl⟩ := List.mem_map.1 hm
    cases hmark
  · obtain rfl := List.mem_singleton.1 hm
    cases hmark
    rfl

/-- The subscription brings nothing more, whatever the broker does. -/
theorem hear_eq (h : Severed s i t cause) {op : Broker.Operation}
    (hop : ∀ c ∈ op.channel?, s.broker.Issued c) :
    t.hear (s.broker.perform op).sent = t := by
  obtain ⟨tag, queue, ht, he⟩ := h.ended
  have hquiet : t.stream (s.broker.perform op).sent = [] := by
    rw [h.sound.broker] at hop ⊢
    rw [Tenant.stream, ht]
    exact ((he.made h.sound.issued).quiet h.sound.issued (he.stream h.sound.issued).1 hop).2
  rw [Tenant.hear, hquiet, List.append_nil]

theorem of_advance (h : Severed s i t cause) (hs : Sound s') (ht : s'.tenants[i]? = some t')
    {more : List Broker.Operation} (ha : s'.asked = s.asked ++ more) (htag : t'.tag? = t.tag?)
    (hc : t'.channel = t.channel) : Severed s' i t' cause := by
  obtain ⟨tag, queue, hg, he⟩ := h.ended
  refine ⟨hs, ht, tag, queue, htag.trans hg, ?_⟩
  rw [ha, hc]
  exact he.append more

theorem ask (h : Severed s i t cause) : ∃ t', Severed (s.ask i) i t' cause ∧
    ((t' = t ∧ ∀ stage, t.client.stage = some stage → t.held ≠ none) ∨
      ∃ stage, t.client.stage = some stage ∧ t.held = none ∧
        t' = { t with held := some (.error (.channelClosed cause)) }) := by
  have hsound := h.sound.ask i
  by_cases hasks : ∃ stage, t.client.stage = some stage ∧ t.held = none
  · obtain ⟨stage, hs, hh⟩ := hasks
    refine ⟨_, ?_, Or.inr ⟨stage, hs, hh, rfl⟩⟩
    have hrefused : s.broker.perform (t.request stage) = s.broker.refuse (.channelClosed cause) :=
      Broker.perform_of_closedBy (by cases stage <;> rfl) h.closedBy?
    have hnothing : (t.accept stage (.error (.channelClosed cause))).hear [] =
        { t with held := some (.error (.channelClosed cause)) } := by
      rw [Tenant.hear, Tenant.stream_nil, List.append_nil]
      cases stage <;> rfl
    refine h.of_advance hsound ?_ (asked_ask h.tenant hs hh) rfl rfl
    rw [getElem?_ask h.tenant hs hh, if_pos rfl, hrefused]
    exact congrArg some hnothing
  · rcases ask_cases s i with he | ⟨u, stage, hu, hs, hh⟩
    · rw [he]
      exact ⟨t, h, Or.inl ⟨rfl, fun stage hs hh => hasks ⟨stage, hs, hh⟩⟩⟩
    · have htu : t = u := Option.some.inj (h.tenant.symm.trans hu)
      exact absurd ⟨stage, htu ▸ hs, htu ▸ hh⟩ hasks

theorem move (h : Severed s i t cause) (m : Move) : Severed (s.move i m) i (t.move m) cause := by
  refine h.of_advance (h.sound.move i m) ?_ (List.append_nil _).symm (t.tag?_move m)
    (t.channel_move m)
  rw [getElem?_move, if_pos rfl, h.tenant]
  rfl

/-- **Steps after a shutdown.** -/
theorem step (h : Severed s i t cause) (label : Label) :
    ∃ t', Severed (s.step label) i t' cause ∧ Advances cause t t' := by
  have hsound := h.sound.step label
  cases label with
  | operate op =>
    simp only [System.step, System.operate] at hsound ⊢
    split
    · next hop =>
      rw [if_pos hop] at hsound
      refine ⟨t, h.of_advance hsound ?_ rfl rfl rfl, .stayed⟩
      rw [getElem?_perform, h.tenant, Option.map_some, h.hear_eq hop]
    · exact ⟨t, h, .stayed⟩
  | connect timeout channel =>
    have hasked : (s.step (.connect timeout channel)).asked = s.asked ++ [] := by
      rw [System.step, asked_connect, List.append_nil]
    exact ⟨t, h.of_advance hsound (getElem?_connect h.tenant timeout channel) hasked rfl rfl,
      .stayed⟩
  | ask j =>
    simp only [System.step] at hsound ⊢
    by_cases hij : j = i
    · subst hij
      obtain ⟨t', h', ⟨rfl, -⟩ | ⟨stage, hs, hh, rfl⟩⟩ := h.ask
      · exact ⟨t', h', .stayed⟩
      · exact ⟨_, h', .refused hs hh⟩
    rcases ask_cases s j with he | ⟨u, stage, hu, hs, hh⟩
    · rw [he]
      exact ⟨t, h, .stayed⟩
    · refine ⟨t, h.of_advance hsound ?_ (asked_ask hu hs hh) rfl rfl, .stayed⟩
      rw [getElem?_ask hu hs hh, if_neg hij, h.tenant, Option.map_some,
        h.hear_eq (h.sound.issued_request hu stage)]
  | move j m =>
    by_cases hij : j = i
    · subst hij
      exact ⟨t.move m, h.move m, .moved m⟩
    · refine ⟨t, h.of_advance hsound ?_ (List.append_nil _).symm rfl rfl, .stayed⟩
      show (s.move j m).tenants[i]? = some t
      rw [getElem?_move, if_neg hij]
      exact h.tenant

/-- What every step after the shutdown keeps, every run keeps. -/
theorem run {P : Tenant → Prop} (hstep : ∀ {s : System} {t t' : Tenant}, Severed s i t cause →
      Advances cause t t' → P t → P t') (labels : List Label) :
    ∀ {s : System} {t : Tenant}, Severed s i t cause → P t →
      ∃ t', Severed (s.run labels) i t' cause ∧ P t' := by
  induction labels with
  | nil => exact fun h hp => ⟨_, h, hp⟩
  | cons label rest ih =>
    intro s t h hp
    obtain ⟨t', h', ha⟩ := h.step label
    exact ih h' (hstep h ha hp)

end Severed

/-! ## Requests after the shutdown -/

theorem Tenant.held_move {m : Move} (hm : m ≠ .answer) : (t.move m).held = t.held := by
  cases m with
  | answer => exact absurd rfl hm
  | turn => rcases t.turn_cases with ⟨_, _, _, -, -, -, he⟩ | he <;> rw [he]
  | _ => rfl

theorem Tenant.move_of_stage {stage : Client.Stage} (hs : t.client.stage = some stage) {m : Move}
    (hm : m = .answer → t.held = none) :
    (t.move m).client.stage = some stage ∧ (t.move m).held = t.held := by
  cases m with
  | start op =>
    refine ⟨?_, rfl⟩
    simp only [Tenant.move, Client.System.step, Client.System.start, hs]
  | answer =>
    have he : t.move .answer = t := by simp only [Tenant.move, hm rfl]
    rw [he]
    exact ⟨hs, rfl⟩
  | turn =>
    rcases t.turn_cases with ⟨tag, event, rest, -, -, -, he⟩ | he <;> rw [he]
    · exact ⟨(t.client.frame_receive tag event).2.trans hs, rfl⟩
    · exact ⟨t.client.frame_listen.2.trans hs, rfl⟩
  | look id => exact ⟨(t.client.frame_look id).2.trans hs, rfl⟩
  | tick => exact ⟨hs, rfl⟩

/-- A request that is refused with `e`, or has been, until its operation is done: it is still to be
asked, or answered, or the operation is done. The number is a bound for the steps ahead. -/
inductive Refusal (cause : Shutdown) (e : TransportError) (stage : Client.Stage)
    (done : Tenant → Prop) (t : Tenant) : Nat → Prop
  | asking (n : Nat) (he : e = .channelClosed cause) (hs : t.client.stage = some stage)
      (hh : t.held = none) : Refusal cause e stage done t (n + 2)
  | answered (n : Nat) (hs : t.client.stage = some stage) (hh : t.held = some (.error e)) :
      Refusal cause e stage done t (n + 1)
  | settled (n : Nat) (hd : done t) : Refusal cause e stage done t n

/-- The operation is done when it takes the refusal, and remains so. -/
structure Settles (cause : Shutdown) (e : TransportError) (stage : Client.Stage)
    (done : Tenant → Prop) : Prop where
  answer : ∀ {s : System} {i : Nat} {t : Tenant}, Severed s i t cause →
    t.client.stage = some stage → t.held = some (.error e) → done (t.move .answer)
  keeps : ∀ {s : System} {i : Nat} {t t' : Tenant}, Severed s i t cause → Advances cause t t' →
    done t → done t'

namespace Refusal

variable {e : TransportError} {stage : Client.Stage} {done : Tenant → Prop} {n : Nat}

theorem advances (hr : Refusal cause e stage done t n) (hdone : Settles cause e stage done)
    (h : Severed s i t cause) (ha : Advances cause t t') : Refusal cause e stage done t' n := by
  cases hr with
  | asking n he hs hh =>
    cases ha with
    | stayed => exact .asking n he hs hh
    | moved m =>
      obtain ⟨hs', hh'⟩ := Tenant.move_of_stage hs (m := m) fun _ => hh
      exact .asking n he hs' (hh'.trans hh)
    | refused => exact .answered (n + 1) hs (he ▸ rfl)
  | answered n hs hh =>
    cases ha with
    | stayed => exact .answered n hs hh
    | moved m =>
      by_cases hm : m = .answer
      · subst hm
        exact .settled _ (hdone.answer h hs hh)
      · obtain ⟨hs', hh'⟩ := Tenant.move_of_stage hs fun he => absurd he hm
        exact .answered n hs' (hh'.trans hh)
    | refused _ hnone => rw [hnone] at hh; cases hh
  | settled n hd => exact .settled n (hdone.keeps h ha hd)

theorem run (hdone : Settles cause e stage done) (h : Severed s i t cause)
    (hr : Refusal cause e stage done t n) (labels : List Label) :
    ∃ t', Severed (s.run labels) i t' cause ∧ Refusal cause e stage done t' n :=
  Severed.run (P := (Refusal cause e stage done · n)) (fun h ha hr => hr.advances hdone h ha)
    labels h hr

theorem ask (hdone : Settles cause e stage done) (h : Severed s i t cause)
    (hr : Refusal cause e stage done t 2) :
    ∃ t', Severed (s.ask i) i t' cause ∧ Refusal cause e stage done t' 1 := by
  obtain ⟨t', h', hcases⟩ := h.ask
  have ha : Advances cause t t' := by
    rcases hcases with ⟨rfl, -⟩ | ⟨stage, hs, hh, rfl⟩
    · exact .stayed
    · exact .refused hs hh
  refine ⟨t', h', ?_⟩
  cases hr with
  | asking n he hs hh =>
    rcases hcases with ⟨-, hno⟩ | ⟨_, -, -, rfl⟩
    · exact absurd hh (hno stage hs)
    · exact .answered 0 hs (he ▸ rfl)
  | answered n hs hh =>
    rcases hcases with ⟨rfl, -⟩ | ⟨_, -, hnone, -⟩
    · exact .answered 0 hs hh
    · rw [hnone] at hh; cases hh
  | settled n hd => exact .settled 1 (hdone.keeps h ha hd)

theorem answer (hdone : Settles cause e stage done) (h : Severed s i t cause)
    (hr : Refusal cause e stage done t 1) :
    Refusal cause e stage done (t.move .answer) 0 := by
  cases hr with
  | answered n hs hh => exact .settled 0 (hdone.answer h hs hh)
  | settled n hd => exact .settled 0 (hdone.keeps h (.moved .answer) hd)

end Refusal

/-- **Refusals.** However the steps of others, and of the client itself, come in between: once the
request has reached the broker and its answer has been taken, the operation is done. -/
theorem refusal_run {e : TransportError} {stage : Client.Stage} {done : Tenant → Prop}
    (hdone : Settles cause e stage done) (h : Severed s i t cause)
    (hr : Refusal cause e stage done t 2) (before between after : List Label) :
    ∃ t', Severed (s.run (before ++ .ask i :: (between ++ .move i .answer :: after))) i t' cause ∧
      done t' := by
  obtain ⟨t₁, h₁, hr₁⟩ := Refusal.run hdone h hr before
  obtain ⟨t₂, h₂, hr₂⟩ := Refusal.ask hdone h₁ hr₁
  obtain ⟨t₃, h₃, hr₃⟩ := Refusal.run hdone h₂ hr₂ between
  obtain ⟨t₄, h₄, hr₄⟩ := Refusal.run hdone (h₃.move .answer) (hr₃.answer hdone h₃) after
  refine ⟨t₄, ?_, ?_⟩
  · rw [System.run_append, System.run_cons, System.run_append, System.run_cons]
    exact h₄
  · cases hr₄ with
    | settled n hd => exact hd

/-! ## What the client does with a refusal -/

theorem Housed.invariants {asked : List Broker.Operation} (h : Housed asked t) :
    (t.client.Numbered ∧ t.client.Matched) ∧ (t.client.Accounted ∧ t.client.Sealing) ∧
      t.client.Caused ∧ t.client.Engaged := by
  obtain ⟨timeout, labels, he⟩ := h.ran
  rw [he]
  exact ⟨Client.System.run_matched timeout labels, Client.System.run_accounted timeout labels,
    Client.System.run_caused timeout labels, Client.System.run_engaged timeout labels⟩

theorem Severed.cause_of_sealedBy (h : Severed s i t cause) {cause' : Shutdown}
    (hc : t.client.sealedBy? = some cause') : cause' = cause := by
  obtain ⟨-, ⟨-, hsealing⟩, -⟩ := h.housed.invariants
  obtain ⟨mark, hm, hseal⟩ := List.exists_of_findSome?_eq_some (hsealing.cause.symm.trans hc)
  refine h.cause_of_sealed ?_
  cases mark with
  | sealed =>
    cases hseal
    exact hm
  | _ => cases hseal

theorem Advances.client (ha : Advances cause t t') :
    t'.client = t.client ∨ ∃ label, t'.client = t.client.step label ∧
      (∀ answer, label = .answer answer → t.held = some answer) ∧
      ∀ tag event, label = .event tag event → event ∈ t.inbox := by
  cases ha with
  | stayed => exact Or.inl rfl
  | moved m => exact t.client_move m
  | refused => exact Or.inl rfl

theorem Advances.moves (ha : Advances cause t t') : Client.System.Moves t.client t'.client := by
  rcases ha.client with he | ⟨label, he, -, -⟩ <;> rw [he]
  · exact .stayed
  · exact Client.System.step_moves t.client label

theorem settles_call (cause : Shutdown) (e : TransportError) (id : String) (m : Message) :
    Settles cause e (.publishing id m) fun t =>
      t.client.calls.get? id = some (.returned (.error (.ofRefusal e))) where
  answer _ hs hh := by
    simp only [Tenant.move, hh, Client.System.step, Client.System.answer_refused hs]
    exact Table.get?_insert_self _ _ _
  keeps h ha hd := Client.System.returned_moves h.housed.invariants.1.1 ha.moves hd

/-- Without an answer to take, a client stays open or closed. -/
theorem Tenant.lifecycle_move (hh : t.held = none) (m : Move) :
    (t.move m).client.client.lifecycle = t.client.client.lifecycle := by
  cases m with
  | start op =>
    simp only [move, Client.System.step]
    cases hs : t.client.stage with
    | some stage => simp only [Client.System.start, hs]
    | none => rw [(Client.System.client_start hs op).1, Client.lifecycle_start]
  | answer => simp only [move, hh]
  | turn =>
    rcases t.turn_cases with ⟨tag, event, rest, -, -, -, he⟩ | he <;> rw [he]
    · exact (t.client.frame_receive tag event).1
    · exact t.client.frame_listen.1
  | look id => exact (t.client.frame_look id).1
  | tick => rfl

theorem Tenant.InPhase.held (h : t.InPhase) (hs : t.client.stage = none) : t.held = none := by
  rw [Tenant.InPhase, hs] at h
  generalize t.held = held, t.tag? = tag? at h
  cases h <;> rfl

theorem Tenant.InPhase.idle_of_closed (h : t.InPhase) {queue : String}
    (hl : t.client.client.lifecycle = .closed queue) : t.client.stage = none := by
  rw [Tenant.InPhase] at h
  generalize t.client.stage = stage, t.held = held, t.tag? = tag? at h
  cases h with
  | closed => rfl
  | unopened => rfl
  | opened => rfl
  | declaring h => rw [hl] at h; cases h
  | subscribing h => rw [hl] at h; cases h
  | subscribed h => rw [hl] at h; cases h
  | discarding h => rw [hl] at h; cases h
  | cancelling h => rw [hl] at h; cases h
  | publishing h => rw [hl] at h; cases h

theorem settles_close (cause : Shutdown) (queue tag : String) :
    Settles cause (.channelClosed cause) (.cancelling queue tag) fun t =>
      t.client.client.lifecycle = .closed queue where
  answer _ hs hh := by
    simp only [Tenant.move, hh, Client.System.step]
    rw [(Client.System.client_answer hs _).1]
    rfl
  keeps h ha hd := by
    have hphase := h.housed.phase
    cases ha with
    | stayed => exact hd
    | moved m => exact (Tenant.lifecycle_move (hphase.held (hphase.idle_of_closed hd)) m).trans hd
    | refused => exact hd

/-- A call begins: it registers, to have its request refused, or the registry refuses it. -/
theorem Severed.start_calling (h : Severed s i t cause) (hs : t.client.stage = none)
    (ho : t.client.client.isOpen = true) (m : Message) : ∃ m',
    Refusal cause (.channelClosed cause) (.publishing t.client.nextId m')
      (fun t' => t'.client.calls.get? t.client.nextId =
        some (.returned (.error (.ofRefusal (.channelClosed cause)))))
      (t.move (.start (.calling m))) 2 := by
  cases hc : t.client.sealedBy? with
  | some cause' =>
    obtain rfl := h.cause_of_sealedBy hc
    exact ⟨m, .settled 2 (Client.System.start_of_sealed hc hs ho m).2.2⟩
  | none =>
    rcases Client.System.start_cases t.client (.calling m) with ⟨_, -, -, hn⟩ | ⟨m', -, he⟩ | ⟨_, hu, -⟩
    · exact absurd rfl (hn ho m)
    · refine ⟨m', .asking 0 rfl ?_ (h.housed.phase.held hs)⟩
      simp only [Tenant.move, Client.System.step, Client.System.start, hs, he]
    · rw [hc] at hu; cases hu

theorem Severed.start_closing (h : Severed s i t cause) (hs : t.client.stage = none)
    {queue tag : String} (hl : t.client.client.lifecycle = .opened queue tag) :
    Refusal cause (.channelClosed cause) (.cancelling queue tag)
      (fun t => t.client.client.lifecycle = .closed queue) (t.move (.start .closing)) 2 := by
  refine .asking 0 rfl ?_ (h.housed.phase.held hs)
  show (t.client.start .closing).stage = _
  rw [(Client.System.client_start hs .closing).2, Client.start, Client.startClose, hl]
  rfl

end Tenancy

end BrokeredRpc
