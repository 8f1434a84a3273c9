import BrokeredRpc.Proofs.Tenancy.Fairness

/-!
# One cause for every call

When the channel of a client is shut down, the client may be anywhere: opening,
in the middle of a call, about to take a reply. `System.Reachable.one_cause`
says what becomes of it, whatever comes in between and in whatever order.

* A call that begins afterwards fails with the cause of the shutdown.
* A call that was pending is told the cause, unless a reply for it was waiting
  already, or it has timed out by itself (`Due`). It does return.
* The client can be closed.
-/
namespace BrokeredRpc.Tenancy

open Broker (OnIssued EndedBy)

variable {s s' : System} {i : Nat} {t u u' : Tenant} {cause : Shutdown} {id : String}

/-! ## The shutdown -/

theorem Sound.sever (h : Sound s) (ht : s.tenants[i]? = some t) {tag : String}
    (htag : t.tag? = some tag) (hlive : (s.broker.subscriptions.get? tag).isSome)
    {op : Broker.Operation} (hc : (s.operate op).broker.closedBy? t.channel = some cause) :
    Severed (s.operate op) i { t with inbox := t.inbox ++ [.shutdown cause] } cause := by
  have hhoused := h.housed i t ht
  obtain ⟨queue, hq⟩ := hhoused.phase.queue htag
  obtain ⟨sub, hsub⟩ := Option.isSome_iff_exists.1 hlive
  rw [h.broker] at hsub
  obtain rfl := Broker.subscribed_unique h.issued (Broker.subscribed_of_live h.issued hsub)
    (hhoused.subscribed queue tag hq htag)
  have hopen := ((Broker.run_held h.issued).subscriber tag _ hsub).2
  have hsound := h.operate op
  unfold System.operate at hc hsound ⊢
  split at hc
  · next hop =>
    rw [if_pos hop] at hsound ⊢
    rw [h.broker] at hop
    have hends : Broker.Ends (Broker.run {} s.asked).1 op tag ⟨t.channel, queue⟩
        (.shutdown cause) := .shutDown hsub hopen (h.broker ▸ hc)
    obtain ⟨-, hsent⟩ := hends.perform (Broker.run_serving h.issued) (Broker.run_held h.issued) hop
      fun c n => (Broker.run_named h.issued).tag_free c
    refine ⟨hsound, ?_, tag, queue, htag, Broker.happened_concat.2 (Or.inr hends)⟩
    rw [getElem?_perform, ht, h.broker]
    simp only [Option.map_some, Tenant.hear, Tenant.stream, htag, Option.elim_some, hsent]
  · rw [h.broker, Broker.isOpen_iff.1 hopen] at hc
    cases hc

/-! ## Calls that were pending -/

/-- The broker has refused the request of a call, and the client has yet to learn of it. -/
def Tenant.refusal? (t : Tenant) (id : String) : Option TransportError :=
  match t.client.stage, t.held with
  | some (.publishing id' _), some (.error e) => if id' = id then some e else none
  | _, _ => none

theorem Tenant.refusal?_eq_some {e : TransportError} : t.refusal? id = some e ↔
    ∃ m, t.client.stage = some (.publishing id m) ∧ t.held = some (.error e) := by
  unfold refusal?
  constructor
  · intro h
    split at h
    · next id' m e' hs hh =>
      split at h
      · next he =>
        cases h
        exact ⟨m, he ▸ hs, hh⟩
      · cases h
    · cases h
  · rintro ⟨m, hs, hh⟩
    simp only [hs, hh, if_true]

/-- A reply to a call waits in the inbox. -/
def Queued (t : Tenant) (id : String) (outcome : Outcome) : Prop :=
  ∃ d, .delivery d ∈ t.inbox ∧ d.properties.correlationId = some id ∧
    outcome = .ofReply d.properties d.body

/-- What a call may return that was pending on `t`, when the client has become `u`. -/
inductive Due (t u : Tenant) (id : String) (cause : Shutdown) : Except CallError Bytes → Prop
  | told : Due t u id cause (.error (.transportShutdown cause))
  | replied {outcome : Outcome} (hq : Queued t id outcome) : Due t u id cause outcome.toResult
  /-- The call has taken its slot out of the registry before anybody else. -/
  | timedOut {waited : Duration} (hw : u.client.Withdrawn id) :
      Due t u id cause (.error (.timeout id waited))

/-- Nothing but the cause, or a reply that waited on `t`, is on its way to the call. -/
structure Pledged (t : Tenant) (id : String) (cause : Shutdown) (u : Tenant) : Prop where
  value : ∀ outcome, u.client.value? id = some outcome →
    outcome = .shutdown cause ∨ Queued t id outcome
  answering : ∀ number outcome, u.client.listener = .answering number id outcome →
    Queued t id outcome
  inbox : ∀ d, .delivery d ∈ u.inbox → .delivery d ∈ t.inbox
  refused : ∀ e, u.refusal? id = some e → e = .channelClosed cause
  result : ∀ result, u.client.calls.get? id = some (.returned result) →
    result = .error (.transportShutdown cause) ∨ (∃ waited, result = .error (.timeout id waited)) ∨
      ∃ outcome, Queued t id outcome ∧ result = outcome.toResult

theorem Housed.pledged {asked : List Broker.Operation} (h : Housed asked u)
    (hp : (u.client.pending? id).isSome) (hr : u.refusal? id = none)
    (hi : ∀ d, .delivery d ∈ u.inbox → .delivery d ∈ t.inbox) : Pledged t id cause u := by
  obtain ⟨⟨-, hmatched⟩, -, -, hengaged⟩ := h.invariants
  obtain ⟨slot, hp⟩ := Option.isSome_iff_exists.1 hp
  obtain ⟨rfl, -, -, hv⟩ := hmatched.pending id slot hp
  refine ⟨fun outcome hv' => ?_, fun number outcome hl => ?_, hi, fun e he => ?_,
    fun result hc => ?_⟩
  · rw [hv] at hv'; cases hv'
  · have hnone := (hmatched.held slot (by rw [hl]; exact List.mem_cons_self)).2.1
    rw [hp] at hnone; cases hnone
  · rw [hr] at he; cases he
  · obtain ⟨call, hcall, hnot⟩ := hengaged.pending slot slot hp
    rw [hc] at hcall
    exact absurd (Option.some.inj hcall).symm (hnot result)

/-- A refusal that the client has yet to take, it had before, or the broker has just refused. -/
theorem Advances.refusal (ha : Advances cause u u') (hphase : u.InPhase) {e : TransportError}
    (he : u'.refusal? id = some e) : u.refusal? id = some e ∨ e = .channelClosed cause := by
  obtain ⟨m, hs, hh⟩ := Tenant.refusal?_eq_some.1 he
  cases ha with
  | stayed => exact Or.inl he
  | refused =>
    cases hh
    exact Or.inr rfl
  | moved mv =>
    by_cases hmv : mv = .answer
    · subst hmv
      cases hu : u.held with
      | none =>
        simp only [Tenant.move, hu] at hh
        cases hh
      | some a =>
        simp only [Tenant.move, hu] at hh
        cases hh
    rw [Tenant.held_move hmv] at hh
    cases hstage : u.client.stage with
    | none => rw [hphase.held hstage] at hh; cases hh
    | some stage =>
      rw [(Tenant.move_of_stage hstage fun he => absurd he hmv).1] at hs
      exact Or.inl (Tenant.refusal?_eq_some.2 ⟨m, hstage.trans hs, hh⟩)

theorem Advances.inbox (ha : Advances cause u u') : ∀ event ∈ u'.inbox, event ∈ u.inbox := by
  intro event hm
  cases ha with
  | stayed => exact hm
  | refused => exact hm
  | moved mv =>
    cases mv with
    | turn =>
      rcases u.turn_cases with ⟨tag, event', rest, -, -, hi, he⟩ | he <;> rw [he] at hm
      · rw [hi]
        exact List.mem_cons_of_mem _ hm
      · exact hm
    | answer =>
      simp only [Tenant.move] at hm
      split at hm <;> exact hm
    | start op => exact hm
    | look id => exact hm
    | tick nanos => exact hm

theorem Pledged.advances (hp : Pledged t id cause u) (h : Severed s i u cause)
    (ha : Advances cause u u') : Pledged t id cause u' := by
  obtain ⟨⟨-, hmatched⟩, ⟨-, hsealing⟩, hcaused, -⟩ := h.housed.invariants
  refine ⟨fun outcome hv => ?_, fun number outcome hl => ?_,
    fun d hd => hp.inbox d (ha.inbox _ hd), fun e he => ?_, fun result hc => ?_⟩
  · rcases Client.System.value?_source ha.moves hv with hv | ⟨number, hl⟩ | ⟨rest, cause', hl, rfl⟩
    · exact hp.value outcome hv
    · exact Or.inr (hp.answering number outcome hl)
    · rw [h.cause_of_sealed (hcaused.ending cause' (Or.inr ⟨_, hl⟩))]
      exact Or.inl rfl
  · rcases ha.client with he | ⟨label, he, -, hevent⟩ <;> rw [he] at hl
    · exact hp.answering number outcome hl
    · rcases Client.System.answering_step hl with hl | ⟨tag, d, id', rfl, hid, hpending, rfl⟩
      · exact hp.answering number outcome hl
      · obtain rfl := (hmatched.pending id' id hpending).1
        exact ⟨d, hp.inbox d (hevent tag _ rfl), hid, rfl⟩
  · rcases ha.refusal h.housed.phase he with he | rfl
    · exact hp.refused e he
    · rfl
  · rcases ha.client with he | ⟨label, he, hanswer, -⟩ <;> rw [he] at hc
    · exact hp.result result hc
    · rcases Client.System.returned_step hc with hc | hreturns
      · exact hp.result result hc
      · cases hreturns with
        | @refused cause' hseal =>
          rw [h.cause_of_sealedBy hseal]
          exact Or.inl rfl
        | unpublished hl hs =>
          have hheld := hanswer _ hl
          rw [hp.refused _ (Tenant.refusal?_eq_some.2 ⟨_, hs, hheld⟩)]
          exact Or.inl rfl
        | resolved hv =>
          rcases hp.value _ hv with rfl | hq
          · exact Or.inl rfl
          · exact Or.inr (Or.inr ⟨_, hq, rfl⟩)
        | withdrawn => exact Or.inr (Or.inl ⟨_, rfl⟩)

/-- What a call returns that was pending when the channel was shut down. -/
theorem Severed.due (h : Severed s i u cause) (hp : (u.client.pending? id).isSome)
    (hr : u.refusal? id = none) (hi : ∀ d, .delivery d ∈ u.inbox → .delivery d ∈ t.inbox)
    {labels : List Label} (hu' : (s.run labels).tenants[i]? = some u')
    {result : Except CallError Bytes}
    (hc : u'.client.calls.get? id = some (.returned result)) : Due t u' id cause result := by
  obtain ⟨v, hv, hpledged⟩ := Severed.run (P := Pledged t id cause)
    (fun hs ha hp => hp.advances hs ha) labels h (h.housed.pledged hp hr hi)
  obtain rfl := Option.some.inj (hu'.symm.trans hv.tenant)
  rcases hpledged.result result hc with rfl | ⟨waited, rfl⟩ | ⟨outcome, hq, rfl⟩
  · exact .told
  · obtain ⟨-, -, -, hengaged⟩ := hv.housed.invariants
    exact .timedOut (hengaged.expired id id waited hc)
  · exact .replied hq

/-- A call whose request had been refused by then returns what the refusal says. -/
theorem Severed.refused (h : Severed s i u cause) {e : TransportError}
    (hr : u.refusal? id = some e) {labels : List Label}
    (hu' : (s.run labels).tenants[i]? = some u') {result : Except CallError Bytes}
    (hc : u'.client.calls.get? id = some (.returned result)) : result = .error (.ofRefusal e) := by
  obtain ⟨m, hs, hh⟩ := Tenant.refusal?_eq_some.1 hr
  obtain ⟨v, hv, hrefusal⟩ := Refusal.run (settles_call cause e id m) h (.answered 0 hs hh) labels
  obtain rfl := Option.some.inj (hu'.symm.trans hv.tenant)
  cases hrefusal with
  | answered n hs' =>
    rw [hv.housed.invariants.1.1.publishing id m hs'] at hc; cases hc
  | settled n hd =>
    rw [hd] at hc
    cases hc
    rfl

/-! ## Every call -/

/-- However other steps come in between: the operation begins, its request reaches the broker and
its answer is taken, and then the client is as said. -/
def Concludes (s : System) (i : Nat) (op : Client.Operation) (P : Tenant → Prop) : Prop :=
  ∀ before between after, ∃ t,
    (s.run (.move i (.start op) ::
      (before ++ .ask i :: (between ++ .move i .answer :: after)))).tenants[i]? = some t ∧ P t

theorem Severed.concludes_call (h : Severed s i t cause) (hs : t.client.stage = none)
    (ho : t.client.client.isOpen = true) (m : Message) : Concludes s i (.calling m) fun u =>
      u.client.calls.get? t.client.nextId = some (.returned (.error (.transportShutdown cause))) ∧
        u.client.pending? t.client.nextId = none := by
  intro before between after
  obtain ⟨m', hr⟩ := h.start_calling hs ho m
  obtain ⟨u, hu, hd⟩ := refusal_run (settles_call _ _ _ m') (h.move (.start (.calling m))) hr
    before between after
  refine ⟨u, hu.tenant, hd, ?_⟩
  cases hp : u.client.pending? t.client.nextId with
  | none => rfl
  | some slot =>
    obtain ⟨call, hcall, hnot⟩ := hu.housed.invariants.2.2.2.pending _ slot hp
    rw [hd] at hcall
    exact absurd (Option.some.inj hcall).symm (hnot _)

theorem Severed.concludes_close (h : Severed s i t cause) (hs : t.client.stage = none)
    {queue tag : String} (hl : t.client.client.lifecycle = .opened queue tag) :
    Concludes s i .closing (·.client.client.lifecycle = .closed queue) := by
  intro before between after
  obtain ⟨u, hu, hd⟩ := refusal_run (settles_close cause queue tag) (h.move (.start .closing))
    (h.start_closing hs hl) before between after
  exact ⟨u, hu.tenant, hd⟩

/-- **One cause.** Take a client on a shared broker in any state that can be reached, and shut its
channel down while its reply subscription is live. At any time from then on, whatever anybody has
done in between:
* a call that begins fails with the cause, with any message, and leaves nothing registered;
* closing succeeds;
* a call that was registered at the shutdown returns nothing else than `Due` says, or what the
  broker had refused its request with before.
And in every run that is fair to a call that was registered, the call returns. -/
theorem System.Reachable.one_cause (h : s.Reachable) (ht : s.tenants[i]? = some t) {tag : String}
    (htag : t.tag? = some tag) (hlive : (s.broker.subscriptions.get? tag).isSome)
    {op : Broker.Operation} (hc : (s.operate op).broker.closedBy? t.channel = some cause) :
    (∀ labels, ∃ u, ((s.operate op).run labels).tenants[i]? = some u ∧
      (u.client.stage = none → u.client.client.isOpen = true → ∀ m,
        Concludes ((s.operate op).run labels) i (.calling m) fun v =>
          v.client.calls.get? u.client.nextId =
              some (.returned (.error (.transportShutdown cause))) ∧
            v.client.pending? u.client.nextId = none) ∧
      (∀ queue tag', u.client.stage = none → u.client.client.lifecycle = .opened queue tag' →
        Concludes ((s.operate op).run labels) i .closing
          (·.client.client.lifecycle = .closed queue)) ∧
      ∀ id result, (t.client.pending? id).isSome →
        u.client.calls.get? id = some (.returned result) →
          (t.refusal? id = none → Due t u id cause result) ∧
            ∀ e, t.refusal? id = some e → result = .error (.ofRefusal e)) ∧
    ∀ id labels, (t.client.pending? id).isSome → Fair labels i id →
      ∃ n u result, ((s.operate op).trace labels n).tenants[i]? = some u ∧
        u.client.calls.get? id = some (.returned result) := by
  have hcut := h.sound.sever ht htag hlive hc
  have hinbox : ∀ d, .delivery d ∈ t.inbox ++ [.shutdown cause] → .delivery d ∈ t.inbox := by
    intro d hd
    rcases List.mem_append.1 hd with hd | hd
    · exact hd
    · cases List.mem_singleton.1 hd
  refine ⟨fun labels => ?_, fun id labels hp hfair => ?_⟩
  · obtain ⟨u, hu, -⟩ := Severed.run (P := fun _ => True) (fun _ _ h => h) labels hcut trivial
    refine ⟨u, hu.tenant, fun hs ho m => hu.concludes_call hs ho m,
      fun queue tag' hs hl => hu.concludes_close hs hl, fun id result hp hr => ⟨fun hn => ?_, ?_⟩⟩
    · exact hcut.due hp hn hinbox hu.tenant hr
    · exact fun e he => hcut.refused he hu.tenant hr
  · obtain ⟨slot, hslot⟩ := Option.isSome_iff_exists.1 hp
    obtain ⟨call, hcall, -⟩ := hcut.housed.invariants.2.2.2.pending id slot hslot
    obtain ⟨n, u, hu, result, hr⟩ := hcut.returns hfair (Option.isSome_of_eq_some hcall)
    exact ⟨n, u, result, hu.tenant, hr⟩

/-- A client with a call under way, on a channel that is aborted then. -/
def callHistory : List Label :=
  [.operate .openChannel, .connect .infinite 1, .move 0 (.start .opening), .ask 0, .move 0 .answer,
    .ask 0, .move 0 .answer, .move 0 (.start (.calling { routingKey := "work" })), .ask 0,
    .move 0 .answer]

theorem one_cause_aborted :
    ∃ t, (System.run {} callHistory).tenants[0]? = some t ∧ t.client.pending? "1" = some "1" ∧
      ∀ labels, ∃ u, (((System.run {} callHistory).operate (.abortChannel 1 "gone")).run
          labels).tenants[0]? = some u ∧
        (∀ result, u.client.calls.get? "1" = some (.returned result) →
          Due t u "1" (.channelAborted 1 "gone") result) ∧
        (u.client.stage = none → u.client.client.isOpen = true → ∀ m,
          Concludes (((System.run {} callHistory).operate (.abortChannel 1 "gone")).run labels) 0
            (.calling m) fun v => v.client.calls.get? u.client.nextId =
              some (.returned (.error (.transportShutdown (.channelAborted 1 "gone"))))) := by
  have hview : (System.run {} callHistory).tenants[0]?.map
      (fun t => (t.channel, t.tag?, t.client.pending? "1", t.refusal? "1")) =
        some (1, some "ctag-1.1", some "1", none) := by decide +kernel
  obtain ⟨t, ht, hview⟩ := Option.map_eq_some_iff.1 hview
  simp only [Prod.mk.injEq] at hview
  obtain ⟨hch, htag, hpending, hrefusal⟩ := hview
  have hlive : ((System.run {} callHistory).broker.subscriptions.get? "ctag-1.1").isSome := by
    decide +kernel
  have hc : ((System.run {} callHistory).operate (.abortChannel 1 "gone")).broker.closedBy?
      t.channel = some (.channelAborted 1 "gone") := by
    rw [hch]
    decide +kernel
  obtain ⟨hnow, -⟩ := System.Reachable.one_cause ⟨callHistory, rfl⟩ ht htag hlive hc
  refine ⟨t, ht, hpending, fun labels => ?_⟩
  obtain ⟨u, hu, hcalls, -, hdue⟩ := hnow labels
  refine ⟨u, hu, fun result hr => (hdue "1" result ?_ hr).1 hrefusal, fun hs ho m => ?_⟩
  · rw [hpending]; rfl
  · intro before between after
    obtain ⟨v, hv, hreturned, -⟩ := hcalls hs ho m before between after
    exact ⟨v, hv, hreturned⟩

end BrokeredRpc.Tenancy
