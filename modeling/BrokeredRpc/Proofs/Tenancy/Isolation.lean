import BrokeredRpc.Proofs.Client.Crosstalk
import BrokeredRpc.Proofs.Tenancy.Soundness

/-!
# Clients leave each other alone

All clients of a broker count their calls from 1, so the same id is in use on
many of them at once. What keeps them apart is the reply queue of each: nobody
else has it, it is exclusive to the client's channel (`Owned`), and a message
that is addressed to it by name goes nowhere else.

`Foreign` lists the steps that are not about a client: whatever other clients do
by themselves, what they ask of the broker, unless it is a call that is routed to
the client's reply queue, and what anybody does to other queues, to other
subscriptions and to channels that the client does not use.

* `Sound.step_foreign`: such a step leaves the client as it is, with its reply
  queue, its subscription and its channel;
* `System.Reachable.isolated`: so does every list of such steps, and what is
  written into the client's slots has come through its own reply queue.
-/
namespace BrokeredRpc.Tenancy

open Broker (defaultExchange generatedName)
open Broker.Operation (Value)

variable {s : System} {i j : Nat} {t u : Tenant}

/-! ## Owners -/

/-- The reply queue of a client is exclusive to the client's channel. -/
def Owned (s : System) : Prop :=
  ∀ (i : Nat) (t : Tenant) (queue : String) (q : Queue), s.tenants[i]? = some t →
    t.queue? = some queue → s.broker.queues.get? queue = some q → q.owner = some t.channel

theorem Housed.owner_perform {asked : List Broker.Operation} (h : Housed asked t) {queue : String}
    (hq : t.queue? = some queue) {op : Broker.Operation}
    (hop : ∀ c n, op ≠ .declareQueue c (generatedName n)) {q' : Queue}
    (hq' : ((Broker.run {} asked).1.perform op).broker.queues.get? queue = some q') :
    ∃ q, (Broker.run {} asked).1.queues.get? queue = some q ∧ q.owner = q'.owner := by
  obtain ⟨n, -, hn⟩ := h.named queue hq
  rcases Broker.owner_perform hq' with hold | ⟨c, ho⟩ | ⟨c, -, hnext, -⟩
  · exact hold
  · exact absurd (hn ▸ ho) (hop c n)
  · exact absurd (hnext ▸ hq) h.queue_ne_next

/-- What the broker is asked for while somebody asks for something else. -/
theorem Sound.owner_perform (h : Sound s) (ho : Owned s) {op : Broker.Operation}
    (hop : ∀ c n, op ≠ .declareQueue c (generatedName n)) (ht : s.tenants[i]? = some t)
    {queue : String} (hq : t.queue? = some queue) {q : Queue}
    (hq' : (s.broker.perform op).broker.queues.get? queue = some q) :
    q.owner = some t.channel := by
  rw [h.broker] at hq'
  obtain ⟨q₀, hq₀, he⟩ := (h.housed i t ht).owner_perform hq hop hq'
  rw [← he]
  exact ho i t queue q₀ ht hq (h.broker ▸ hq₀)

/-- What has been asked last declares no generated name if nothing that has been asked does. -/
theorem undeclared_of_names {past : List Broker.Operation} {op : Broker.Operation}
    (hnames : ∀ c n, .declareQueue c (generatedName n) ∉ past ++ [op]) :
    ∀ c n, op ≠ .declareQueue c (generatedName n) := fun c n he =>
  hnames c n (List.mem_append_right _ (he ▸ List.mem_cons_self))

theorem Tenant.request_ne_declareQueue (t : Tenant) (stage : Client.Stage) (c : Nat)
    (name : String) : t.request stage ≠ .declareQueue c name := by
  intro he
  cases stage <;> cases he

/-- A request leaves every queue with its owner, and a queue that it is granted belongs to the
channel of the client that asks. -/
theorem owned_ask (h : Sound s) (ho : Owned s) (i : Nat) : Owned (s.ask i) := by
  rcases ask_cases s i with he | ⟨t, stage, ht, hs, hh⟩
  · rw [he]; exact ho
  have hne : ∀ c n, t.request stage ≠ .declareQueue c (generatedName n) := fun c n =>
    t.request_ne_declareQueue stage c _
  intro k u queue q hu hq hget
  rw [broker_ask ht hs hh] at hget
  rw [getElem?_ask ht hs hh] at hu
  split at hu
  · next hik =>
    subst hik
    cases hu
    rcases Tenant.queue?_accept hs hh hq with hq | ⟨rfl, value, ha, rfl⟩
    · exact h.owner_perform ho hne ht hq hget
    · obtain ⟨rfl, -, hnew⟩ := Broker.of_declareExclusive_answer ha
      have hsame := hnew.symm.trans hget
      cases hsame
      rfl
  · rw [Option.map_eq_some_iff] at hu
    obtain ⟨u', hu', rfl⟩ := hu
    exact h.owner_perform ho hne hu' hq hget

theorem owned_step (h : Sound s) (ho : Owned s) (label : Label)
    (hnames : ∀ c n, .declareQueue c (generatedName n) ∉ (s.step label).asked) :
    Owned (s.step label) := by
  cases label with
  | operate op =>
    simp only [System.step, System.operate] at hnames ⊢
    split
    · next hop =>
      rw [if_pos hop] at hnames
      have hne := undeclared_of_names hnames
      intro i t' queue q ht' hq hget
      rw [getElem?_perform, Option.map_eq_some_iff] at ht'
      obtain ⟨t, ht, rfl⟩ := ht'
      exact h.owner_perform ho hne ht hq hget
    · exact ho
  | connect timeout channel =>
    simp only [System.step, System.connect]
    split
    · intro i t queue q ht hq hget
      replace ht : (s.tenants.push _)[i]? = some t := ht
      rw [Array.getElem?_push] at ht
      split at ht
      · cases ht
        cases hq
      · exact ho i t queue q ht hq hget
    · exact ho
  | ask i => exact owned_ask h ho i
  | move i m =>
    intro k t' queue q ht' hq hget
    simp only [System.step] at ht'
    rw [getElem?_move] at ht'
    split at ht'
    · rw [Option.map_eq_some_iff] at ht'
      obtain ⟨t, ht, rfl⟩ := ht'
      rw [Tenant.channel_move]
      exact ho k t queue q ht (Tenant.queue?_move (h.housed k t ht).phase hq) hget
    · exact ho k t' queue q ht' hq hget

theorem names_step_of_client (label : Label) (hl : ∀ op, label ≠ .operate op)
    (hnames : ∀ c n, .declareQueue c (generatedName n) ∉ s.asked) :
    ∀ c n, .declareQueue c (generatedName n) ∉ (s.step label).asked := by
  cases label with
  | operate op => exact absurd rfl (hl op)
  | connect timeout channel =>
    rw [System.step, asked_connect]
    exact hnames
  | ask i =>
    simp only [System.step]
    rcases ask_cases s i with he | ⟨u, stage, hu, hs, hh⟩
    · rw [he]; exact hnames
    rw [asked_ask hu hs hh]
    intro c n hm
    rcases List.mem_append.1 hm with hm | hm
    · exact hnames c n hm
    · exact u.request_ne_declareQueue stage c _ (List.mem_singleton.1 hm).symm
  | move i m => exact hnames

theorem asked_step (s : System) (label : Label) : s.asked <+: (s.step label).asked := by
  have hsame : ∀ {s' : System}, s'.asked = s.asked → s.asked <+: s'.asked := fun he =>
    he ▸ List.prefix_rfl
  cases label with
  | operate op =>
    simp only [System.step, System.operate]
    split
    · exact List.prefix_append _ _
    · exact List.prefix_rfl
  | connect timeout channel => exact hsame (asked_connect s timeout channel)
  | ask i =>
    simp only [System.step]
    rcases ask_cases s i with he | ⟨t, stage, ht, hs, hh⟩
    · exact hsame (congrArg System.asked he)
    · rw [asked_ask ht hs hh]
      exact List.prefix_append _ _
  | move i m => exact List.prefix_rfl

theorem asked_run (labels : List Label) : ∀ s : System, s.asked <+: (s.run labels).asked := by
  induction labels with
  | nil => exact fun s => List.prefix_rfl
  | cons label rest ih => exact fun s => (asked_step s label).trans (ih (s.step label))

/-- Where no caller has declared a generated name after more steps, none has before them. -/
theorem names_of_run (labels : List Label)
    (hnames : ∀ c n, .declareQueue c (generatedName n) ∉ (s.run labels).asked) :
    ∀ c n, .declareQueue c (generatedName n) ∉ s.asked := fun c n hm =>
  hnames c n ((asked_run labels s).subset hm)

/-- **Owners.** As long as no caller declares a queue under a name of the broker's own, the reply
queue of every client is exclusive to its channel. -/
theorem owned_run (labels : List Label) : ∀ {s : System}, Sound s → Owned s →
    (∀ c n, .declareQueue c (generatedName n) ∉ (s.run labels).asked) → Owned (s.run labels) := by
  induction labels with
  | nil => exact fun _ ho _ => ho
  | cons label rest ih =>
    intro s h ho hnames
    exact ih (h.step label) (owned_step h ho label (names_of_run rest hnames)) hnames

theorem System.Reachable.owned (h : s.Reachable)
    (hnames : ∀ c n, .declareQueue c (generatedName n) ∉ s.asked) : Owned s := by
  obtain ⟨labels, rfl⟩ := h
  exact owned_run labels Sound.init (fun _ _ _ _ ht => by cases ht) hnames

/-! ## Foreign steps -/

/-- An operation on the broker that is not about the client: it names other queues and other
subscriptions, it routes its message elsewhere, or it shuts down another channel. -/
def KeepsOff (b : Broker) (t : Tenant) : Broker.Operation → Prop
  | .openChannel | .declareExchange .. | .declareQueue .. | .declareExclusive _ | .bind .. => True
  | .consume _ queue | .deleteQueue _ queue => t.queue? ≠ some queue
  | .cancel _ tag => ∀ sub, b.subscriptions.get? tag = some sub → t.queue? ≠ some sub.queue
  | .publish _ m =>
    ∀ queue, t.queue? = some queue → queue ∉ (b.route? m.exchange m.routingKey).getD []
  | .closeChannel c | .abortChannel c _ => c ≠ t.channel
  | .abortConnection _ => b.isOpen t.channel = false

/-- A step that is not about the client `t`, which is at `j`. -/
def Foreign (s : System) (j : Nat) (t : Tenant) : Label → Prop
  | .operate op => KeepsOff s.broker t op
  | .connect .. => True
  | .ask i => i ≠ j ∧ ∀ u id m, s.tenants[i]? = some u →
      u.client.stage = some (.publishing id m) →
      KeepsOff s.broker t (u.request (.publishing id m))
  | .move i _ => i ≠ j

/-- Steps, one after another, none of which is about the client. -/
def AllForeign (j : Nat) (t : Tenant) : System → List Label → Prop
  | _, [] => True
  | s, label :: rest => Foreign s j t label ∧ AllForeign j t (s.step label) rest

/-- The broker keeps for the client what it has kept: its queue with the backlog, its subscription
and its channel. -/
structure Kept (t : Tenant) (b b' : Broker) : Prop where
  queue : ∀ name, t.queue? = some name → b'.queues.get? name = b.queues.get? name
  subscription : ∀ tag, t.tag? = some tag → b'.subscriptions.get? tag = b.subscriptions.get? tag
  channel : b'.closedBy? t.channel = b.closedBy? t.channel

theorem Kept.refl (t : Tenant) (b : Broker) : Kept t b b :=
  ⟨fun _ _ => rfl, fun _ _ => rfl, rfl⟩

theorem Kept.trans {b b' b'' : Broker} (h : Kept t b b') (h' : Kept t b' b'') : Kept t b b'' :=
  ⟨fun name hq => (h'.queue name hq).trans (h.queue name hq),
    fun tag ht => (h'.subscription tag ht).trans (h.subscription tag ht),
    h'.channel.trans h.channel⟩

theorem KeepsOff.closedBy? {b : Broker} {op : Broker.Operation} (hk : KeepsOff b t op)
    (hop : ∀ c ∈ op.channel?, b.Issued c) :
    (b.perform op).broker.closedBy? t.channel = b.closedBy? t.channel := by
  cases hc : b.closedBy? t.channel with
  | some cause => exact Broker.closedBy?_perform hop hc
  | none =>
    have ho := Broker.isOpen_iff.2 hc
    refine Broker.isOpen_iff.1 (Broker.isOpen_perform hop (fun hs => ?_) ho)
    cases op with
    | closeChannel c => exact hk hs
    | abortChannel c reason => exact hk hs
    | abortConnection reason => rw [show b.isOpen t.channel = false from hk] at ho; cases ho
    | _ => exact hs

theorem KeepsOff.spares {op : Broker.Operation} (hk : KeepsOff s.broker t op) (h : Sound s)
    (ho : Owned s) (hop : ∀ c n, op ≠ .declareQueue c (generatedName n))
    (ht : s.tenants[j]? = some t) {queue : String} (hq : t.queue? = some queue) :
    op.Spares s.broker queue := by
  have hhoused := h.housed j t ht
  cases op with
  | openChannel => trivial
  | declareExchange => trivial
  | bind => trivial
  | declareExclusive c =>
    intro he
    rw [h.broker] at he
    exact hhoused.queue_ne_next (he ▸ hq)
  | declareQueue c name =>
    rintro rfl
    obtain ⟨n, -, hn⟩ := hhoused.named name hq
    exact hop c n (hn ▸ rfl)
  | consume c name =>
    rintro rfl
    exact hk hq
  | deleteQueue c name =>
    rintro rfl
    exact hk hq
  | cancel c tag =>
    rintro sub hsub rfl
    exact hk sub hsub hq
  | publish c m => exact hk queue hq
  | closeChannel c => exact fun q hget => .of_owner (ho j t queue q ht hq hget) (Ne.symm hk)
  | abortChannel c reason => exact fun q hget => .of_owner (ho j t queue q ht hq hget) (Ne.symm hk)
  | abortConnection reason =>
    refine fun q hget => .of_owner (ho j t queue q ht hq hget) ?_
    rintro ⟨-, hopen⟩
    rw [show s.broker.isOpen t.channel = false from hk] at hopen; cases hopen

/-- What is not about the client leaves it alone at the broker, and it hears nothing of it. -/
theorem Sound.perform_foreign (h : Sound s) (ho : Owned s) {op : Broker.Operation}
    (hop : ∀ c ∈ op.channel?, s.broker.Issued c)
    (hnames : ∀ c n, .declareQueue c (generatedName n) ∉ s.asked ++ [op])
    (ht : s.tenants[j]? = some t) (hk : KeepsOff s.broker t op) :
    t.hear (s.broker.perform op).sent = t ∧ Kept t s.broker (s.broker.perform op).broker := by
  have hhoused := h.housed j t ht
  have hne := undeclared_of_names hnames
  have hpast : ∀ c n, .declareQueue c (generatedName n) ∉ s.asked := fun c n hm =>
    hnames c n (List.mem_append_left _ hm)
  have hspares : ∀ {queue}, t.queue? = some queue → op.Spares s.broker queue := fun hq =>
    hk.spares h ho hne ht hq
  rw [h.broker] at hop hspares ⊢
  have huntouched : ∀ {queue}, t.queue? = some queue → Broker.Untouched queue
      (Broker.run {} s.asked).1 ((Broker.run {} s.asked).1.perform op).broker
      ((Broker.run {} s.asked).1.perform op).sent := fun hq =>
    Broker.perform_spares (Broker.run_linked h.issued hpast) (Broker.run_bound h.issued) hop
      (fun c n => (Broker.run_named h.issued).tag_free c) (hspares hq)
  have htag : ∀ tag, t.tag? = some tag →
      ((Broker.run {} s.asked).1.perform op).broker.subscriptions.get? tag =
        (Broker.run {} s.asked).1.subscriptions.get? tag ∧
      eventsTo tag ((Broker.run {} s.asked).1.perform op).sent = [] := by
    intro tag htag
    obtain ⟨queue, hq⟩ := hhoused.phase.queue htag
    have hmade := hhoused.subscribed queue tag hq htag
    cases hsub : (Broker.run {} s.asked).1.subscriptions.get? tag with
    | none => exact hmade.quiet h.issued hsub hop
    | some sub =>
      obtain rfl := Broker.subscribed_unique h.issued (Broker.subscribed_of_live h.issued hsub)
        hmade
      exact (huntouched hq).subscription tag _ hsub rfl
  have hquiet : t.stream ((Broker.run {} s.asked).1.perform op).sent = [] := by
    rw [Tenant.stream]
    cases hg : t.tag? with
    | none => rfl
    | some tag => exact (htag tag hg).2
  refine ⟨?_, fun queue hq => (huntouched hq).queue, fun tag ht => (htag tag ht).1, ?_⟩
  · rw [Tenant.hear, hquiet, List.append_nil]
  · exact (h.broker ▸ hk).closedBy? hop

/-- What a client asks for is not about another client, unless it publishes. -/
theorem Sound.keepsOff_request (h : Sound s) (ht : s.tenants[j]? = some t)
    (hu : s.tenants[i]? = some u) (hij : i ≠ j) {stage : Client.Stage}
    (hs : u.client.stage = some stage) (hh : u.held = none)
    (hp : ∀ id m, stage ≠ .publishing id m) : KeepsOff s.broker t (u.request stage) := by
  have hother : ∀ queue, u.queue? = some queue → t.queue? ≠ some queue := fun queue hqu hqt =>
    hij (h.apart i j u t queue hu ht hqu hqt)
  have hhoused := h.housed i u hu
  have hqueue : u.queue? = queueAt u.client.client (some stage) none := by
    rw [Tenant.queue?, hs, hh]
  cases stage with
  | declaring => trivial
  | subscribing queue => exact hother queue hqueue
  | discarding queue failure => exact hother queue hqueue
  | cancelling queue tag =>
    have hphase := hhoused.phase
    rw [Tenant.InPhase, hs, hh] at hphase
    generalize hg : u.tag? = tag? at hphase
    cases hphase with
    | cancelling hl =>
      have hq : u.queue? = some queue := by
        rw [hqueue]
        show u.client.client.replyQueue? = some queue
        rw [Client.replyQueue?, hl]
      intro sub hsub
      rw [h.broker] at hsub
      obtain rfl := Broker.subscribed_unique h.issued (Broker.subscribed_of_live h.issued hsub)
        (hhoused.subscribed queue tag hq hg)
      exact hother queue hq
  | publishing id m => exact absurd rfl (hp id m)

/-- The client at `j` is as it was, and the broker keeps for it what it has kept. -/
structure Undisturbed (j : Nat) (t : Tenant) (s s' : System) : Prop where
  tenant : s'.tenants[j]? = some t
  kept : Kept t s.broker s'.broker

/-- **Foreign steps.** A step that is not about a client does not disturb it. -/
theorem Sound.step_foreign (h : Sound s) (ho : Owned s) (label : Label)
    (hnames : ∀ c n, .declareQueue c (generatedName n) ∉ (s.step label).asked)
    (ht : s.tenants[j]? = some t) (hf : Foreign s j t label) :
    Undisturbed j t s (s.step label) := by
  cases label with
  | operate op =>
    simp only [System.step, System.operate] at hnames ⊢
    split
    · next hop =>
      rw [if_pos hop] at hnames
      obtain ⟨hsame, hkept⟩ := h.perform_foreign ho hop hnames ht hf
      refine ⟨?_, hkept⟩
      rw [getElem?_perform, ht, Option.map_some, hsame]
    · exact ⟨ht, .refl t s.broker⟩
  | connect timeout channel =>
    refine ⟨getElem?_connect ht timeout channel, ?_⟩
    rw [System.step, broker_connect]
    exact .refl t s.broker
  | ask i =>
    obtain ⟨hij, hpublish⟩ := hf
    simp only [System.step] at hnames ⊢
    rcases ask_cases s i with he | ⟨u, stage, hu, hs, hh⟩
    · rw [he]
      exact ⟨ht, .refl t s.broker⟩
    have hk : KeepsOff s.broker t (u.request stage) := by
      by_cases hp : ∃ id m, stage = .publishing id m
      · obtain ⟨id, m, rfl⟩ := hp
        exact hpublish u id m hu hs
      · exact h.keepsOff_request ht hu hij hs hh fun id m he => hp ⟨id, m, he⟩
    rw [asked_ask hu hs hh] at hnames
    obtain ⟨hsame, hkept⟩ := h.perform_foreign ho (h.issued_request hu stage) hnames ht hk
    constructor
    · rw [getElem?_ask hu hs hh, if_neg hij, ht, Option.map_some, hsame]
    · rw [broker_ask hu hs hh]
      exact hkept
  | move i m =>
    refine ⟨?_, .refl t s.broker⟩
    show (s.move i m).tenants[j]? = some t
    rw [getElem?_move, if_neg hf]
    exact ht

theorem Sound.run_foreign (labels : List Label) : ∀ {s : System}, Sound s → Owned s →
    (∀ c n, .declareQueue c (generatedName n) ∉ (s.run labels).asked) →
    s.tenants[j]? = some t → AllForeign j t s labels →
    Undisturbed j t s (s.run labels) := by
  induction labels with
  | nil => exact fun {s} _ _ _ ht _ => ⟨ht, .refl t s.broker⟩
  | cons label rest ih =>
    intro s h ho hnames ht hf
    have hnow : ∀ c n, .declareQueue c (generatedName n) ∉ (s.step label).asked :=
      names_of_run rest hnames
    obtain ⟨ht', hkept⟩ := h.step_foreign ho label hnow ht hf.1
    obtain ⟨ht'', hkept'⟩ := ih (h.step label) (owned_step h ho label hnow) hnames ht' hf.2
    exact ⟨ht'', hkept.trans hkept'⟩

/-! ## Replies -/

/-- A reply to the call `id` that the broker has sent to the client's subscription. If somebody
addressed it to a queue by name, it was the client's queue. -/
structure Brought (s : System) (t : Tenant) (id : String) (d : Delivery) : Prop where
  sent : .delivery d ∈ t.stream (Broker.run {} s.asked).2
  matched : d.properties.correlationId = some id
  addressed : d.envelope.exchange = defaultExchange → t.queue? = some d.envelope.routingKey

/-- Nothing but a reply that the client has been brought, or the end of its subscription, is
written into its slots. -/
theorem Sound.brought (h : Sound s)
    (hnames : ∀ c n, .declareQueue c (generatedName n) ∉ s.asked) (ht : s.tenants[j]? = some t)
    {id : String} {outcome : Outcome} (hv : t.client.value? id = some outcome) :
    (∃ cause, outcome = .shutdown cause) ∨
      ∃ d, Brought s t id d ∧ outcome = .ofReply d.properties d.body := by
  have hhoused := h.housed j t ht
  obtain ⟨timeout, labels, hran⟩ := hhoused.ran
  obtain ⟨-, hmatched⟩ := Client.System.run_matched timeout labels
  rw [← hran] at hmatched
  rcases (hmatched.filled id outcome hv).2 with hcause | ⟨properties, body, rest, hr, rfl⟩
  · exact Or.inl hcause
  obtain ⟨hmark, hc⟩ := Client.mem_repliesTo (hr ▸ List.mem_cons_self)
  obtain ⟨event, hsent, he⟩ := hhoused.heard.event hmark rfl
  cases event with
  | shutdown => cases he
  | cancelled => cases he
  | delivery d =>
    cases he
    refine Or.inr ⟨d, ⟨hsent, hc, fun hx => ?_⟩, rfl⟩
    cases hg : t.tag? with
    | none => rw [Tenant.stream, hg] at hsent; cases hsent
    | some tag =>
      obtain ⟨queue, hq⟩ := hhoused.phase.queue hg
      rw [Tenant.stream, hg] at hsent
      have hd : d ∈ deliveriesTo tag (Broker.run {} s.asked).2 :=
        List.mem_filterMap.2 ⟨_, hsent, rfl⟩
      have ha := (Broker.run_addressed h.issued hnames).delivered tag _
        (hhoused.subscribed queue tag hq hg) d hd hx
      exact hq.trans (congrArg some ha.symm)

/-! ## Isolation -/

/-- Closes a client on which no operation is under way. -/
def closingOf (i : Nat) : List Label := [.move i (.start .closing), .ask i, .move i .answer]

theorem allForeign_closing (hu : s.tenants[i]? = some u) (hij : i ≠ j)
    (hs : u.client.stage = none) : AllForeign j t s (closingOf i) := by
  refine ⟨hij, ⟨hij, fun u' id m hu' hs' => ?_⟩, hij, trivial⟩
  replace hu' : (s.move i (.start .closing)).tenants[i]? = some u' := hu'
  rw [getElem?_move, if_pos rfl, hu] at hu'
  cases hu'
  have hstage := (Client.System.client_start hs .closing).2
  rw [show (u.client.start .closing).stage = _ from hs', Client.start, Client.startClose] at hstage
  split at hstage <;> cases hstage

/-- **Isolation.** Take a client on a broker that many share, in any state that can be reached
without anybody's declaring a queue under a name of the broker's own.
* No steps that are not about the client disturb it, whoever takes them and in whatever order.
* A reply that is addressed to the queue of another client does not, with any id, nor does it that
  another client is closed, on whatever channel.
* So what is written into a slot of the client is the end of its subscription, or a reply with the
  id of the call that has come by this subscription, and not by the queue of another client. -/
theorem System.Reachable.isolated (h : s.Reachable) (ht : s.tenants[j]? = some t)
    (hnames : ∀ c n, .declareQueue c (generatedName n) ∉ s.asked) :
    (∀ labels, (∀ c n, .declareQueue c (generatedName n) ∉ (s.run labels).asked) →
      AllForeign j t s labels → Undisturbed j t s (s.run labels)) ∧
    (∀ i u, i ≠ j → s.tenants[i]? = some u →
      (∀ c m, m.exchange = defaultExchange → u.queue? = some m.routingKey →
        Undisturbed j t s (s.operate (.publish c m))) ∧
      (u.client.stage = none → Undisturbed j t s (s.run (closingOf i)))) ∧
    ∀ id outcome, t.client.value? id = some outcome → (∃ cause, outcome = .shutdown cause) ∨
      ∃ d, Brought s t id d ∧ outcome = .ofReply d.properties d.body ∧
        ∀ i u, i ≠ j → s.tenants[i]? = some u →
          ¬(d.envelope.exchange = defaultExchange ∧ u.queue? = some d.envelope.routingKey) := by
  have hsound := h.sound
  have howned := h.owned hnames
  have hrun := fun labels hnames => hsound.run_foreign labels howned hnames ht
  refine ⟨hrun, fun i u hij hu => ⟨fun c m hx hq => ?_, fun hs => ?_⟩, fun id outcome hv => ?_⟩
  · refine hsound.step_foreign howned (.operate (.publish c m)) ?_ ht fun queue hqt hm => ?_
    · simp only [System.step, System.operate]
      split
      · intro c' n hm
        rcases List.mem_append.1 hm with hm | hm
        · exact hnames c' n hm
        · cases List.mem_singleton.1 hm
      · exact hnames
    · have hroute := Broker.mem_route?.1 hm
      rw [if_pos hx] at hroute
      exact hij (hsound.apart i j u t queue hu ht (hroute.1 ▸ hq) hqt)
  · refine hrun (closingOf i) ?_ (allForeign_closing hu hij hs)
    have hstart := names_step_of_client (.move i (.start .closing)) nofun hnames
    have hask := names_step_of_client (.ask i) nofun hstart
    exact names_step_of_client (.move i .answer) nofun hask
  · rcases hsound.brought hnames ht hv with hcause | ⟨d, hd, rfl⟩
    · exact Or.inl hcause
    · refine Or.inr ⟨d, hd, rfl, fun i u hij hu hother => ?_⟩
      exact hij (hsound.apart i j u t _ hu ht hother.2 (hd.addressed hother.1))

/-- Opens a client. -/
def openingOf (i : Nat) : List Label :=
  [.move i (.start .opening), .ask i, .move i .answer, .ask i, .move i .answer]

/-- Makes a call that waits for its reply. -/
def callingOf (i : Nat) : List Label :=
  [.move i (.start (.calling { routingKey := "work" })), .ask i, .move i .answer]

/-- Two clients on one channel, each with a call under way, under the same id. -/
def sharedHistory : List Label :=
  [.operate .openChannel, .connect .infinite 1, .connect .infinite 1] ++ openingOf 0 ++
    openingOf 1 ++ callingOf 0 ++ callingOf 1

/-- A reply to the first client. -/
def replyTo : Label :=
  .operate (.publish 1
    { routingKey := "amq.gen-1", properties := { correlationId := some "1" }, body := [7] })

/-- The reply comes and is taken, and the first client is closed. -/
def replyAndClose : List Label :=
  [replyTo, .move 0 .turn, .move 0 .turn, .move 0 (.look "1")] ++ closingOf 0

theorem isolated_shared_channel :
    ∃ t, (System.run {} sharedHistory).tenants[1]? = some t ∧
      t.client.pending? "1" = some "1" ∧
      ((System.run {} sharedHistory).run replyAndClose).tenants[1]? = some t ∧
      ((System.run {} sharedHistory).run replyAndClose).tenants[0]?.bind (·.client.value? "1") =
        some (.success [7]) ∧
      Undisturbed 1 t (System.run {} sharedHistory)
        ((System.run {} sharedHistory).run (closingOf 0)) := by
  have hview : (System.run {} sharedHistory).tenants[1]?.map
      (fun t => (t.queue?, t.client.pending? "1")) = some (some "amq.gen-2", some "1") := by
    decide +kernel
  obtain ⟨t, ht, hview⟩ := Option.map_eq_some_iff.1 hview
  simp only [Prod.mk.injEq] at hview
  obtain ⟨hqueue, hpending⟩ := hview
  have hidle : (System.run {} sharedHistory).tenants[0]?.map (·.client.stage.isNone) =
      some true := by
    decide +kernel
  have hnone : ∀ c n, .declareQueue c (generatedName n) ∉
      ((System.run {} sharedHistory).run replyAndClose).asked := by
    intro c n hm
    have hall : ((System.run {} sharedHistory).run replyAndClose).asked.all
        (fun op => !op matches .declareQueue ..) = true := by
      decide +kernel
    cases List.all_eq_true.1 hall _ hm
  have hroute : "amq.gen-2" ∉
      ((System.run {} sharedHistory).broker.route? defaultExchange "amq.gen-1").getD [] := by
    decide +kernel
  obtain ⟨hall, hclients, -⟩ := System.Reachable.isolated ⟨sharedHistory, rfl⟩ ht fun c n hm =>
    hnone c n ((asked_run replyAndClose _).subset hm)
  obtain ⟨u, hu, hs⟩ := Option.map_eq_some_iff.1 hidle
  have hforeign : AllForeign 1 t (System.run {} sharedHistory) replyAndClose := by
    have hanswered : (((((System.run {} sharedHistory).step replyTo).step (.move 0 .turn)).step
        (.move 0 .turn)).step (.move 0 (.look "1"))).tenants[0]?.map (·.client.stage.isNone) =
          some true := by
      decide +kernel
    obtain ⟨v, hv, hs'⟩ := Option.map_eq_some_iff.1 hanswered
    refine ⟨fun queue hq hm => ?_, Nat.zero_ne_one, Nat.zero_ne_one, Nat.zero_ne_one,
      allForeign_closing hv Nat.zero_ne_one (Option.isNone_iff_eq_none.1 hs')⟩
    obtain rfl := Option.some.inj (hqueue.symm.trans hq)
    exact hroute hm
  refine ⟨t, ht, hpending, (hall replyAndClose hnone hforeign).tenant, ?_, ?_⟩
  · decide +kernel
  · exact (hclients 0 u Nat.zero_ne_one hu).2 (Option.isNone_iff_eq_none.1 hs)

end BrokeredRpc.Tenancy
