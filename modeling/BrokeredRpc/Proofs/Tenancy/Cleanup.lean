import BrokeredRpc.Proofs.Broker.Outlines
import BrokeredRpc.Proofs.Broker.Refusals
import BrokeredRpc.Proofs.Tenancy.Release

/-!
# What a client leaves behind

What would a broker be without a client on it? `System.without` is what everybody else
asks of the broker while the client is there, and `Beside` compares the broker with one
that is asked for nothing else: as long as the others publish and bind, the two differ in
the client's queue and subscription only, whatever the client does and whenever its
requests come in between (`Beside.step`). Once these two are gone there is no difference.

* `System.run_cleanup`: after a failed opening nothing is left of the queue, nor is
  after a client has been closed, and then the broker has the outline that it would have
  without the client.
-/
namespace BrokeredRpc

namespace Broker

variable {b : Broker}

theorem subscription_perform (hv : b.Serving) {op : Operation} (hi : ∀ c ∈ op.channel?, b.Issued c)
    (htags : ∀ c n, b.issuedTags < n → b.subscriptions.get? (tagName c n) = none) {tag : String}
    {s : Subscription} (hs : (b.perform op).broker.subscriptions.get? tag = some s) :
    b.subscriptions.get? tag = some s ∨
      op = .consume s.channel s.queue ∧ (b.perform op).answer = .ok (.name tag) := by
  cases perform_fate hv hi htags tag with
  | absent _ h' => rw [hs] at h'; cases h'
  | made _ ho _ _ h' ha =>
    rw [hs] at h'
    cases h'
    exact Or.inr ⟨ho, ha⟩
  | goesOn _ h h' => exact Or.inl (h.trans (h'.symm.trans hs))
  | shutDown _ h' => rw [hs] at h'; cases h'
  | cancelled _ h' => rw [hs] at h'; cases h'

theorem answer_cancel (hh : b.Held) {tag : String} {s : Subscription}
    (hs : b.subscriptions.get? tag = some s) :
    (b.perform (.cancel s.channel tag)).answer = .ok .nothing := by
  have hopen := isOpen_iff.1 (hh.subscriber tag s hs).2
  simp only [perform, cancel, onChannel, hopen, hs, if_true]
  rfl

end Broker

namespace Tenancy

open Broker (generatedName)
open Broker.Operation (Value)

variable {s : System} {i j : Nat} {t u : Tenant}

/-! ## The broker without the client -/

/-- What a client asks the broker for next. -/
def System.request? (s : System) (index : Nat) : Option Broker.Operation :=
  s.tenants[index]?.bind fun t => if t.held.isNone then t.client.stage.map t.request else none

/-- What the broker is asked for in a step, but for what the client at `i` asks. -/
def System.asks (s : System) (i : Nat) : Label → List Broker.Operation
  | .operate op => if ∀ c ∈ op.channel?, s.broker.Issued c then [op] else []
  | .ask index => if index = i then [] else (s.request? index).toList
  | .connect .. | .move .. => []

/-- All that the others ask for, one after another. -/
def System.without (s : System) (i : Nat) : List Label → List Broker.Operation
  | [] => []
  | label :: rest => s.asks i label ++ (s.step label).without i rest

theorem request?_cases (s : System) (j : Nat) :
    s.request? j = none ∧ s.ask j = s ∨
      ∃ u stage, s.tenants[j]? = some u ∧ u.client.stage = some stage ∧ u.held = none ∧
        s.request? j = some (u.request stage) := by
  cases hu : s.tenants[j]? with
  | none => exact Or.inl (by simp [System.request?, System.ask, hu])
  | some u =>
    cases hs : u.client.stage with
    | none => exact Or.inl (by simp [System.request?, System.ask, hu, hs])
    | some stage =>
      cases hh : u.held with
      | some a => exact Or.inl (by simp [System.request?, System.ask, hu, hs, hh])
      | none => exact Or.inr ⟨u, stage, rfl, hs, hh, by simp [System.request?, hu, hs, hh]⟩

/-- A step of others is an operation on the broker, of which the client may hear, or it is nothing
to the client and to the broker. -/
theorem step_others (ht : s.tenants[i]? = some t) {label : Label} (ha : label ≠ .ask i)
    (hm : ∀ m, label ≠ .move i m) :
    (s.asks i label = [] ∧ (s.step label).broker = s.broker ∧
        (s.step label).tenants[i]? = some t) ∨
      ∃ op, s.asks i label = [op] ∧ (s.step label).broker = (s.broker.perform op).broker ∧
        (s.step label).tenants[i]? = some (t.hear (s.broker.perform op).sent) := by
  cases label with
  | operate op =>
    simp only [System.step, System.operate, System.asks]
    split
    · refine Or.inr ⟨op, rfl, rfl, ?_⟩
      rw [getElem?_perform, ht]
      rfl
    · exact Or.inl ⟨rfl, rfl, ht⟩
  | connect timeout channel =>
    exact Or.inl ⟨rfl, broker_connect s timeout channel, getElem?_connect ht timeout channel⟩
  | ask j =>
    have hji : j ≠ i := fun he => ha (congrArg Label.ask he)
    simp only [System.step, System.asks, if_neg hji]
    rcases request?_cases s j with ⟨hnone, hsame⟩ | ⟨u, stage, hu, hs, hh, hsome⟩
    · rw [hnone, hsame]
      exact Or.inl ⟨rfl, rfl, ht⟩
    · rw [hsome]
      refine Or.inr ⟨u.request stage, rfl, broker_ask hu hs hh, ?_⟩
      rw [getElem?_ask hu hs hh, if_neg hji, ht]
      rfl
  | move j m =>
    have hji : j ≠ i := fun he => hm m (he ▸ rfl)
    refine Or.inl ⟨rfl, rfl, ?_⟩
    show (s.move j m).tenants[i]? = some t
    rw [getElem?_move, if_neg hji]
    exact ht

/-! ## Side by side -/

/-- `b` is the broker as it would be without the client, up to counters and backlogs. -/
structure Beside (s : System) (t : Tenant) (b : Broker) : Prop where
  outline : b.outline = s.broker.aside t.tag? t.queue?
  /-- Nobody else consumes from the client's queue. -/
  alone : ∀ tag sub, s.broker.subscriptions.get? tag = some sub → t.queue? = some sub.queue →
    t.tag? = some tag
  /-- The client's subscription is there until the client gives it back. -/
  alive : ∀ tag, t.tag? = some tag → ¬t.Released →
    ∃ sub, s.broker.subscriptions.get? tag = some sub
  /-- The broker does not refuse to cancel it. -/
  unrefused : ∀ queue tag a, t.client.stage = some (.cancelling queue tag) → t.held = some a →
    ∃ name, a = .ok name

theorem Tenant.InPhase.cancelling (h : t.InPhase) {queue tag : String}
    (hs : t.client.stage = some (.cancelling queue tag)) :
    t.client.client.lifecycle = .opened queue tag ∧ t.tag? = some tag ∧ t.queue? = some queue := by
  have hphase := h
  rw [Tenant.InPhase, hs] at hphase
  generalize t.tag? = tag? at hphase
  cases hphase with
  | cancelling hl =>
    refine ⟨hl, rfl, ?_⟩
    rw [Tenant.queue?, hs]
    show t.client.client.replyQueue? = some queue
    rw [Client.replyQueue?, hl]

theorem Tenant.InPhase.closed (h : t.InPhase) {queue : String}
    (hl : t.client.client.lifecycle = .closed queue) : t.Released ∧ t.queue? = some queue := by
  cases hs : t.client.stage with
  | some stage =>
    rw [Tenant.InPhase, hs] at h
    exact absurd hl (h.not_closed queue)
  | none =>
    rw [Tenant.Released, Tenant.queue?, hs]
    refine ⟨⟨queue, hl⟩, ?_⟩
    show t.client.client.replyQueue? = some queue
    rw [Client.replyQueue?, hl]

theorem Tenant.InPhase.unopened (h : t.InPhase) (hs : t.client.stage = none)
    (hl : t.client.client.lifecycle = .unopened) : t.tag? = none ∧ t.queue? = none := by
  rw [Tenant.InPhase, hs] at h
  rw [Tenant.queue?, hs]
  refine ⟨?_, ?_⟩
  · generalize t.held = held at h
    generalize t.tag? = tag? at h
    cases h with
    | unopened => rfl
    | opened h | closed h => rw [hl] at h; cases h
  · show t.client.client.replyQueue? = none
    rw [Client.replyQueue?, hl]

/-- A client with a request under way and no answer has given nothing back. -/
theorem Tenant.InPhase.not_released (h : t.InPhase) {stage : Client.Stage}
    (hs : t.client.stage = some stage) (hh : t.held = none) : ¬t.Released := by
  rw [Tenant.InPhase, hs] at h
  rw [Tenant.Released, hh, releasedAt_none]
  rintro ⟨queue, hl⟩
  exact h.not_closed queue hl

namespace Orderly

theorem linked (h : Orderly s) : s.broker.Linked := h.sound.linked h.undeclared

theorem named (h : Orderly s) : Broker.Named s.asked s.broker := by
  rw [h.sound.broker]
  exact Broker.run_named h.sound.issued

theorem name_free (h : Orderly s) : s.broker.queues.get? s.broker.nextName = none :=
  h.named.name_free h.undeclared (Nat.lt_succ_self _)

theorem subscription_perform (h : Orderly s) {op : Broker.Operation}
    (hi : ∀ c ∈ op.channel?, s.broker.Issued c) {tag : String} {sub : Subscription}
    (hs : (s.broker.perform op).broker.subscriptions.get? tag = some sub) :
    s.broker.subscriptions.get? tag = some sub ∨
      op = .consume sub.channel sub.queue ∧ (s.broker.perform op).answer = .ok (.name tag) :=
  Broker.subscription_perform h.linked.serving hi (fun c _ => h.named.tag_free c) hs

theorem unsubscribed (h : Orderly s) (ht : s.tenants[i]? = some t) (hr : t.Released) {tag : String}
    (hg : t.tag? = some tag) : s.broker.subscriptions.get? tag = none := by
  obtain ⟨queue, hq⟩ := (h.sound.housed i t ht).phase.queue hg
  have hgone := Broker.gone_of_absent h.linked h.sound.bound (h.emptied i t queue ht hq hr)
  cases hsub : s.broker.subscriptions.get? tag with
  | none => rfl
  | some sub =>
    refine absurd ?_ (hgone.unsubscribed tag sub hsub)
    rw [h.sound.own ht hq hg hsub]

end Orderly

namespace Beside

variable {b : Broker}

theorem perform (h : Beside s t b) {op : Broker.Operation} (hop : op.routes = true) {s' : System}
    (hb : s'.broker = (s.broker.perform op).broker) (sent : List Dispatch) :
    Beside s' (t.hear sent) (b.perform op).broker where
  outline := by
    rw [hb]
    exact Broker.outline_perform_routes h.outline hop
  alone := by
    rw [hb, Broker.subscriptions_perform_routes hop]
    exact h.alone
  alive := by
    rw [hb, Broker.subscriptions_perform_routes hop]
    exact h.alive
  unrefused := h.unrefused

theorem cancel_granted (h : Beside s t b) (ho : Orderly s) (ht : s.tenants[i]? = some t)
    {queue tag : String} (hs : t.client.stage = some (.cancelling queue tag)) (hh : t.held = none) :
    (s.broker.perform (t.request (.cancelling queue tag))).answer = .ok .nothing := by
  have hphase := (ho.sound.housed i t ht).phase
  obtain ⟨-, hg, hq⟩ := hphase.cancelling hs
  obtain ⟨sub, hsub⟩ := h.alive tag hg (hphase.not_released hs hh)
  have hanswer := Broker.answer_cancel ho.sound.held hsub
  rw [ho.sound.own ht hq hg hsub] at hanswer
  exact hanswer

/-- The client's own request changes nothing but its queue and its subscription. -/
theorem aside_ask (h : Beside s t b) (ho : Orderly s) (ht : s.tenants[i]? = some t)
    {stage : Client.Stage} (hs : t.client.stage = some stage) (hh : t.held = none)
    {answer : Except TransportError Value}
    (ha : (s.broker.perform (t.request stage)).answer = answer) :
    (s.broker.perform (t.request stage)).broker.aside (t.accept stage answer).tag?
        (t.accept stage answer).queue? =
      s.broker.aside t.tag? t.queue? := by
  have hb := ho.sound.bound
  have hv := ho.linked.serving
  have halone := h.alone
  have hphase := (ho.sound.housed i t ht).phase
  have hqueue : t.queue? = queueAt t.client.client (some stage) none := by
    rw [Tenant.queue?, hs, hh]
  have hqueue' : (t.accept stage answer).queue? =
      queueAt t.client.client (some stage) (some (answer.map Value.text)) := by
    rw [← hs]
    rfl
  rw [hqueue] at halone ⊢
  rw [hqueue']
  rw [Tenant.InPhase, hs, hh] at hphase
  generalize hg : t.tag? = tag? at hphase halone
  cases hphase with
  | declaring hl =>
    have hnone : t.client.client.replyQueue? = none := by rw [Client.replyQueue?, hl]
    show Broker.aside _ t.tag? _ = s.broker.aside none t.client.client.replyQueue?
    rw [hg, hnone]
    cases answer with
    | error e =>
      rw [Broker.perform_of_error ha]
      show s.broker.aside none t.client.client.replyQueue? = _
      rw [hnone]
    | ok value =>
      obtain ⟨rfl, -⟩ := Broker.of_declareExclusive_answer ha
      exact Broker.aside_declareExclusive hb hv ho.name_free
  | @subscribing queue _ hl _ =>
    cases answer with
    | error e =>
      rw [Broker.perform_of_error ha]
      show s.broker.aside t.tag? (some queue) = s.broker.aside none (some queue)
      rw [hg]
    | ok value =>
      have hvalue := Broker.name_of_consume_answer ha
      exact Broker.aside_consume hb hv (ho.named.tag_free _ (Nat.lt_succ_self _)) (hvalue ▸ ha)
  | @discarding queue failure =>
    show Broker.aside _ t.tag? (some queue) = s.broker.aside none (some queue)
    rw [hg]
    exact Broker.aside_deleteQueue ho.linked fun tag sub hsub hname =>
      halone tag sub hsub (congrArg some hname.symm)
  | @cancelling queue tag =>
    obtain ⟨-, -, hq⟩ := (ho.sound.housed i t ht).phase.cancelling hs
    show Broker.aside _ t.tag? t.client.client.replyQueue? =
      s.broker.aside (some tag) t.client.client.replyQueue?
    rw [show t.client.client.replyQueue? = some queue from hqueue.symm.trans hq, hg]
    refine Broker.aside_cancel ho.linked fun sub hsub => ?_
    rw [ho.sound.own ht hq hg hsub]
  | @publishing _ tag id m =>
    show Broker.aside _ t.tag? t.client.client.replyQueue? =
      s.broker.aside (some tag) t.client.client.replyQueue?
    rw [hg]
    exact Broker.aside_publish

theorem ask (h : Beside s t b) (ho : Orderly s) (ht : s.tenants[i]? = some t)
    {stage : Client.Stage} (hs : t.client.stage = some stage) (hh : t.held = none)
    {s' : System} (hb : s'.broker = (s.broker.perform (t.request stage)).broker)
    (sent : List Dispatch) :
    Beside s' ((t.accept stage (s.broker.perform (t.request stage)).answer).hear sent) b := by
  have hphase := (ho.sound.housed i t ht).phase
  have hissued := ho.sound.issued_request ht stage
  generalize ha : (s.broker.perform (t.request stage)).answer = answer
  have htag := Tenant.tag?_accept hphase hs hh answer
  constructor
  case outline =>
    rw [hb]
    exact h.outline.trans (h.aside_ask ho ht hs hh ha).symm
  case alone =>
    intro tag sub hsub hq
    rw [hb] at hsub
    replace hq : (t.accept stage answer).queue? = some sub.queue := hq
    show (t.accept stage answer).tag? = some tag
    rcases ho.subscription_perform hissued hsub with hold | ⟨hop, hanswer⟩
    · rcases Tenant.queue?_accept hs hh hq with hq | ⟨rfl, value, rfl, he⟩
      · have hg := h.alone tag sub hold hq
        rcases htag with hsame | ⟨_, _, _, _, hnone, _⟩
        · exact hsame.trans hg
        · rw [hg] at hnone
          cases hnone
      · -- Nobody has subscribed to a queue that has just been named.
        obtain ⟨q, hget, -⟩ := ho.linked.consumer hold
        obtain ⟨rfl, -⟩ := Broker.of_declareExclusive_answer ha
        rw [he] at hget
        exact absurd (hget.symm.trans ho.name_free) nofun
    · rw [ha] at hanswer
      cases hanswer
      cases stage with
      | subscribing => rfl
      | _ => cases hop
  case alive =>
    intro tag hg hr
    replace hg : (t.accept stage answer).tag? = some tag := hg
    replace hr : ¬(t.accept stage answer).Released := hr
    rw [hb]
    rcases htag with hsame | ⟨queue, value, rfl, rfl, hnone, he⟩
    · rw [hsame] at hg
      have hlive := h.alive tag hg (hphase.not_released hs hh)
      cases stage with
      | publishing id m =>
        rw [Broker.subscriptions_perform_routes rfl]
        exact hlive
      | cancelling queue tag' =>
        refine absurd ?_ hr
        obtain rfl := ha.symm.trans (h.cancel_granted ho ht hs hh)
        show ReleasedAt t.client.client t.client.stage _
        rw [hs]
        trivial
      | _ =>
        rw [Tenant.InPhase, hs, hh, hg] at hphase
        cases hphase
    · obtain rfl := Option.some.inj (he.symm.trans hg)
      exact ⟨_, (Broker.of_consume_answer (Broker.name_of_consume_answer ha ▸ ha)).2.1⟩
  case unrefused =>
    intro queue tag a hc hheld
    obtain rfl : stage = .cancelling queue tag := Option.some.inj (hs.symm.trans hc)
    obtain rfl := ha.symm.trans (h.cancel_granted ho ht hs hh)
    cases hheld
    exact ⟨_, rfl⟩

theorem move (h : Beside s t b) (ho : Orderly s) (ht : s.tenants[i]? = some t) (m : Move)
    {s' : System} (hb : s'.broker = s.broker) : Beside s' (t.move m) b := by
  have hphase := (ho.sound.housed i t ht).phase
  have hmoved := hphase.moved m
  constructor
  case outline =>
    rw [hb, h.outline, Tenant.tag?_move]
    rcases hmoved with ⟨hr, -⟩ | ⟨-, -, hsame⟩
    · -- A queue that has been given back is gone, and it makes no difference who has it.
      have hgone : ∀ {name}, t.queue? = some name → ¬(s.broker.queues.get? name).isSome :=
        fun hq => by rw [ho.emptied i t _ ht hq hr]; nofun
      refine Broker.aside_congr ho.sound.bound ho.linked.serving (fun _ _ => Iff.rfl)
        fun name hs => ⟨fun hq => absurd hs (hgone hq), fun hq => absurd hs (hgone ?_)⟩
      exact Tenant.queue?_move hphase hq
    · rw [hsame]
  case alone =>
    rw [hb, Tenant.tag?_move]
    exact fun tag sub hsub hq => h.alone tag sub hsub (Tenant.queue?_move hphase hq)
  case alive =>
    rw [hb, Tenant.tag?_move]
    refine fun tag hg hr => h.alive tag hg fun hrel => ?_
    rcases hmoved with ⟨-, hnone | hrel'⟩ | ⟨hn, -⟩
    · rw [hg] at hnone
      cases hnone
    · exact hr hrel'
    · exact hn hrel
  case unrefused =>
    intro queue tag a hs hheld
    obtain ⟨hold, hstage⟩ := hphase.held_of_move hheld
    exact h.unrefused queue tag a (hstage.symm.trans hs) hold

/-- **One step.** Whatever the client does, it makes no difference to the others. -/
theorem step (h : Beside s t b) (ho : Orderly s) (ht : s.tenants[i]? = some t) (label : Label)
    (hroutes : ∀ op ∈ s.asks i label, op.routes = true) :
    ∃ t', (s.step label).tenants[i]? = some t' ∧
      Beside (s.step label) t' (b.run (s.asks i label)).1 := by
  by_cases ha : label = .ask i
  · subst ha
    simp only [System.step, System.asks, if_pos]
    rcases ask_cases s i with hsame | ⟨u, stage, hu, hs, hh⟩
    · rw [hsame]
      exact ⟨t, ht, h⟩
    rw [ht] at hu
    cases hu
    exact ⟨_, by rw [getElem?_ask ht hs hh, if_pos rfl], h.ask ho ht hs hh (broker_ask ht hs hh) _⟩
  by_cases hm : ∃ m, label = .move i m
  · obtain ⟨m, rfl⟩ := hm
    refine ⟨t.move m, ?_, h.move ho ht m rfl⟩
    show (s.move i m).tenants[i]? = _
    rw [getElem?_move, if_pos rfl, ht]
    rfl
  rcases step_others ht ha fun m he => hm ⟨m, he⟩ with ⟨hnone, hb, ht'⟩ | ⟨op, hop, hb, ht'⟩
  · rw [hnone]
    refine ⟨t, ht', ?_⟩
    obtain ⟨houtline, halone, halive, hunrefused⟩ := h
    rw [← hb] at houtline halone halive
    exact ⟨houtline, halone, halive, hunrefused⟩
  · rw [hop] at hroutes ⊢
    exact ⟨_, ht', h.perform (hroutes op List.mem_cons_self) hb _⟩

/-- **A whole run** beside one without the client. -/
theorem run (labels : List Label) : ∀ {s : System} {t : Tenant} {b : Broker}, Beside s t b →
    Orderly s → s.tenants[i]? = some t →
    (∀ c n, .declareQueue c (generatedName n) ∉ (s.run labels).asked) →
    (∀ op ∈ s.without i labels, op.routes = true) →
    ∃ t', (s.run labels).tenants[i]? = some t' ∧
      Beside (s.run labels) t' (b.run (s.without i labels)).1 := by
  induction labels with
  | nil => exact fun h _ ht _ _ => ⟨_, ht, h⟩
  | cons label rest ih =>
    intro s t b h ho ht hnames hroutes
    have hnow : ∀ c n, .declareQueue c (generatedName n) ∉ (s.step label).asked :=
      names_of_run rest hnames
    obtain ⟨t', ht', h'⟩ := h.step ho ht label fun op hop =>
      hroutes op (List.mem_append_left _ hop)
    rw [System.without, Broker.run_append]
    exact ih h' (ho.step label hnow) ht' hnames fun op hop =>
      hroutes op (List.mem_append_right _ hop)

theorem of_unopened (ho : Orderly s) (ht : s.tenants[i]? = some t) (hs : t.client.stage = none)
    (hl : t.client.client.lifecycle = .unopened) : Beside s t s.broker := by
  obtain ⟨hg, hq⟩ := (ho.sound.housed i t ht).phase.unopened hs hl
  constructor
  case outline => rw [hq, hg, Broker.aside_none]
  case alone => rw [hq]; exact nofun
  case alive => rw [hg]; exact nofun
  case unrefused => rw [hs]; exact nofun

theorem outline_eq (h : Beside s t b) (ho : Orderly s) (ht : s.tenants[i]? = some t)
    (hs : t.client.stage = none) (hopen : t.client.client.isOpen = false) :
    s.broker.outline = b.outline := by
  have hphase := (ho.sound.housed i t ht).phase
  rw [h.outline, ← Broker.aside_none]
  cases hl : t.client.client.lifecycle with
  | opened queue tag => rw [Client.isOpen, hl] at hopen; cases hopen
  | unopened => rw [(hphase.unopened hs hl).1, (hphase.unopened hs hl).2]
  | closed queue =>
    obtain ⟨hr, -⟩ := hphase.closed hl
    refine (Broker.aside_congr ho.sound.bound ho.linked.serving (fun tag htag => ?_)
      fun name hname => ?_).symm
    · refine ⟨fun hg => ?_, fun h => by cases h⟩
      rw [ho.unsubscribed ht hr hg] at htag
      cases htag
    · refine ⟨fun hq => ?_, fun h => by cases h⟩
      rw [ho.emptied i t name ht hq hr] at hname
      cases hname

theorem closes (h : Beside s t b) {queue tag : String} {a : Except TransportError String}
    (hs : t.client.stage = some (.cancelling queue tag)) (hh : t.held = some a) :
    (t.move .answer).client.client.lifecycle = .closed queue := by
  obtain ⟨name, rfl⟩ := h.unrefused queue tag a hs hh
  simp only [Tenant.move, hh]
  show (t.client.answer (.ok name)).client.lifecycle = .closed queue
  rw [(Client.System.client_answer hs (.ok name)).1]
  rfl

end Beside

/-! ## What is left -/

/-- **Nothing is left behind.** Take any steps after which no caller has declared a queue under a
name of the broker's own, whatever they are and in whatever order.
* Of the queues that the client was granted there is at most the one that it has now; none, if it
  is idle and has not been opened, as after every opening that failed.
* If the client is closed, nothing is left of its queue and of its subscription.
* If all that the others have done since a moment at which the client had not been opened is
  publishing and binding, then its closing succeeds, and once it is closed, or has failed to open,
  the broker has the channels, exchanges, bindings, queues and subscriptions that it would have if
  it had been asked for what the others ask for, and nothing else. -/
theorem System.run_cleanup {labels : List Label}
    (hnames : ∀ c n, .declareQueue c (generatedName n) ∉ (System.run {} labels).asked)
    (ht : (System.run {} labels).tenants[i]? = some t) :
    (∀ name, Granted labels i name →
      (System.run {} labels).broker.Gone name ∨ t.queue? = some name) ∧
    (t.client.stage = none → t.client.client.lifecycle = .unopened →
      ∀ name, Granted labels i name → (System.run {} labels).broker.Gone name) ∧
    (∀ queue, t.client.client.lifecycle = .closed queue →
      (System.run {} labels).broker.Gone queue ∧
        ∀ tag, t.tag? = some tag →
          (System.run {} labels).broker.subscriptions.get? tag = none) ∧
    ∀ before during t₀, labels = before ++ during →
      (System.run {} before).tenants[i]? = some t₀ → t₀.client.stage = none →
      t₀.client.client.lifecycle = .unopened →
      (∀ op ∈ (System.run {} before).without i during, op.routes = true) →
      (∀ queue tag a, t.client.stage = some (.cancelling queue tag) → t.held = some a →
        (t.move .answer).client.client.lifecycle = .closed queue) ∧
      (t.client.stage = none → t.client.client.isOpen = false →
        (System.run {} labels).broker.outline =
          ((System.run {} before).broker.run
            ((System.run {} before).without i during)).1.outline) := by
  have horderly := Orderly.init.run labels hnames
  have hphase := (horderly.sound.housed i t ht).phase
  have hgone : ∀ {name}, (System.run {} labels).broker.queues.get? name = none →
      (System.run {} labels).broker.Gone name :=
    Broker.gone_of_absent horderly.linked horderly.sound.bound
  have hgranted : ∀ name, Granted labels i name →
      (System.run {} labels).broker.Gone name ∨ t.queue? = some name := by
    intro name hname
    obtain ⟨t', n, ht', -, -, hcases⟩ := run_granted hnames hname
    rw [ht] at ht'
    cases ht'
    exact hcases.symm.imp_left hgone
  refine ⟨hgranted, fun hs hl name hname => ?_, fun queue hl => ?_, ?_⟩
  · refine (hgranted name hname).resolve_right ?_
    rw [(hphase.unopened hs hl).2]
    exact nofun
  · obtain ⟨hr, hq⟩ := hphase.closed hl
    exact ⟨hgone (horderly.emptied i t queue ht hq hr),
      fun tag hg => horderly.unsubscribed ht hr hg⟩
  · rintro before during t₀ rfl ht₀ hs₀ hl₀ hroutes
    rw [System.run_append] at hnames ht horderly ⊢
    have hbefore := Orderly.init.run before (names_of_run during hnames)
    obtain ⟨t', ht', hbeside⟩ :=
      Beside.run during (.of_unopened hbefore ht₀ hs₀ hl₀) hbefore ht₀ hnames hroutes
    rw [ht] at ht'
    cases ht'
    exact ⟨fun queue tag a hs hh => hbeside.closes hs hh,
      fun hs hopen => hbeside.outline_eq horderly ht hs hopen⟩

/-- A client begins to open. -/
def beginning : List Label :=
  [.operate .openChannel, .operate .openChannel, .operate (.declareExchange 2 "jobs"),
    .connect .infinite 1, .move 0 (.start .opening)]

/-- Somebody else on its channel is the first to subscribe to its queue, and so it fails. -/
def failedOpening : List Label :=
  beginning ++ [.ask 0] ++
    [.move 0 .answer, .operate (.consume 1 "amq.gen-1"), .ask 0, .move 0 .answer, .ask 0,
      .move 0 .answer]

/-- The client is opened and makes a call, somebody else binds its queue, and it is closed. -/
def boundAndClosed : List Label :=
  openingOf 0 ++ [.operate (.bind 2 "amq.gen-2" "jobs" "k")] ++ callingOf 0 ++
    [.operate (.publish 2 { exchange := "jobs", routingKey := "k" })] ++ closingOf 0

/-- A queue is declared by name by nobody but those who have no client. -/
theorem operated_of_declared (labels : List Label) : ∀ {s : System} {c : Nat} {name : String},
    .declareQueue c name ∈ (s.run labels).asked →
      .declareQueue c name ∈ s.asked ∨ .operate (.declareQueue c name) ∈ labels := by
  induction labels with
  | nil => exact fun h => Or.inl h
  | cons label rest ih =>
    intro s c name hm
    rcases ih hm with hm | hm
    · have hold : .declareQueue c name ∈ s.asked ∨ .operate (.declareQueue c name) = label := by
        cases label with
        | operate op =>
          simp only [System.step, System.operate] at hm
          split at hm
          · rcases List.mem_append.1 hm with hm | hm
            · exact Or.inl hm
            · exact Or.inr (congrArg Label.operate (List.mem_singleton.1 hm))
          · exact Or.inl hm
        | connect timeout channel =>
          rw [System.step, asked_connect] at hm
          exact Or.inl hm
        | ask i =>
          simp only [System.step] at hm
          rcases ask_cases s i with hsame | ⟨t, stage, ht, hs, hh⟩
          · rw [hsame] at hm
            exact Or.inl hm
          · rw [asked_ask ht hs hh] at hm
            refine Or.inl ((List.mem_append.1 hm).resolve_right fun hm => ?_)
            exact t.request_ne_declareQueue stage c name (List.mem_singleton.1 hm).symm
        | move i m => exact Or.inl hm
      exact hold.imp_right fun he => List.mem_cons.2 (Or.inl he)
    · exact Or.inr (List.mem_cons_of_mem _ hm)

theorem run_cleanup_retried :
    (System.run {} (failedOpening ++ boundAndClosed)).broker.Gone "amq.gen-1" ∧
      (System.run {} (failedOpening ++ boundAndClosed)).broker.Gone "amq.gen-2" ∧
      (System.run {} (failedOpening ++ boundAndClosed)).broker.outline =
        ((System.run {} failedOpening).broker.run [.bind 2 "amq.gen-2" "jobs" "k",
          .publish 2 { exchange := "jobs", routingKey := "k" }]).1.outline := by
  have hbegun : (System.run {} beginning).tenants[0]?.map
      (fun t => (t.client.stage.map Client.Stage.ahead, t.held.isNone, t.channel)) =
      some (some 2, true, 1) := by
    decide +kernel
  have hname : ((System.run {} beginning).broker.perform (.declareExclusive 1)).answer =
      .ok (.name "amq.gen-1") := rfl
  have hfailed : (System.run {} failedOpening).tenants[0]?.map
      (fun t => (t.client.stage.isNone, t.client.client.lifecycle)) = some (true, .unopened) := by
    decide +kernel
  have hclosed : (System.run {} (failedOpening ++ boundAndClosed)).tenants[0]?.map
      (fun t => (t.client.stage.isNone, t.client.client.lifecycle, t.queue?)) =
      some (true, .closed "amq.gen-2", some "amq.gen-2") := by
    decide +kernel
  have hothers : (System.run {} failedOpening).without 0 boundAndClosed =
      [.bind 2 "amq.gen-2" "jobs" "k",
        .publish 2 { exchange := "jobs", routingKey := "k" }] := by
    decide +kernel
  have hnone : ∀ c n, .declareQueue c (generatedName n) ∉
      (System.run {} (failedOpening ++ boundAndClosed)).asked := by
    intro c n hm
    rcases operated_of_declared _ hm with hm | hm
    · cases hm
    · simp [failedOpening, beginning, boundAndClosed, openingOf, callingOf, closingOf] at hm
  obtain ⟨t, ht, hview⟩ := Option.map_eq_some_iff.1 hclosed
  simp only [Prod.mk.injEq, Option.isNone_iff_eq_none] at hview
  obtain ⟨hstage, hlife, hqueue⟩ := hview
  obtain ⟨t₀, ht₀, hview₀⟩ := Option.map_eq_some_iff.1 hfailed
  simp only [Prod.mk.injEq, Option.isNone_iff_eq_none] at hview₀
  obtain ⟨hstage₀, hlife₀⟩ := hview₀
  have hgranted : Granted (failedOpening ++ boundAndClosed) 0 "amq.gen-1" := by
    obtain ⟨u, hu, hview⟩ := Option.map_eq_some_iff.1 hbegun
    simp only [Prod.mk.injEq, Option.isNone_iff_eq_none] at hview
    obtain ⟨hstage, hheld, hchannel⟩ := hview
    refine ⟨beginning, u, ⟨_, (List.append_assoc _ _ _).symm⟩, hu, ?_, hheld, ?_⟩
    · obtain ⟨stage, hs, hahead⟩ := Option.map_eq_some_iff.1 hstage
      rw [hs]
      cases stage <;> first | rfl | cases hahead
    · rw [Tenant.request, hchannel]
      exact hname
  obtain ⟨hnames, -, hgone, hwithout⟩ := System.run_cleanup hnone ht
  obtain ⟨-, houtline⟩ := hwithout _ _ t₀ rfl ht₀ hstage₀ hlife₀ (by rw [hothers]; decide)
  rw [hothers] at houtline
  refine ⟨(hnames _ hgranted).resolve_right ?_, (hgone _ hlife).1, houtline hstage ?_⟩
  · rw [hqueue]
    decide
  · rw [Client.isOpen, hlife]

end Tenancy

end BrokeredRpc
