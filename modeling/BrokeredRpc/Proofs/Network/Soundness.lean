import BrokeredRpc.Proofs.Broker.Streams
import BrokeredRpc.Proofs.Client.Frames
import BrokeredRpc.Proofs.Network.Histories

/-!
# What holds in every reachable system

Every consumer stands behind a subscription that was made, and an open client
listens on its own (`Peopled`); the operation under way on a client has found it
in the state that it takes it for (`Staged`). Both hang on what the broker has
been asked so far, so they are kept together with `Traced`, in `Sound`.

* `Sound.step`, `System.Reachable.sound`: every step keeps this, so every
  reachable system has it;
* `System.Reachable.runClient`: an operation of a client that is carried out at a
  stretch is a history too.
-/
namespace BrokeredRpc.Network

open Broker (Subscribed)

/-! ## Clients and consumers -/

/-- How a client hangs on the broker's history: an open one has made its subscription and
listens on it, and its registry is sealed only by the end of that. -/
structure Attached (asked : List Broker.Operation) (consumers : Table Consumer) (index : Nat)
    (e : Endpoint) : Prop where
  faultless : e.faults = {}
  issued : (Broker.run {} asked).1.Issued e.channel
  subscribed : ∀ queue tag, e.client.lifecycle = .opened queue tag →
    Subscribed asked tag ⟨e.channel, queue⟩ ∧
      consumers.get? tag = some { channel := e.channel, role := .replies index }
  told : e.client.replies.registry.sealedBy ≠ none →
    (∃ queue, e.client.lifecycle = .closed queue) ∨
      ∃ queue tag event, e.client.lifecycle = .opened queue tag ∧ event.isTerminal = true ∧
        ⟨tag, event⟩ ∈ (Broker.run {} asked).2
  numbered : e.client.Numbered

/-- The client listens on this subscription, or has done so until it was closed. -/
def ListensOn (c : Client) (tag : String) : Prop :=
  ∃ queue, c.lifecycle = .opened queue tag ∨ c.lifecycle = .closed queue

structure Peopled (asked : List Broker.Operation) (n : Network) : Prop where
  manned : ∀ tag k, n.consumers.get? tag = some k →
    ∃ queue, Subscribed asked tag ⟨k.channel, queue⟩
  listening : ∀ tag channel index,
    n.consumers.get? tag = some { channel, role := .replies index } →
    ∃ e, n.endpoints[index]? = some e ∧ ListensOn e.client tag
  attached : ∀ index e, n.endpoints[index]? = some e → Attached asked n.consumers index e

section

variable {asked : List Broker.Operation} {n n' : Network} {index : Nat} {e : Endpoint}

theorem Attached.append (h : Attached asked n.consumers index e) (more : List Broker.Operation) :
    Attached (asked ++ more) n.consumers index e := by
  refine ⟨h.faultless, ?_, fun queue tag hl => ?_, fun hs => (h.told hs).imp_right ?_, h.numbered⟩
  · rw [Broker.run_append]
    exact Broker.issued_run more h.issued
  · exact (h.subscribed queue tag hl).imp_left fun hs => hs.append more
  · rintro ⟨queue, tag, event, hl, ht, hm⟩
    refine ⟨queue, tag, event, hl, ht, ?_⟩
    rw [Broker.run_append]
    exact List.mem_append_left _ hm

namespace Peopled

theorem append (h : Peopled asked n) (more : List Broker.Operation)
    (hc : n'.consumers = n.consumers) (he : n'.endpoints = n.endpoints) :
    Peopled (asked ++ more) n' := by
  refine ⟨fun tag k hk => ?_, fun tag channel index hk => ?_, fun index e hi => ?_⟩
  · rw [hc] at hk
    obtain ⟨queue, hs⟩ := h.manned tag k hk
    exact ⟨queue, hs.append more⟩
  · rw [hc] at hk
    rw [he]
    exact h.listening tag channel index hk
  · rw [he] at hi
    rw [hc]
    exact (h.attached index e hi).append more

theorem setClient (h : Peopled asked n) (he : n.endpoints[index]? = some e) {client : Client}
    (ha : Attached asked n.consumers index { e with client })
    (hl : ∀ tag, ListensOn e.client tag → ListensOn client tag) :
    Peopled asked (n.setClient index client) := by
  refine ⟨h.manned, fun tag channel i hk => ?_, fun i e' hi => ?_⟩
  · obtain ⟨e', he', hlisten⟩ := h.listening tag channel i hk
    rw [getElem?_setClient]
    split
    · next hidx =>
      subst hidx
      rw [he] at he'; cases he'
      exact ⟨{ e with client }, by rw [he]; rfl, hl tag hlisten⟩
    · exact ⟨e', he', hlisten⟩
  · rw [getElem?_setClient] at hi
    split at hi
    · next hidx =>
      subst hidx
      rw [he] at hi; cases hi
      exact ha
    · exact h.attached i e' hi

/-- A client changes in its ids and replies only, and its registry is not sealed. -/
theorem setReplies (h : Peopled asked n) (he : n.endpoints[index]? = some e) {client : Client}
    (hl : client.lifecycle = e.client.lifecycle)
    (hs : client.replies.registry.sealedBy = e.client.replies.registry.sealedBy)
    (hn : client.Numbered) : Peopled asked (n.setClient index client) := by
  have ha := h.attached index e he
  refine h.setClient he ⟨ha.faultless, ha.issued, ?_, ?_, hn⟩ fun tag => ?_
  · show ∀ queue tag, client.lifecycle = _ → _
    rw [hl]; exact ha.subscribed
  · show client.replies.registry.sealedBy ≠ none →
      (∃ queue, client.lifecycle = _) ∨ ∃ queue tag event, client.lifecycle = _ ∧ _
    rw [hl, hs]; exact ha.told
  · rw [ListensOn, ListensOn, hl]; exact fun h => h

theorem insertConsumer (h : Peopled asked n) {tag : String} {channel : Nat} {role : Role}
    (hr : role.isReplies = false) (hs : ∃ queue, Subscribed asked tag ⟨channel, queue⟩)
    (hnot : ∀ c i, n.consumers.get? tag ≠ some { channel := c, role := .replies i }) :
    Peopled asked { n with consumers := n.consumers.insert tag { channel, role } } := by
  refine ⟨fun t k hk => ?_, fun t c i hk => ?_, fun i e hi => ?_⟩
  · simp only [Table.get?_insert] at hk
    split at hk
    · next he => cases hk; exact he ▸ hs
    · exact h.manned t k hk
  · simp only [Table.get?_insert] at hk
    split at hk
    · cases hk; cases hr
    · exact h.listening t c i hk
  · have ha := h.attached i e hi
    refine ⟨ha.faultless, ha.issued, fun queue t hl => ?_, ha.told, ha.numbered⟩
    obtain ⟨hsub, hk⟩ := ha.subscribed queue t hl
    have hne : tag ≠ t := by
      rintro rfl
      exact hnot _ _ hk
    exact ⟨hsub, (Table.get?_insert _ _ _ _).trans ((if_neg hne).trans hk)⟩

/-- A client opens: it listens on a subscription of its own. -/
theorem openClient (h : Peopled asked n) (he : n.endpoints[index]? = some e)
    (hl : e.client.lifecycle = .unopened) {queue tag : String}
    (hs : Subscribed asked tag ⟨e.channel, queue⟩) (hnew : n.consumers.get? tag = none) :
    Peopled asked
      ({ n with
          consumers := n.consumers.insert tag { channel := e.channel, role := .replies index }
        }.setClient index { e.client with lifecycle := .opened queue tag }) := by
  have ha := h.attached index e he
  have hunsealed : e.client.replies.registry.sealedBy = none := by
    cases hsealed : e.client.replies.registry.sealedBy with
    | none => rfl
    | some cause =>
      rcases ha.told (by rw [hsealed]; exact nofun) with ⟨q, hq⟩ | ⟨q, t, ev, hq, -⟩
      · rw [hl] at hq; cases hq
      · rw [hl] at hq; cases hq
  have hkept : ∀ t k, n.consumers.get? t = some k →
      (n.consumers.insert tag { channel := e.channel, role := .replies index }).get? t =
        some k := by
    intro t k hk
    rw [Table.get?_insert, if_neg, hk]
    rintro rfl
    rw [hnew] at hk; cases hk
  refine ⟨fun t k hk => ?_, fun t c i hk => ?_, fun i e' hi => ?_⟩
  · replace hk : (n.consumers.insert tag _).get? t = some k := hk
    rw [Table.get?_insert] at hk
    split at hk
    · next he => cases hk; exact ⟨queue, he ▸ hs⟩
    · exact h.manned t k hk
  · replace hk : (n.consumers.insert tag _).get? t = some _ := hk
    rw [Table.get?_insert] at hk
    rw [getElem?_setClient]
    split at hk
    · next ht =>
      cases hk
      rw [if_pos rfl]
      refine ⟨{ e with client := { e.client with lifecycle := .opened queue tag } }, ?_, queue, ?_⟩
      · exact (congrArg (Option.map _) he).trans rfl
      · exact Or.inl (congrArg (Lifecycle.opened queue) ht)
    · -- Another client's subscription: this client has not listened on any.
      obtain ⟨e', he', hlisten⟩ := h.listening t c i hk
      have hne : index ≠ i := by
        rintro rfl
        rw [he] at he'; cases he'
        obtain ⟨q, hq | hq⟩ := hlisten <;> rw [hl] at hq <;> cases hq
      exact ⟨e', by rw [if_neg hne]; exact he', hlisten⟩
  · rw [getElem?_setClient] at hi
    split at hi
    · next hidx =>
      subst hidx
      rw [show n.endpoints[index]? = some e from he] at hi; cases hi
      refine ⟨ha.faultless, ha.issued, fun q t ho => ?_, fun hsealed => ?_,
        ⟨ha.numbered.pending, ha.numbered.filled⟩⟩
      · cases ho
        exact ⟨hs, Table.get?_insert_self _ _ _⟩
      · exact absurd hunsealed hsealed
    · have ha' := h.attached i e' hi
      exact ⟨ha'.faultless, ha'.issued,
        fun q t ho => (ha'.subscribed q t ho).imp_right (hkept t _), ha'.told, ha'.numbered⟩

theorem closeClient (h : Peopled asked n) (he : n.endpoints[index]? = some e) (queue : String) :
    Peopled asked (n.setClient index { e.client with lifecycle := .closed queue }) := by
  have ha := h.attached index e he
  refine h.setClient he ⟨ha.faultless, ha.issued, fun q t ho => ?_, fun _ => ?_,
    ⟨ha.numbered.pending, ha.numbered.filled⟩⟩ fun tag _ => ⟨queue, Or.inr rfl⟩
  · cases ho
  · exact Or.inl ⟨queue, rfl⟩

theorem push (h : Peopled asked n) {channel : Nat} (timeout : Timeout)
    (hi : (Broker.run {} asked).1.Issued channel) :
    Peopled asked
      { n with endpoints := n.endpoints.push { client := { timeout }, channel } } := by
  refine ⟨h.manned, fun tag c i hk => ?_, fun i e he => ?_⟩
  · obtain ⟨e, he, hl⟩ := h.listening tag c i hk
    have hne : i ≠ n.endpoints.size := by
      rintro rfl
      rw [Array.getElem?_size] at he; cases he
    exact ⟨e, by rw [Array.getElem?_push, if_neg hne]; exact he, hl⟩
  · rw [Array.getElem?_push] at he
    split at he
    · cases he
      exact ⟨rfl, hi, fun _ _ ho => (nomatch ho), fun hs => absurd rfl hs, .fresh timeout⟩
    · exact h.attached i e he

end Peopled

end

/-! ## Operations under way -/

/-- The client is as an operation at this stage takes it to be. -/
def Fits (c : Client) : Client.Stage → Prop
  | .declaring | .subscribing _ | .discarding .. => c.lifecycle = .unopened
  | .cancelling queue tag => c.lifecycle = .opened queue tag
  | .publishing .. => True

theorem Fits.congr {c c' : Client} (hl : c'.lifecycle = c.lifecycle) {stage : Client.Stage}
    (h : Fits c stage) : Fits c' stage := by
  cases stage with
  | publishing => trivial
  | _ => exact hl.trans h

theorem fits_start {c : Client} {op : Client.Operation} {stage : Client.Stage}
    (h : (c.start op).2.stage? = some stage) : Fits c stage := by
  cases op with
  | opening =>
    simp only [Client.start, Client.startOpen] at h
    split at h
    · next hl => cases h; exact hl
    · cases h
    · cases h
  | closing =>
    simp only [Client.start, Client.startClose] at h
    split at h
    · next hl => cases h; exact hl
    · cases h
    · cases h
  | calling m =>
    simp only [Client.start, Client.startCall] at h
    split at h
    · cases h
    · cases h
    · split at h
      · cases h
      · cases h; trivial

theorem fits_resume {c : Client} {stage next : Client.Stage}
    {answer : Except TransportError stage.Grant} (hf : Fits c stage)
    (h : (c.resume stage answer).2.stage? = some next) : Fits (c.resume stage answer).1 next := by
  cases stage <;> rcases answer with e | v
  case declaring.ok => cases h; exact hf
  case subscribing.error => cases h; exact hf
  case cancelling.error => cases e <;> cases h
  case publishing.error => cases e <;> cases h
  all_goals cases h

theorem resume_cases (c : Client) (stage : Client.Stage)
    (answer : Except TransportError stage.Grant) :
    (c.resume stage answer).1.lifecycle = c.lifecycle ∨
      (∃ queue tag, stage = .cancelling queue tag ∧
        (c.resume stage answer).1 = { c with lifecycle := .closed queue }) ∨
      ∃ queue, stage = .subscribing queue := by
  cases stage <;> rcases answer with e | v
  case subscribing.error => exact Or.inl rfl
  case subscribing.ok queue => exact Or.inr (Or.inr ⟨queue, rfl⟩)
  case cancelling.ok queue tag => exact Or.inr (Or.inl ⟨queue, tag, rfl, rfl⟩)
  case cancelling.error queue tag =>
    cases e with
    | channelClosed => exact Or.inr (Or.inl ⟨queue, tag, rfl, rfl⟩)
    | _ => exact Or.inl rfl
  case publishing.error => cases e <;> exact Or.inl rfl
  all_goals exact Or.inl rfl

/-- Each operation under way is a client's, and fits it. -/
def Staged (stage? : Nat → Option Client.Stage) (n : Network) : Prop :=
  ∀ index stage, stage? index = some stage →
    ∃ e, n.endpoints[index]? = some e ∧ Fits e.client stage

/-- One client changes, and with it possibly its operation. -/
theorem Staged.setClient {stage? stage?' : Nat → Option Client.Stage} {n : Network} {index : Nat}
    {e : Endpoint} (h : Staged stage? n) (he : n.endpoints[index]? = some e) {client : Client}
    (hother : ∀ i, i ≠ index → stage?' i = stage? i)
    (hf : ∀ stage, stage?' index = some stage → Fits client stage) :
    Staged stage?' (n.setClient index client) := by
  intro i stage hi
  rw [getElem?_setClient]
  split
  · next hidx =>
    subst hidx
    exact ⟨{ e with client }, by rw [he]; rfl, hf stage hi⟩
  · next hidx => exact h i stage (hother i (Ne.symm hidx) ▸ hi)

/-! ## Steps -/

structure Sound (s : System) : Prop where
  traced : Traced s.asked s.network
  peopled : Peopled s.asked s.network
  staged : Staged s.stage? s.network

namespace Sound

variable {s : System}

theorem init : Sound {} where
  traced := ⟨trivial, rfl, fun _ h => absurd h List.not_mem_nil⟩
  peopled := ⟨fun _ _ h => (nomatch h), fun _ _ _ h => (nomatch h), fun _ _ h => (nomatch h)⟩
  staged _ _ h := nomatch h

theorem absorb (h : Sound s) {op : Broker.Operation}
    (hi : ∀ c ∈ op.channel?, s.network.broker.Issued c) :
    Sound { s with network := (s.network.operate op).2, asked := s.asked ++ [op] } where
  traced := h.traced.operate hi rfl rfl
  peopled := h.peopled.append [op] rfl rfl
  staged := h.staged

theorem operate (h : Sound s) (op : Broker.Operation) : Sound (s.operate op) := by
  unfold System.operate
  split
  · next hi => exact h.absorb hi
  · exact h

/-- A subscription that is granted is new: nobody is behind it yet. -/
theorem consumer_of_answer (h : Sound s) {channel : Nat} {queue tag : String}
    (ha : (s.network.broker.perform (.consume channel queue)).answer = .ok (.name tag)) :
    Subscribed (s.asked ++ [.consume channel queue]) tag ⟨channel, queue⟩ ∧
      s.network.consumers.get? tag = none := by
  rw [h.traced.broker] at ha
  refine ⟨Broker.happened_concat.2 (Or.inr ⟨rfl, ha⟩), ?_⟩
  cases hk : s.network.consumers.get? tag with
  | none => rfl
  | some k =>
    obtain ⟨queue', hs⟩ := h.peopled.manned tag k hk
    exact absurd hs (Broker.not_subscribed_of_answer h.traced.issued ha _)

theorem subscribe (h : Sound s) (channel : Nat) (queue : String) (role : Role) :
    Sound (s.subscribe channel queue role) := by
  unfold System.subscribe
  split
  · next hguard =>
    have hissued : ∀ c ∈ (Broker.Operation.consume channel queue).channel?,
        s.network.broker.Issued c := fun c hc => by cases hc; exact hguard.1
    have hasked := h.absorb hissued
    rcases subscribe_cases s.network channel queue role with ⟨tag, ha, he⟩ | ⟨refusal, he⟩
    · obtain ⟨hs, hnew⟩ := h.consumer_of_answer ha
      rw [he]
      refine ⟨hasked.traced.of_same rfl fun _ hd => hd, ?_, hasked.staged⟩
      refine hasked.peopled.insertConsumer hguard.2 ⟨queue, hs⟩ fun c i hk => ?_
      rw [show s.network.consumers.get? tag = some _ from hk] at hnew
      cases hnew
    · rw [he]; exact hasked
  · exact h

theorem connect (h : Sound s) (timeout : Timeout) (channel : Nat) :
    Sound (s.connect timeout channel) := by
  unfold System.connect
  split
  · next hi =>
    rw [h.traced.broker] at hi
    refine ⟨h.traced.of_same rfl fun _ hd => hd, h.peopled.push timeout hi, fun i stage hs => ?_⟩
    obtain ⟨e, he, hf⟩ := h.staged i stage hs
    refine ⟨e, ?_, hf⟩
    obtain ⟨hlt, -⟩ := Array.getElem?_eq_some_iff.1 he
    exact (Array.getElem?_push.trans (if_neg (Nat.ne_of_lt hlt))).trans he
  · exact h

theorem start (h : Sound s) (index : Nat) (op : Client.Operation) : Sound (s.start index op) := by
  unfold System.start
  split
  · next e hfree he =>
    have hnumbered := (h.peopled.attached index e he).numbered.start op
    refine ⟨h.traced.of_same rfl fun _ hd => hd, ?_, ?_⟩
    · exact h.peopled.setReplies he (Client.lifecycle_start _ op) (Client.sealedBy_start _ op)
        hnumbered
    · refine h.staged.setClient he (fun i hi => if_neg hi) fun stage hs => ?_
      have hstage := (if_pos rfl).symm.trans hs
      exact (fits_start hstage).congr (Client.lifecycle_start _ op)
  · exact h

theorem answered (h : Sound s) {index : Nat} {e : Endpoint} {stage : Client.Stage}
    (hs : s.stage? index = some stage) (he : s.network.endpoints[index]? = some e)
    (hnot : ∀ queue, stage ≠ .subscribing queue) (answer : Except TransportError stage.Grant) :
    Sound ({ s with
        network := (s.network.operate (e.request stage)).2.setClient index
          (e.client.resume stage answer).1
        asked := s.asked ++ [e.request stage] }.setStage index
      (e.client.resume stage answer).2) := by
  have ha := h.peopled.attached index e he
  obtain ⟨e', he', hfits⟩ := h.staged index stage hs
  obtain rfl : e = e' := Option.some.inj (he.symm.trans he')
  have hissued : ∀ c ∈ (e.request stage).channel?, s.network.broker.Issued c := by
    intro c hc
    have hch : c = e.channel := by cases stage <;> cases hc <;> rfl
    rw [hch, h.traced.broker]
    exact ha.issued
  have hasked := h.absorb hissued
  refine ⟨hasked.traced.of_same rfl fun _ hd => hd, ?_, ?_⟩
  · rcases resume_cases e.client stage answer with hl | ⟨queue, tag, rfl, hc⟩ | ⟨queue, rfl⟩
    · exact hasked.peopled.setReplies he hl (Client.sealedBy_resume _ stage answer)
        (ha.numbered.resume stage answer)
    · rw [hc]
      exact hasked.peopled.closeClient he queue
    · exact absurd rfl (hnot queue)
  · refine hasked.staged.setClient he (fun i hi => if_neg hi) fun next hn => ?_
    have hnext := (if_pos rfl).symm.trans hn
    exact fits_resume hfits hnext

/-- A client that opens gets the subscription it has asked for, or not. -/
theorem subscribing (h : Sound s) {index : Nat} {e : Endpoint} {queue : String}
    (hs : s.stage? index = some (.subscribing queue))
    (he : s.network.endpoints[index]? = some e) :
    Sound ({ s with
        network := (s.network.exchange index e (.subscribing queue)).2
        asked := s.asked ++ [Broker.Operation.consume e.channel queue] }.setStage index
      (s.network.exchange index e (.subscribing queue)).1) := by
  have ha := h.peopled.attached index e he
  obtain ⟨e', he', hfits⟩ := h.staged index _ hs
  obtain rfl : e = e' := Option.some.inj (he.symm.trans he')
  have hissued : ∀ c ∈ (Broker.Operation.consume e.channel queue).channel?,
      s.network.broker.Issued c := fun c hc => by
    cases hc
    rw [h.traced.broker]
    exact ha.issued
  have hasked := h.absorb hissued
  rw [exchange_eq, ask_subscribing _ _ ha.faultless]
  rcases subscribe_cases s.network e.channel queue (.replies index)
    with ⟨tag, hanswer, heq⟩ | ⟨refusal, heq⟩
  · obtain ⟨hmade, hnew⟩ := h.consumer_of_answer hanswer
    rw [heq]
    refine ⟨hasked.traced.of_same rfl fun _ hd => hd, ?_, ?_⟩
    · exact hasked.peopled.openClient he hfits hmade hnew
    · refine hasked.staged.setClient he (fun i hi => if_neg hi) fun next hn => ?_
      cases (if_pos rfl).symm.trans hn
  · rw [heq]
    refine ⟨hasked.traced.of_same rfl fun _ hd => hd, ?_, ?_⟩
    · exact hasked.peopled.setReplies he rfl rfl ha.numbered
    · refine hasked.staged.setClient he (fun i hi => if_neg hi) fun next hn => ?_
      cases (if_pos rfl).symm.trans hn
      exact hfits

theorem exchange (h : Sound s) (index : Nat) : Sound (s.exchange index) := by
  unfold System.exchange
  split
  · next stage e hs he =>
    by_cases hsub : ∃ queue, stage = .subscribing queue
    · obtain ⟨queue, rfl⟩ := hsub
      exact h.subscribing hs he
    · have hnot : ∀ queue, stage ≠ .subscribing queue := fun queue hq => hsub ⟨queue, hq⟩
      have hf := (h.peopled.attached index e he).faultless
      rw [exchange_eq, ask_snd s.network index hf hnot]
      exact h.answered hs he hnot _
  · exact h

theorem received (h : Sound s) {tag : String} {event : Event} {index : Nat} {e : Endpoint}
    (hsent : ⟨tag, event⟩ ∈ (Broker.run {} s.asked).2)
    (hl : ListensOn e.client tag) (he : s.network.endpoints[index]? = some e) :
    Sound { s with network := s.network.setClient index (e.client.receive tag event) } := by
  have ha := h.peopled.attached index e he
  refine ⟨h.traced.of_same rfl fun _ hd => hd, h.peopled.setClient he ?_ fun _ hl => hl, ?_⟩
  · have hn := ha.numbered.receive tag event
    refine ⟨ha.faultless, ha.issued, ha.subscribed, fun hsealed => ?_, hn⟩
    cases ht : event.isTerminal with
    | false => exact ha.told (Client.sealedBy_receive ht ▸ hsealed)
    | true =>
      obtain ⟨queue, ho | hc⟩ := hl
      · exact Or.inr ⟨queue, tag, event, ho, ht, hsent⟩
      · exact Or.inl ⟨queue, hc⟩
  · refine h.staged.setClient he (fun _ _ => rfl) fun stage hs => ?_
    obtain ⟨e', he', hf⟩ := h.staged index stage hs
    obtain rfl : e = e' := Option.some.inj (he.symm.trans he')
    exact hf.congr rfl

theorem handled (h : Sound s) {tag : String} {event : Event}
    (hsent : ⟨tag, event⟩ ∈ (Broker.run {} s.asked).2) :
    Sound { s with
      network := s.network.handle tag event
      asked := s.asked ++ s.network.answersTo tag event } := by
  cases hk : s.network.consumers.get? tag with
  | none =>
    obtain ⟨hn, ha⟩ := handle_of_none hk event
    rw [hn, ha, List.append_nil]
    exact h
  | some k =>
    obtain ⟨channel, role⟩ := k
    cases hr : role.isReplies with
    | true =>
      obtain ⟨index, rfl⟩ : ∃ index, role = .replies index := by
        cases role <;> cases hr
        exact ⟨_, rfl⟩
      obtain ⟨e, he, hl⟩ := h.peopled.listening tag channel index hk
      obtain ⟨hn, ha⟩ := handle_of_client hk he event
      rw [hn, ha, List.append_nil]
      exact h.received hsent hl he
    | false =>
      obtain ⟨hn, ha⟩ := handle_of_role hk hr event
      obtain ⟨queue, hs⟩ := h.peopled.manned tag _ hk
      have hissued : s.network.broker.Issued channel := by
        rw [h.traced.broker]
        exact hs.issued h.traced.issued
      rw [hn, ha, publishAll_eq_run]
      refine ⟨h.traced.run (onIssued_publish _ hissued) rfl rfl, ?_, h.staged⟩
      have hchanged := h.peopled.insertConsumer (Role.isReplies_receive hr event) ⟨queue, hs⟩
        fun c i hk' => by rw [hk] at hk'; cases hk'; cases hr
      exact hchanged.append _ rfl rfl

theorem handle (h : Sound s) (tag : String) : Sound (s.handle tag) := by
  cases hnext : nextFor? tag s.network.transit with
  | none =>
    have hquiet : s.handle tag = s := by
      simp only [System.handle, handleNext, published, hnext, List.append_nil]
    rw [hquiet]
    exact h
  | some next =>
    obtain ⟨event, others⟩ := next
    obtain ⟨hm, hothers⟩ := mem_of_nextFor? hnext
    -- The event is taken; what is left in transit is less.
    have htaken : Sound { s with network := { s.network with transit := others } } :=
      ⟨h.traced.of_same rfl hothers,
        ⟨h.peopled.manned, h.peopled.listening, h.peopled.attached⟩, h.staged⟩
    have hone := htaken.handled (h.traced.sent _ hm)
    simp only [System.handle, handleNext, published, hnext]
    exact hone

theorem look (h : Sound s) (index : Nat) (id : String) (since now : Nat) :
    Sound (s.look index id since now) := by
  unfold System.look
  split
  · next e he =>
    have hl : (e.client.look id since now).2.lifecycle = e.client.lifecycle := by
      rcases Client.look_snd e.client id since now with hc | hc <;> rw [hc]
      rfl
    have hseal : (e.client.look id since now).2.replies.registry.sealedBy =
        e.client.replies.registry.sealedBy := by
      rcases Client.look_snd e.client id since now with hc | hc <;> rw [hc]
      rfl
    have hnumbered := (h.peopled.attached index e he).numbered.look id since now
    refine ⟨h.traced.of_same rfl fun _ hd => hd, h.peopled.setReplies he hl hseal hnumbered, ?_⟩
    refine h.staged.setClient he (fun _ _ => rfl) fun stage hs => ?_
    obtain ⟨e', he', hf⟩ := h.staged index stage hs
    obtain rfl : e = e' := Option.some.inj (he.symm.trans he')
    exact hf.congr hl
  · exact h

theorem step (h : Sound s) (label : Label) : Sound (s.step label) := by
  cases label with
  | operate op => exact h.operate op
  | subscribe channel queue role => exact h.subscribe channel queue role
  | connect timeout channel => exact h.connect timeout channel
  | start index op => exact h.start index op
  | exchange index => exact h.exchange index
  | handle tag => exact h.handle tag
  | look index id since now => exact h.look index id since now

theorem run (labels : List Label) : ∀ {s : System}, Sound s → Sound (s.run labels) := by
  induction labels with
  | nil => exact fun h => h
  | cons label rest ih => exact fun h => ih (h.step label)

end Sound

theorem System.Reachable.sound {s : System} (h : s.Reachable) : Sound s := by
  obtain ⟨labels, rfl⟩ := h
  exact Sound.init.run labels

/-! ## Whole operations -/

theorem System.Reachable.step {s : System} (h : s.Reachable) (label : Label) :
    (s.step label).Reachable := by
  obtain ⟨labels, rfl⟩ := h
  refine ⟨labels ++ [label], ?_⟩
  rw [run, run, List.foldl_append]
  rfl

theorem System.Reachable.run (labels : List Label) : ∀ {s : System}, s.Reachable →
    (s.run labels).Reachable := by
  induction labels with
  | nil => exact fun h => h
  | cons label rest ih => exact fun h => ih (h.step label)

/-- The system once an operation that was under way has ended. -/
structure Ended (s s' : System) (index : Nat) (n : Network) : Prop where
  reachable : s'.Reachable
  network : s'.network = n
  free : s'.stage? index = none
  others : ∀ i, i ≠ index → s'.stage? i = s.stage? i

theorem System.Reachable.advance {index : Nat} {stage : Client.Stage} {s : System}
    (h : s.Reachable) (hs : s.stage? index = some stage) :
    ∃ s', Ended s s' index (s.network.advance index stage).2 := by
  -- An operation has a bounded number of requests ahead of it.
  induction hk : stage.ahead using Nat.strongRecOn generalizing s stage with
  | _ k ih =>
    obtain ⟨e, he, -⟩ := h.sound.staged index stage hs
    have hother : ∀ i, i ≠ index → (s.exchange index).stage? i = s.stage? i := by
      intro i hi
      simp only [System.exchange, hs, he]
      exact if_neg hi
    have hnetwork : (s.exchange index).network = (s.network.exchange index e stage).2 := by
      simp only [System.exchange, hs, he]
      rfl
    have hstage : (s.exchange index).stage? index =
        (s.network.exchange index e stage).1.stage? := by
      simp only [System.exchange, hs, he]
      exact if_pos rfl
    have hnext := h.step (.exchange index)
    cases hx : s.network.exchange index e stage with
    | mk progress n =>
      rw [hx] at hnetwork hstage
      rcases conclusion_cases progress with ⟨next, rfl⟩ | ⟨c, hc, hnone⟩
      · have hlt := hk ▸ ahead_exchange_lt (congrArg Prod.fst hx)
        obtain ⟨s', hended⟩ := ih next.ahead hlt hnext hstage rfl
        rw [advance_of_asking he hx]
        refine ⟨s', hended.reachable, ?_, hended.free, fun i hi => ?_⟩
        · rw [hended.network]
          exact congrArg (fun n : Network => (n.advance index next).2) hnetwork
        · exact (hended.others i hi).trans (hother i hi)
      · rw [advance_of_conclusion he hx hc]
        exact ⟨s.exchange index, hnext, hnetwork, hstage.trans hnone, hother⟩

/-- An operation carried out at a stretch leads to a reachable system. -/
theorem System.Reachable.runClient {s : System} (h : s.Reachable) {index : Nat}
    (hfree : s.stage? index = none) (op : Client.Operation) :
    ∃ s', Ended s s' index (s.network.runClient index op).2 := by
  cases he : s.network.endpoints[index]? with
  | none =>
    simp only [Network.runClient, he]
    exact ⟨s, h, rfl, hfree, fun _ _ => rfl⟩
  | some e =>
    have hnext := h.step (.start index op)
    cases hstart : e.client.start op with
    | mk client progress =>
      have hsystem : s.start index op =
          { s with network := s.network.setClient index client }.setStage index progress := by
        simp only [System.start, hfree, he, hstart]
      have hother : ∀ i, i ≠ index → (s.start index op).stage? i = s.stage? i := by
        intro i hi
        rw [hsystem]
        exact if_neg hi
      have hstage : (s.start index op).stage? index = progress.stage? := by
        rw [hsystem]
        exact if_pos rfl
      have hnetwork : (s.start index op).network = s.network.setClient index client := by
        rw [hsystem]
        rfl
      rcases conclusion_cases progress with ⟨stage, rfl⟩ | ⟨c, hc, hnone⟩
      · obtain ⟨s', hended⟩ := System.Reachable.advance hnext hstage
        rw [runClient_of_asking he hstart]
        refine ⟨s', hended.reachable, ?_, hended.free, fun i hi => ?_⟩
        · rw [hended.network]
          exact congrArg (fun n : Network => (n.advance index stage).2) hnetwork
        · exact (hended.others i hi).trans (hother i hi)
      · rw [runClient_of_conclusion he hstart hc]
        exact ⟨s.start index op, hnext, hnetwork, hstage.trans hnone, hother⟩

end BrokeredRpc.Network
