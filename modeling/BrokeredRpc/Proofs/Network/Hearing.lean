import BrokeredRpc.Proofs.Network.Handovers

/-!
# Clients hear of the end of their subscriptions

The broker ends a subscription once, with a last event. Until that is handled it is in
transit, and then the client is silent for good: its registry is sealed and no call of it is
registered (`Silent`). So every step keeps that a client whose subscription has ended is
silent or is going to be (`Heard`).

* `System.Reachable.listened`: what comes to the reply queue of a call that waits is sent to its
  client, or the event that ends the subscription is on its way there.
-/
namespace BrokeredRpc

namespace Client

variable {c : Client}

/-- No call is registered, and none will be. -/
structure Silent (c : Client) : Prop where
  sealed : c.replies.registry.sealedBy ≠ none
  absent : ∀ id, c.replies.registry.pending.get? id = none

namespace Silent

theorem withdraw (h : c.Silent) (id : String) : (c.withdraw id).Silent := by
  refine ⟨h.sealed, fun other => ?_⟩
  rw [Client.withdraw, Replies.get?_pending_take, h.absent, ite_self]

theorem start (h : c.Silent) (op : Operation) : (c.start op).1.Silent := by
  rcases start_fst c op with he | he <;> rw [he]
  · exact h
  · obtain ⟨cause, hc⟩ := Option.ne_none_iff_exists'.1 h.sealed
    have hsame := (Replies.register_of_sealed hc (idOf (c.lastId + 1)) (idOf (c.lastId + 1))).2
    rw [enrolled]
    exact ⟨by rw [hsame]; exact h.sealed, by rw [hsame]; exact h.absent⟩

theorem resume (h : c.Silent) (stage : Stage) (answer : Except TransportError stage.Grant) :
    (c.resume stage answer).1.Silent := by
  unfold Client.resume
  split <;> first
    | exact h.withdraw _
    | exact ⟨h.sealed, h.absent⟩

theorem look (h : c.Silent) (id : String) (since now : Nat) : (c.look id since now).2.Silent := by
  rcases look_snd c id since now with he | he <;> rw [he]
  · exact h
  · exact h.withdraw id

theorem of_terminal (c : Client) (tag : String) {event : Event} (ht : event.isTerminal = true) :
    (c.receive tag event).Silent := by
  have hsilent : ∀ cause, Silent { c with replies := c.replies.endWith cause } := by
    intro cause
    refine ⟨?_, fun id => ?_⟩
    · rw [Replies.registry_endWith]
      exact Option.some_ne_none _
    · rw [Replies.registry_endWith]
      rfl
  cases event with
  | delivery => cases ht
  | shutdown cause => exact hsilent cause
  | cancelled => exact hsilent _

theorem receive (h : c.Silent) (tag : String) (event : Event) : (c.receive tag event).Silent := by
  cases ht : event.isTerminal with
  | true => exact of_terminal c tag ht
  | false =>
    refine ⟨?_, fun id => receive_of_absent (h.absent id)⟩
    rw [sealedBy_receive ht]
    exact h.sealed

end Silent

end Client

namespace Network

variable {asked : List Broker.Operation} {n n' : Network} {s : System}

/-- The last event of a subscription that a client listens on is in transit, or the client is
silent. -/
def Heard (asked : List Broker.Operation) (n : Network) : Prop :=
  ∀ tag channel index e event,
    n.consumers.get? tag = some { channel, role := .replies index } →
    n.endpoints[index]? = some e → event.isTerminal = true →
    ⟨tag, event⟩ ∈ (Broker.run {} asked).2 → ⟨tag, event⟩ ∈ n.transit ∨ e.client.Silent

namespace Heard

theorem run (h : Heard asked n) (hb : n.broker = (Broker.run {} asked).1)
    {ops : List Broker.Operation}
    (hk : ∀ tag channel index, n'.consumers.get? tag = some { channel, role := .replies index } →
      n.consumers.get? tag = some { channel, role := .replies index })
    (he : n'.endpoints = n.endpoints) (ht : n'.transit = n.transit ++ (n.broker.run ops).2) :
    Heard (asked ++ ops) n' := by
  intro tag channel index e event hk' he' hlast hsent
  rw [Broker.run_append, ← hb] at hsent
  rw [ht]
  rcases List.mem_append.1 hsent with hold | hnew
  · exact (h tag channel index e event (hk tag channel index hk') (he ▸ he') hlast hold).imp_left
      (List.mem_append_left _)
  · exact Or.inl (List.mem_append_right _ hnew)

theorem operate (h : Heard asked n) (hb : n.broker = (Broker.run {} asked).1)
    (op : Broker.Operation) : Heard (asked ++ [op]) (n.operate op).2 :=
  h.run hb (fun _ _ _ hk => hk) rfl (congrArg (n.transit ++ ·) (List.append_nil _).symm)

theorem subscribe (h : Heard asked n) (ht : Traced asked n) (channel : Nat) (queue : String)
    (role : Role) :
    Heard (asked ++ [.consume channel queue]) (n.subscribe channel queue role).2 := by
  have hasked := h.operate ht.broker (.consume channel queue)
  rcases subscribe_cases n channel queue role with ⟨tag', ha, heq⟩ | ⟨refusal, heq⟩
  · rw [heq]
    rw [ht.broker] at ha
    have hnone := Broker.eventsTo_of_answer ht.issued ha
    intro tag channel' index e event hk he hlast hsent
    by_cases hne : tag' = tag
    · subst hne
      rw [Broker.run_append, ← ht.broker] at hsent
      rcases List.mem_append.1 hsent with hold | hnew
      · rw [← mem_eventsTo, hnone] at hold
        exact absurd hold List.not_mem_nil
      · have hsent : (n.broker.run [.consume channel queue]).2 =
            (n.broker.perform (.consume channel queue)).sent := List.append_nil _
        exact Or.inl (List.mem_append_right _ (hsent ▸ hnew))
    · rw [Table.get?_insert, if_neg hne] at hk
      exact hasked tag channel' index e event hk he hlast hsent
  · rw [heq]
    exact hasked

theorem setClient (h : Heard asked n) {i : Nat} {e : Endpoint} {client : Client}
    (he : n.endpoints[i]? = some e) (hs : e.client.Silent → client.Silent) :
    Heard asked (n.setClient i client) := by
  intro tag channel index e' event hk he' hlast hsent
  rw [getElem?_setClient] at he'
  split at he'
  · next hi =>
    subst hi
    rw [he] at he'
    cases he'
    exact (h tag channel i e event hk he hlast hsent).imp_right hs
  · exact h tag channel index e' event hk he' hlast hsent

theorem handleNext (h : Heard asked n) (hb : n.broker = (Broker.run {} asked).1) (tag : String) :
    Heard (asked ++ n.published tag) (n.handleNext tag) := by
  cases hnext : nextFor? tag n.transit with
  | none =>
    obtain ⟨hsame, hnone⟩ := handleNext_of_none hnext
    rw [hsame, hnone, List.append_nil]
    exact h
  | some next =>
    obtain ⟨event, others⟩ := next
    -- What is left in transit is all but this event.
    have hleft : ∀ d, d ∈ n.transit → d = ⟨tag, event⟩ ∨ d ∈ others := fun d hd =>
      List.mem_cons.1 ((perm_of_nextFor? hnext).mem_iff.1 hd)
    have htaken : ∀ {t}, t ≠ tag → ∀ channel index e last,
        n.consumers.get? t = some { channel, role := .replies index } →
        n.endpoints[index]? = some e → last.isTerminal = true →
        ⟨t, last⟩ ∈ (Broker.run {} asked).2 → ⟨t, last⟩ ∈ others ∨ e.client.Silent := by
      intro t hne channel index e last hk he hlast hsent
      refine (h t channel index e last hk he hlast hsent).imp_left fun hm => ?_
      refine (hleft _ hm).resolve_left fun heq => hne ?_
      cases heq
      rfl
    have hhandles := handleNext_of_some hnext
    generalize n.handleNext tag = n', n.published tag = asked' at hhandles ⊢
    cases hhandles with
    | nobody hk =>
      rw [List.append_nil]
      intro t channel index e last hk' he hlast hsent
      refine htaken ?_ channel index e last hk' he hlast hsent
      rintro rfl
      rw [show n.consumers.get? t = none from hk] at hk'; cases hk'
    | @client channel i hk =>
      rw [List.append_nil]
      intro t channel' index e' last hk' he' hlast hsent
      obtain ⟨e, he, hclient⟩ : ∃ e, n.endpoints[index]? = some e ∧
          e'.client = if i = index then e.client.receive tag event else e.client := by
        rw [Array.getElem?_modify] at he'
        split at he'
        · next hi =>
          obtain ⟨e, he, rfl⟩ := Option.map_eq_some_iff.1 he'
          exact ⟨e, he, (if_pos hi).symm⟩
        · next hi => exact ⟨e', he', (if_neg hi).symm⟩
      have hkept : e.client.Silent → e'.client.Silent := by
        rw [hclient]
        split
        · exact fun hs => hs.receive tag event
        · exact fun hs => hs
      rcases h t channel' index e last hk' he hlast hsent with hm | hs
      · rcases hleft _ hm with heq | hm
        · -- This is the last event, and the client of the subscription has received it.
          cases heq
          obtain rfl : i = index := by
            rw [show n.consumers.get? tag = some { channel := channel', role := .replies index }
              from hk'] at hk
            cases hk
            rfl
          rw [if_pos rfl] at hclient
          exact Or.inr (hclient ▸ .of_terminal e.client tag hlast)
        · exact Or.inl hm
      · exact Or.inr (hkept hs)
    | @role channel role hk hr =>
      have hrest : Heard asked { n with
          transit := others
          consumers := n.consumers.insert tag { channel, role := (role.receive event).1 } } := by
        intro t channel' index e last hk' he hlast hsent
        rw [Table.get?_insert] at hk'
        split at hk'
        · have hrole := congrArg Consumer.role (Option.some.inj hk')
          have hother := Role.isReplies_receive hr event
          rw [show (role.receive event).1 = .replies index from hrole] at hother
          cases hother
        · next hne => exact htaken (Ne.symm hne) channel' index e last hk' he hlast hsent
      rw [publishAll_eq_run]
      exact hrest.run hb (fun _ _ _ hk => hk) rfl rfl

end Heard

/-- **One step.** -/
theorem Sound.heard_step (h : Sound s) (hh : Heard s.asked s.network) (label : Label) :
    Heard (s.step label).asked (s.step label).network := by
  cases label with
  | operate op =>
    simp only [System.step, System.operate]
    split
    · exact hh.operate h.traced.broker op
    · exact hh
  | subscribe channel queue role =>
    simp only [System.step, System.subscribe]
    split
    · exact hh.subscribe h.traced channel queue role
    · exact hh
  | connect timeout channel =>
    simp only [System.step, System.connect]
    split
    · intro tag channel' index e' event hk he' hlast hsent
      obtain ⟨e, he, -⟩ := h.peopled.listening tag channel' index hk
      obtain ⟨hlt, -⟩ := Array.getElem?_eq_some_iff.1 he
      rw [Array.getElem?_push, if_neg (Nat.ne_of_lt hlt)] at he'
      exact hh tag channel' index e' event hk he' hlast hsent
    · exact hh
  | start index op =>
    simp only [System.step, System.start]
    split
    · next e _ he => exact hh.setClient he fun hs => hs.start op
    · exact hh
  | exchange index =>
    simp only [System.step, System.exchange]
    split
    · next stage e _ he =>
      have hf := (h.peopled.attached index e he).faultless
      have hasked : Heard (s.asked ++ [e.request stage]) (s.network.ask index e stage).2 := by
        by_cases hsub : ∃ queue, stage = .subscribing queue
        · obtain ⟨queue, rfl⟩ := hsub
          rw [ask_subscribing _ _ hf]
          exact hh.subscribe h.traced _ _ _
        · rw [ask_snd _ _ hf fun queue hq => hsub ⟨queue, hq⟩]
          exact hh.operate h.traced.broker _
      rw [exchange_eq]
      refine hasked.setClient (e := e) ?_ fun hs => hs.resume stage _
      rw [ask_endpoints, he]
    · exact hh
  | handle tag => exact hh.handleNext h.traced.broker tag
  | look index id since now =>
    simp only [System.step, System.look]
    split
    · next e he => exact hh.setClient he fun hs => hs.look id since now
    · exact hh

theorem Sound.heard_run (labels : List Label) : ∀ {s : System}, Sound s →
    Heard s.asked s.network → Heard (s.run labels).asked (s.run labels).network := by
  induction labels with
  | nil => exact fun _ hh => hh
  | cons label rest ih => exact fun h hh => ih (h.step label) (h.heard_step hh label)

theorem System.Reachable.heard {s : System} (h : s.Reachable) : Heard s.asked s.network := by
  obtain ⟨labels, rfl⟩ := h
  exact Sound.init.heard_run labels fun _ _ _ _ _ hk => nomatch hk

/-- **A call that waits is listened to.** The broker sends what comes to its reply queue to the
client, or the end of the subscription is on its way there. -/
theorem System.Reachable.listened {s : System} (h : s.Reachable)
    (hnames : ∀ c k, .declareQueue c (Broker.generatedName k) ∉ s.asked) {index : Nat}
    {e : Endpoint} {queue tag id : String} (he : s.network.endpoints[index]? = some e)
    (hl : e.client.lifecycle = .opened queue tag) (hw : s.network.Waits index id) :
    s.network.broker.consumerOn? queue = some tag ∨
      ∃ event, event.isTerminal = true ∧ event ∈ eventsTo tag s.network.transit := by
  have hsound := h.sound
  have hissued := hsound.traced.issued
  obtain ⟨hsub, hk⟩ := (hsound.peopled.attached index e he).subscribed queue tag hl
  cases Broker.run_stream hissued tag with
  | unused _ _ hn => exact absurd hsub (hn _).1
  | used _ _ hu hst =>
    obtain rfl := (hu _).1 hsub
    cases hst with
    | goesOn _ _ hs _ =>
      refine Or.inl ?_
      rw [hsound.traced.broker]
      exact (Broker.run_linked hissued hnames).consumerOn?_iff.2 ⟨_, hs, rfl⟩
    | ended deliveries last hsent _ hlast =>
      obtain ⟨past, op, -, hends⟩ := (hlast last).2 rfl
      have hmem : ⟨tag, last⟩ ∈ (Broker.run {} s.asked).2 := by
        rw [← mem_eventsTo, hsent]
        exact List.mem_append_right _ List.mem_cons_self
      refine Or.inr ⟨last, hends.isTerminal, mem_eventsTo.2 ?_⟩
      have hheard := h.heard tag _ index e last hk he hends.isTerminal hmem
      refine hheard.resolve_right fun hsilent => ?_
      obtain ⟨e', he', hp, -⟩ := hw
      obtain rfl : e = e' := Option.some.inj (he.symm.trans he')
      rw [hsilent.absent] at hp
      cases hp

end Network

end BrokeredRpc
