import BrokeredRpc.Proofs.Broker.Backlogs
import BrokeredRpc.Proofs.Broker.Streams

/-!
# Shutting channels down

A shutdown takes away what is held for the channels that it shuts down: their
subscriptions, each with the cause for its last event, and their exclusive
queues, each with its bindings. `ShutsDown` says so for any set of channels, and
what stays as it was. Two shutdowns with the same cause, one after the other, are
one (`ShutsDown.trans`), so the loss of the connection is the shutdown of all
channels that are open.

* `shutsDown_shutdownChannel`, `shutsDown_shutdownChannels`: one channel, and
  several in a row;
* `run_shutdown`: closing, aborting and losing the connection after every
  history, and what is recorded of it later.
-/
namespace BrokeredRpc.Broker

variable {b b' b'' : Broker} {ending ending' : Nat → Prop} {cause : Shutdown}
  {sent sent' : List Dispatch}

/-! ## What a shutdown does -/

/-- The queue is exclusive to another channel, or shared and its consumer, if there is one, is
on another channel. -/
structure Aside (b : Broker) (ending : Nat → Prop) (q : Queue) : Prop where
  owner : ∀ c, q.owner = some c → ¬ending c
  consumer : q.owner = none → ∀ tag s, q.consumer = some tag →
    b.subscriptions.get? tag = some s → ¬ending s.channel

namespace Aside

variable {q : Queue}

theorem mono (h : b.Aside ending q) (hle : ∀ d, ending' d → ending d) : b.Aside ending' q :=
  ⟨fun c ho hd => h.owner c ho (hle c hd),
    fun ho tag s hc hs hd => h.consumer ho tag s hc hs (hle s.channel hd)⟩

theorem of_owner {c : Nat} (ho : q.owner = some c) (hn : ¬ending c) : b.Aside ending q where
  owner d hd := by
    rw [ho] at hd; cases hd
    exact hn
  consumer hnone := by rw [ho] at hnone; cases hnone

theorem of_shared (ho : q.owner = none) (hc : ∀ tag s, q.consumer = some tag →
    b.subscriptions.get? tag = some s → ¬ending s.channel) : b.Aside ending q where
  owner d hd := by rw [ho] at hd; cases hd
  consumer _ := hc

/-- In a linked broker, none of the channels consumes from the queue: the consumer of an
exclusive queue is on the channel of its owner. -/
theorem consumer_ne (h : b.Aside ending q) (hl : b.Linked) {name : String}
    (hq : b.queues.get? name = some q) {tag : String} {s : Subscription}
    (hc : q.consumer = some tag) (hs : b.subscriptions.get? tag = some s) :
    ¬ending s.channel := by
  cases ho : q.owner with
  | none => exact h.consumer ho tag s hc hs
  | some c =>
    obtain ⟨s', hs', he⟩ := hl.subscription hq hc
    rw [hs] at hs'; cases hs'
    rw [hl.exclusive tag s q c hs (he ▸ hq) ho]
    exact h.owner c ho

end Aside

/-- The channels `ending` are shut down: `b'` is the broker after it and `sent` the events. -/
structure ShutsDown (b : Broker) (ending : Nat → Prop) (cause : Shutdown) (b' : Broker)
    (sent : List Dispatch) : Prop where
  recorded : ∀ d, ending d → b'.closedBy? d = some cause
  unrecorded : ∀ d, ¬ending d → b'.closedBy? d = b.closedBy? d
  /-- A subscription made on one of the channels ends and is told the cause. -/
  ended : ∀ tag s, b.subscriptions.get? tag = some s → ending s.channel →
    b'.subscriptions.get? tag = none ∧ eventsTo tag sent = [.shutdown cause]
  goesOn : ∀ tag, (∀ s, b.subscriptions.get? tag = some s → ¬ending s.channel) →
    b'.subscriptions.get? tag = b.subscriptions.get? tag ∧ eventsTo tag sent = []
  /-- A queue exclusive to one of the channels goes. -/
  removed : ∀ name q c, b.queues.get? name = some q → q.owner = some c → ending c →
    b'.queues.get? name = none
  /-- A shared queue stays without its consumer. -/
  released : ∀ name q tag s, b.queues.get? name = some q → q.owner = none →
    q.consumer = some tag → b.subscriptions.get? tag = some s → ending s.channel →
    b'.queues.get? name = some { q with consumer := none }
  kept : ∀ name, (∀ q, b.queues.get? name = some q → b.Aside ending q) →
    b'.queues.get? name = b.queues.get? name
  /-- Exactly the bindings go that name a queue that goes. -/
  bindings : ∀ x, b'.exchanges.get? x = (b.exchanges.get? x).map fun bindings =>
    bindings.filter fun m => (b'.queues.get? m.queue).isSome
  opened : b'.channels.size = b.channels.size
  named : b'.namedQueues = b.namedQueues
  issued : b'.issuedTags = b.issuedTags
  numbered : b'.deliveries = b.deliveries

namespace ShutsDown

theorem of_iff (h : b.ShutsDown ending cause b' sent) (he : ∀ d, ending d ↔ ending' d) :
    b.ShutsDown ending' cause b' sent := by
  have : ending = ending' := funext fun d => propext (he d)
  exact this ▸ h

theorem nothing (hb : b.Bound) (hn : ∀ d, ¬ending d) : b.ShutsDown ending cause b [] where
  recorded d hd := absurd hd (hn d)
  unrecorded _ _ := rfl
  ended _ _ _ hd := absurd hd (hn _)
  goesOn _ _ := ⟨rfl, rfl⟩
  removed _ _ c _ _ hd := absurd hd (hn c)
  released _ _ _ s _ _ _ _ hd := absurd hd (hn s.channel)
  kept _ _ := rfl
  bindings x := by
    cases hx : b.exchanges.get? x with
    | none => rfl
    | some bindings =>
      exact congrArg some (List.filter_eq_self.2 fun m hm => hb.existing x bindings hx m hm).symm
  opened := rfl
  named := rfl
  issued := rfl
  numbered := rfl

theorem subscription (h : b.ShutsDown ending cause b' sent) {tag : String} {s : Subscription}
    (hs : b'.subscriptions.get? tag = some s) :
    b.subscriptions.get? tag = some s ∧ ¬ending s.channel := by
  by_cases he : ∃ r, b.subscriptions.get? tag = some r ∧ ending r.channel
  · obtain ⟨r, hr, hend⟩ := he
    rw [(h.ended tag r hr hend).1] at hs; cases hs
  · have hgoes : ∀ r, b.subscriptions.get? tag = some r → ¬ending r.channel :=
      fun r hr hend => he ⟨r, hr, hend⟩
    rw [(h.goesOn tag hgoes).1] at hs
    exact ⟨hs, hgoes s hs⟩

theorem absent (h : b.ShutsDown ending cause b' sent) {name : String}
    (hn : b.queues.get? name = none) : b'.queues.get? name = none := by
  rw [h.kept name, hn]
  intro q hq
  rw [hn] at hq; cases hq

/-- A queue that is there after a shutdown was there before it, and none of the channels had it
for its own. -/
theorem queue (h : b.ShutsDown ending cause b' sent) {name : String} {q' : Queue}
    (hq' : b'.queues.get? name = some q') :
    ∃ q, b.queues.get? name = some q ∧ q.owner = q'.owner ∧ ∀ c, q.owner = some c → ¬ending c := by
  cases hq : b.queues.get? name with
  | none => rw [h.absent hq] at hq'; cases hq'
  | some q =>
    have hstays : b.Aside ending q → q = q' := fun ha => by
      rw [h.kept name fun r hr => by rw [hq] at hr; cases hr; exact ha, hq] at hq'
      exact Option.some.inj hq'
    cases ho : q.owner with
    | some c =>
      by_cases hend : ending c
      · rw [h.removed name q c hq ho hend] at hq'; cases hq'
      · have hown := congrArg Queue.owner (hstays (.of_owner ho hend))
        exact ⟨q, rfl, hown, fun d hd => by rw [ho] at hd; cases hd; exact hend⟩
    | none =>
      refine ⟨q, rfl, ?_, fun d hd => by rw [ho] at hd; cases hd⟩
      by_cases hc : ∃ tag s, q.consumer = some tag ∧ b.subscriptions.get? tag = some s ∧
          ending s.channel
      · obtain ⟨tag, s, hc, hs, hend⟩ := hc
        rw [h.released name q tag s hq ho hc hs hend] at hq'
        cases hq'
        rfl
      · exact congrArg Queue.owner (hstays (.of_shared ho fun tag s hcon hs hend =>
          hc ⟨tag, s, hcon, hs, hend⟩))

theorem aside_after (h : b.ShutsDown ending cause b' sent) {q : Queue}
    (ha : b.Aside ending' q) : b'.Aside ending' q :=
  ⟨ha.owner, fun ho tag s hc hs => ha.consumer ho tag s hc (h.subscription hs).1⟩

/-- **Two shutdowns in a row** with the same cause are one. -/
theorem trans (h : b.ShutsDown ending cause b' sent)
    (h' : b'.ShutsDown ending' cause b'' sent') :
    b.ShutsDown (fun d => ending d ∨ ending' d) cause b'' (sent ++ sent') where
  recorded d hd := by
    by_cases hd' : ending' d
    · exact h'.recorded d hd'
    · rw [h'.unrecorded d hd', h.recorded d (hd.resolve_right hd')]
  unrecorded d hd := by
    obtain ⟨hn, hn'⟩ := not_or.1 hd
    rw [h'.unrecorded d hn', h.unrecorded d hn]
  ended tag s hs hd := by
    rw [eventsTo_append]
    by_cases hend : ending s.channel
    · obtain ⟨hgone, hsent⟩ := h.ended tag s hs hend
      obtain ⟨hgone', hsent'⟩ := h'.goesOn tag fun r hr => by rw [hgone] at hr; cases hr
      rw [hsent, hsent']
      exact ⟨hgone'.trans hgone, rfl⟩
    · obtain ⟨hkept, hsent⟩ := h.goesOn tag fun r hr => by
        rw [hs] at hr; cases hr
        exact hend
      obtain ⟨hgone', hsent'⟩ := h'.ended tag s (hkept.trans hs) (hd.resolve_left hend)
      rw [hsent, hsent']
      exact ⟨hgone', rfl⟩
  goesOn tag hn := by
    obtain ⟨hkept, hsent⟩ := h.goesOn tag fun s hs => (not_or.1 (hn s hs)).1
    obtain ⟨hkept', hsent'⟩ := h'.goesOn tag fun s hs =>
      (not_or.1 (hn s (h.subscription hs).1)).2
    rw [eventsTo_append, hsent, hsent']
    exact ⟨hkept'.trans hkept, rfl⟩
  removed name q c hq ho hd := by
    by_cases hend : ending c
    · exact h'.absent (h.removed name q c hq ho hend)
    · have hkept := h.kept name fun r hr => by
        rw [hq] at hr; cases hr
        exact .of_owner ho hend
      exact h'.removed name q c (hkept.trans hq) ho (hd.resolve_left hend)
  released name q tag s hq ho hc hs hd := by
    by_cases hend : ending s.channel
    · have hfreed := h.released name q tag s hq ho hc hs hend
      rw [h'.kept name fun r hr => ?_, hfreed]
      rw [hfreed] at hr; cases hr
      exact .of_shared ho fun _ _ hc => nomatch hc
    · obtain ⟨hstill, -⟩ := h.goesOn tag fun r hr => by
        rw [hs] at hr; cases hr
        exact hend
      have hkept := h.kept name fun r hr => by
        rw [hq] at hr; cases hr
        refine .of_shared ho fun tag' s' hc' hs' => ?_
        rw [hc] at hc'; cases hc'
        rw [hs] at hs'; cases hs'
        exact hend
      exact h'.released name q tag s (hkept.trans hq) ho hc (hstill.trans hs)
        (hd.resolve_left hend)
  kept name ha := by
    have hkept := h.kept name fun q hq => (ha q hq).mono fun d => Or.inl
    rw [h'.kept name fun q hq => ?_, hkept]
    rw [hkept] at hq
    exact h.aside_after ((ha q hq).mono fun d => Or.inr)
  bindings x := by
    rw [h'.bindings, h.bindings, Option.map_map]
    refine congrArg (fun f => (b.exchanges.get? x).map f) ?_
    funext bindings
    rw [Function.comp_apply, List.filter_filter]
    refine List.filter_congr fun m _ => ?_
    -- A queue that is there in the end was there after the first shutdown.
    cases hq : b'.queues.get? m.queue with
    | some q => rw [Option.isSome_some, Bool.and_true]
    | none => rw [h'.absent hq]; rfl
  opened := h'.opened.trans h.opened
  named := h'.named.trans h.named
  issued := h'.issued.trans h.issued
  numbered := h'.numbered.trans h.numbered

end ShutsDown

/-! ## One channel and several -/

theorem release_tagsOf {q : Queue} {c : Nat} (hn : ∀ tag s, q.consumer = some tag →
    b.subscriptions.get? tag = some s → s.channel ≠ c) :
    q.release (b.tagsOf c).contains = q := by
  refine Queue.release_of_kept fun tag hc => ?_
  rw [← Bool.not_eq_true, List.contains_iff_mem, mem_tagsOf]
  rintro ⟨s, hs, he⟩
  exact hn tag s hc hs he

/-- **One channel is shut down**, unless it is closed already. -/
theorem shutsDown_shutdownChannel (hl : b.Linked) (hb : b.Bound) (cause : Shutdown) {c : Nat}
    (hi : b.Issued c) :
    b.ShutsDown (fun d => d = c ∧ b.isOpen c = true) cause (b.shutdownChannel cause c).1
      (b.shutdownChannel cause c).2 := by
  by_cases ho : b.isOpen c = true
  · have hgone : ∀ name q, b.queues.get? name = some q →
        ((b.queuesOf c).contains name = true ↔ q.owner = some c) := by
      intro name q hq
      rw [List.contains_iff_mem, mem_queuesOf]
      constructor
      · rintro ⟨p, hp, hown⟩
        rw [hq] at hp; cases hp
        exact hown
      · exact fun hown => ⟨q, hq, hown⟩
    have hqueues : ∀ name, (b.shutdownChannel cause c).1.queues.get? name =
        if (b.queuesOf c).contains name then none
        else (b.queues.get? name).map fun q => q.release (b.tagsOf c).contains := by
      intro name
      rw [shutdownChannel_eq_trim hl cause ho]
      exact get?_queues_trim name
    constructor
    case recorded =>
      rintro d ⟨rfl, -⟩
      rw [closedBy?_shutdownChannel hi, if_pos ⟨rfl, ho⟩]
    case unrecorded =>
      intro d hd
      rw [closedBy?_shutdownChannel hi, if_neg fun hc => hd ⟨hc.1.symm, ho⟩]
    case ended =>
      rintro tag s hs ⟨hc, -⟩
      rw [get?_subscriptions_shutdownChannel, eventsTo_shutdownChannel, hs]
      simp [Option.filter, hc, ho]
    case goesOn =>
      intro tag hn
      rw [get?_subscriptions_shutdownChannel, eventsTo_shutdownChannel]
      cases hs : b.subscriptions.get? tag with
      | none => exact ⟨rfl, rfl⟩
      | some s =>
        have hne : s.channel ≠ c := fun he => hn s hs ⟨he, ho⟩
        simp [Option.filter, hne]
    case removed =>
      rintro name q d hq hown ⟨rfl, -⟩
      rw [hqueues, if_pos ((hgone name q hq).2 hown)]
    case released =>
      rintro name q tag s hq hown hc hs ⟨he, -⟩
      rw [hqueues, if_neg, hq]
      · have hmem : (b.tagsOf c).contains tag = true :=
          List.contains_iff_mem.2 (mem_tagsOf.2 ⟨s, hs, he⟩)
        simp only [Option.map_some, Queue.release, hc, Option.filter, hmem, Bool.not_true,
          Bool.false_eq_true, if_false]
      · rw [hgone name q hq, hown]
        exact fun h => by cases h
    case kept =>
      intro name ha
      rw [hqueues]
      cases hq : b.queues.get? name with
      | none => rw [Option.map_none, ite_self]
      | some q =>
        have haside := ha q hq
        rw [if_neg, Option.map_some, release_tagsOf]
        · exact fun tag s hc hs he => haside.consumer_ne hl hq hc hs ⟨he, ho⟩
        · rw [hgone name q hq]
          exact fun hown => haside.owner c hown ⟨rfl, ho⟩
    case bindings =>
      intro x
      simp only [hqueues]
      rw [shutdownChannel_eq_trim hl cause ho, get?_exchanges_trim]
      cases hx : b.exchanges.get? x with
      | none => exact congrArg (Option.map _) hx
      | some bindings =>
        refine (congrArg (Option.map _) hx).trans (congrArg some (List.filter_congr fun m hm => ?_))
        -- The queue of a binding exists, so it is there after the shutdown unless it is removed.
        obtain ⟨q, hq⟩ := Option.isSome_iff_exists.1 (hb.existing x bindings hx m hm)
        rw [hq]
        cases (b.queuesOf c).contains m.queue <;> rfl
    case opened => exact size_channels_shutdownChannel b cause c
    case named => exact (Shrinks.shutdownChannel b cause c).named
    case issued => exact (Shrinks.shutdownChannel b cause c).issued
    case numbered => exact deliveries_shutdownChannel b cause c
  · rw [shutdownChannel, if_neg ho]
    exact .nothing hb fun d hd => ho hd.2

/-- **Several channels are shut down**, those that are open. -/
theorem shutsDown_shutdownChannels (cause : Shutdown) (cs : List Nat) :
    ∀ {b : Broker}, b.Linked → b.Bound → (∀ c ∈ cs, b.Issued c) →
      b.ShutsDown (fun d => d ∈ cs ∧ b.isOpen d = true) cause (b.shutdownChannels cause cs).1
        (b.shutdownChannels cause cs).2 := by
  induction cs with
  | nil => exact fun _ hb _ => .nothing hb fun d hd => List.not_mem_nil hd.1
  | cons c rest ih =>
    intro b hl hb hi
    have hic := hi c List.mem_cons_self
    have hfirst := shutsDown_shutdownChannel hl hb cause hic
    have hrest := ih (hl.shutdownChannel cause c) (hb.shutdownChannel cause c) fun d hd =>
      (issued_congr hfirst.opened).2 (hi d (List.mem_cons_of_mem _ hd))
    rw [shutdownChannels, forEach_cons]
    refine (hfirst.trans hrest).of_iff fun d => ?_
    -- What is open after the first shutdown is open before it, and another channel.
    rw [isOpen_iff (b := (b.shutdownChannel cause c).1), closedBy?_shutdownChannel hic,
      List.mem_cons]
    by_cases hd : c = d ∧ b.isOpen c = true
    · obtain ⟨rfl, ho⟩ := hd
      simp [ho]
    · rw [if_neg hd, ← isOpen_iff]
      constructor
      · rintro (⟨rfl, ho⟩ | ⟨hm, ho⟩)
        · exact absurd ⟨rfl, ho⟩ hd
        · exact ⟨Or.inr hm, ho⟩
      · rintro ⟨hm, ho⟩
        refine Or.inr ⟨hm.resolve_left ?_, ho⟩
        rintro rfl
        exact hd ⟨rfl, ho⟩

/-! ## Operations that shut channels down -/

/-- The operation shuts the channel down, if it is open. -/
def Operation.Shuts : Operation → Nat → Prop
  | .closeChannel c, d | .abortChannel c _, d => c = d
  | .abortConnection _, _ => True
  | _, _ => False

theorem perform_of_closed {c : Nat} (hc : b.isOpen c = false) :
    b.perform (.closeChannel c) = b.grant .nothing ∧
      ∀ reason, b.perform (.abortChannel c reason) = b.grant .nothing := by
  have hshut : ∀ cause, b.shutdownChannel cause c = (b, []) := fun cause => by
    rw [shutdownChannel, hc]; rfl
  constructor
  · simp only [perform, closeChannel, hshut]
  · intro reason
    simp only [perform, abortChannel, hshut]

theorem isOpen_perform {op : Operation} (hi : ∀ c ∈ op.channel?, b.Issued c) {d : Nat}
    (hn : ¬op.Shuts d) (ho : b.isOpen d = true) : (b.perform op).broker.isOpen d = true := by
  have hshut : ∀ (cause : Shutdown) {c : Nat}, b.Issued c → c ≠ d →
      (b.shutdownChannel cause c).1.isOpen d = true := by
    intro cause c hc hne
    rw [isOpen_iff, closedBy?_shutdownChannel hc, if_neg fun h => hne h.1]
    exact isOpen_iff.1 ho
  rcases perform_cases b op with ⟨e, hr⟩ | hg
  · rw [hr]; exact ho
  generalize b.perform op = effect at hg
  cases hg with
  | opened => exact isOpen_iff.2 ((closedBy?_openChannel b d).trans (isOpen_iff.1 ho))
  | cancelled => exact (isOpen_congr (channels_endSubscription b _ _) d).trans ho
  | @published c m queues => exact (isOpen_congr (channels_enqueueAll b m queues) d).trans ho
  | closed => exact hshut _ (hi _ rfl) hn
  | aborted => exact hshut _ (hi _ rfl) hn
  | lost => exact absurd trivial hn
  | _ => exact (isOpen_congr rfl d).trans ho

theorem isOpen_run {d : Nat} (ops : List Operation) :
    ∀ {b : Broker}, b.OnIssued ops → (∀ op ∈ ops, ¬op.Shuts d) → b.isOpen d = true →
      (b.run ops).1.isOpen d = true := by
  induction ops with
  | nil => exact fun _ _ ho => ho
  | cons op rest ih =>
    exact fun hi hn ho => ih hi.2 (fun op' hm => hn op' (List.mem_cons_of_mem _ hm))
      (isOpen_perform hi.1 (hn op List.mem_cons_self) ho)

theorem isOpen_of_not_issued {d : Nat} (hd : ¬b.Issued d) : b.isOpen d = true := by
  rw [isOpen_iff]
  cases d with
  | zero => rfl
  | succ index =>
    have hle : b.channels.size ≤ index :=
      Nat.le_of_not_lt fun hlt => hd ⟨Nat.succ_pos index, hlt⟩
    rw [closedBy?, Array.getElem?_eq_none hle]
    rfl

/-- Losing the connection shuts down the channels that are open. -/
theorem shutsDown_abortConnection (hl : b.Linked) (hb : b.Bound) (reason : String) :
    b.ShutsDown (fun d => b.Issued d ∧ b.isOpen d = true) (.connectionAborted reason)
      (b.abortConnection reason).1 (b.abortConnection reason).2 := by
  refine (shutsDown_shutdownChannels _ _ hl hb (issued_range' b)).of_iff fun d => ?_
  rw [List.mem_range'_1, Issued, Nat.succ_le_iff, Nat.add_comm, Nat.lt_succ_iff]

theorem ShutsDown.nothing_held (hh : b.Held)
    (h : b.ShutsDown (fun d => b.Issued d ∧ b.isOpen d = true) cause b' sent) :
    (∀ tag, b'.subscriptions.get? tag = none) ∧
      ∀ name q, b'.queues.get? name = some q → q.owner = none := by
  refine ⟨fun tag => ?_, fun name q hq => ?_⟩
  · cases hs : b'.subscriptions.get? tag with
    | none => rfl
    | some s =>
      obtain ⟨hs, hn⟩ := h.subscription hs
      exact absurd (hh.subscriber tag s hs) hn
  · cases ho : q.owner with
    | none => rfl
    | some c =>
      obtain ⟨p, hp, hown, hn⟩ := h.queue hq
      rw [ho] at hown
      exact absurd (hh.owner name p c hp hown) (hn c hown)

/-! ## Histories -/

/-- A channel that has just been opened is open until it is shut down. -/
theorem isOpen_of_opened {past later : List Operation} {c : Nat}
    (hi : OnIssued {} (past ++ .openChannel :: later)) (hn : ∀ op ∈ later, ¬op.Shuts c)
    (ha : ((run {} past).1.perform .openChannel).answer = .ok (.channel c)) :
    (run {} (past ++ .openChannel :: later)).1.Issued c ∧
      (run {} (past ++ .openChannel :: later)).1.isOpen c = true := by
  have hc : (run {} past).1.channels.size + 1 = c := by
    cases ha; rfl
  have hissued : ((run {} past).1.perform .openChannel).broker.Issued c := by
    refine ⟨by omega, Nat.le_of_eq ?_⟩
    rw [← hc]
    exact (Array.size_push _).symm
  have hopen : ((run {} past).1.perform .openChannel).broker.isOpen c = true := by
    refine isOpen_perform (fun _ h => by cases h) (fun h => h) (isOpen_of_not_issued fun h => ?_)
    have := h.2
    omega
  rw [run_append]
  exact ⟨issued_run later hissued, isOpen_run later (onIssued_append.1 hi).2.2 hn hopen⟩

/-- **Shutdowns.** In every broker in which no caller has declared a generated name: closing or
aborting an open channel shuts down this channel and no other one, with all that it means
(`ShutsDown`); on a closed channel nothing happens, so that the cause recorded for it stays
through every later history. Losing the connection shuts down all channels that are open,
leaves neither a subscription nor an exclusive queue, and nothing of it is left for the channels
that are opened later. -/
theorem run_shutdown {ops : List Operation} {b : Broker} (hi : OnIssued {} ops)
    (hnames : ∀ c n, .declareQueue c (generatedName n) ∉ ops) (hb : b = (run {} ops).1) :
    (∀ c, b.Issued c → b.isOpen c = true →
      b.ShutsDown (· = c) (.channelClosed c) (b.perform (.closeChannel c)).broker
        (b.perform (.closeChannel c)).sent ∧
      ∀ reason, b.ShutsDown (· = c) (.channelAborted c reason)
        (b.perform (.abortChannel c reason)).broker (b.perform (.abortChannel c reason)).sent) ∧
    (∀ c, b.isOpen c = false → b.perform (.closeChannel c) = b.grant .nothing ∧
      ∀ reason, b.perform (.abortChannel c reason) = b.grant .nothing) ∧
    (∀ c cause, b.closedBy? c = some cause → ∀ more, OnIssued {} (ops ++ more) →
      (run {} (ops ++ more)).1.closedBy? c = some cause) ∧
    ∀ reason,
      b.ShutsDown (fun c => b.Issued c ∧ b.isOpen c = true) (.connectionAborted reason)
        (b.perform (.abortConnection reason)).broker (b.perform (.abortConnection reason)).sent ∧
      (∀ tag, (b.perform (.abortConnection reason)).broker.subscriptions.get? tag = none) ∧
      (∀ name q, (b.perform (.abortConnection reason)).broker.queues.get? name = some q →
        q.owner = none) ∧
      ∀ more later c,
        OnIssued {} (ops ++ .abortConnection reason :: more ++ .openChannel :: later) →
        ((run {} (ops ++ .abortConnection reason :: more)).1.perform .openChannel).answer =
          .ok (.channel c) → (∀ op ∈ later, ¬op.Shuts c) →
        (run {} (ops ++ .abortConnection reason :: more ++ .openChannel :: later)).1.Issued c ∧
          (run {} (ops ++ .abortConnection reason :: more ++ .openChannel :: later)).1.isOpen c =
            true := by
  subst hb
  have hl := run_linked hi hnames
  have hbound := run_bound hi
  have hone : ∀ {c : Nat}, (run {} ops).1.isOpen c = true →
      ∀ d, d = c ∧ (run {} ops).1.isOpen c = true ↔ d = c := fun ho d => and_iff_left ho
  refine ⟨fun c hc ho => ⟨?_, fun reason => ?_⟩, fun c hc => perform_of_closed hc,
    fun c cause hc more hm => ?_, fun reason => ?_⟩
  · exact (shutsDown_shutdownChannel hl hbound (.channelClosed c) hc).of_iff (hone ho)
  · exact (shutsDown_shutdownChannel hl hbound (.channelAborted c reason) hc).of_iff (hone ho)
  · rw [run_append]
    exact closedBy?_run more (onIssued_append.1 hm).2 hc
  · have hlost := shutsDown_abortConnection hl hbound reason
    obtain ⟨hsubs, howners⟩ := hlost.nothing_held (run_held hi)
    exact ⟨hlost, hsubs, howners, fun more later c hm ha hn => isOpen_of_opened hm hn ha⟩

/-- The second channel has an exclusive queue with a binding and consumes from it and from a
shared queue, the first channel consumes from another one, and the third one is closed. -/
def shutdownHistory : List Operation :=
  [.openChannel, .openChannel, .openChannel, .declareExchange 1 "jobs", .declareQueue 1 "work",
    .declareQueue 1 "mail", .declareExclusive 2, .bind 2 "amq.gen-1" "jobs" "new",
    .bind 1 "mail" "jobs" "new", .consume 2 "amq.gen-1", .consume 2 "work", .consume 1 "mail",
    .closeChannel 3]

theorem shutdownHistory_names (c n : Nat) :
    .declareQueue c (generatedName n) ∉ shutdownHistory := by
  intro hm
  simp only [shutdownHistory, List.mem_cons, reduceCtorEq, Operation.declareQueue.injEq, false_or,
    List.not_mem_nil, or_false] at hm
  rcases hm with ⟨-, he⟩ | ⟨-, he⟩
  · exact generatedName_ne (by decide) he.symm
  · exact generatedName_ne (by decide) he.symm

theorem run_shutdown_consumers :
    ∃ b, b = (run {} shutdownHistory).1 ∧
      eventsTo "ctag-2.2" (b.perform (.closeChannel 2)).sent = [.shutdown (.channelClosed 2)] ∧
      eventsTo "ctag-1.3" (b.perform (.closeChannel 2)).sent = [] ∧
      (b.perform (.closeChannel 2)).broker.queues.get? "amq.gen-1" = none ∧
      (b.perform (.closeChannel 2)).broker.queues.get? "work" = some {} ∧
      (b.perform (.closeChannel 2)).broker.queues.get? "mail" =
        some { consumer := some "ctag-1.3" } ∧
      (b.perform (.closeChannel 2)).broker.exchanges.get? "jobs" = some [⟨"new", "mail"⟩] ∧
      b.perform (.abortChannel 3 "late") = b.grant .nothing ∧
      (b.perform (.abortConnection "lost")).broker.closedBy? 3 = some (.channelClosed 3) ∧
      (run {} (shutdownHistory ++ [.abortConnection "lost", .openChannel])).1.isOpen 4 = true := by
  have hi : OnIssued {} shutdownHistory := by decide
  obtain ⟨hone, hclosed, -, hall⟩ := run_shutdown hi shutdownHistory_names rfl
  have hshut := (hone 2 (by decide) (by decide)).1
  obtain ⟨hlost, -, -, hlater⟩ := hall "lost"
  refine ⟨_, rfl, ?_, ?_, ?_, ?_, ?_, ?_, (hclosed 3 (by decide)).2 _, ?_, ?_⟩
  · exact (hshut.ended "ctag-2.2" ⟨2, "work"⟩ (by decide) rfl).2
  · refine (hshut.goesOn "ctag-1.3" fun s hs => ?_).2
    have : s = ⟨1, "mail"⟩ := Option.some.inj (hs.symm.trans (by decide))
    subst this
    decide
  · exact hshut.removed "amq.gen-1" { owner := some 2, consumer := some "ctag-2.1" } 2 (by decide)
      rfl rfl
  · exact hshut.released "work" { consumer := some "ctag-2.2" } "ctag-2.2" ⟨2, "work"⟩ (by decide)
      rfl rfl (by decide) rfl
  · decide
  · decide
  · exact (hlost.unrecorded 3 (by decide)).trans (by decide)
  · exact (hlater [] [] 4 (by decide) rfl fun op hm => nomatch hm).2

end BrokeredRpc.Broker
