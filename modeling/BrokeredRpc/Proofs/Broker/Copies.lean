import BrokeredRpc.Proofs.Broker.Destinations

/-!
# What a publication does, told from the history

A message that is published goes, one copy each, to queues that are told from the
history alone (`Destinations`). Here is what a copy is (`Copies`): a queue with a
consumer has it sent there, numbered on from the last delivery of the broker, and
any other queue keeps it in its backlog. And here is which operations a queue
does not outlive (`Deletes`), and that a queue which is made, for the first time
or again, is made empty and unbound (`Unused`).

* `copies_enqueueAll`: a message goes to several queues;
* `deletes_iff`: after which operations a queue is gone;
* `run_routing`: the routing of messages after every history, what repeated
  declarations and bindings change, and how queues begin and end.
-/
namespace BrokeredRpc.Broker

variable {b b' : Broker} {ops past : List Operation} {op : Operation} {x key name : String}
  {queues : List String} {sent : List Dispatch}

/-! ## Copies -/

/-- A copy of the message for each of the queues that has a consumer, in the order of the
queues. -/
def copies (b : Broker) (m : Message) (queues : List String) : List Dispatch :=
  (queues.filterMap fun name => b.consumerOn? name).mapIdx fun i tag =>
    ⟨tag, .delivery (m.deliver (b.deliveries + i + 1))⟩

/-- Each of the queues gets one copy of the message, handed to its consumer or kept in its
backlog, and nothing else happens. -/
structure Copies (b : Broker) (m : Message) (queues : List String) (b' : Broker)
    (sent : List Dispatch) : Prop where
  handed : sent = b.copies m queues
  kept : ∀ name, b'.queues.get? name = (b.queues.get? name).map fun q =>
    if name ∈ queues ∧ q.consumer = none then { q with backlog := q.backlog.push m } else q
  counted : b'.deliveries = b.deliveries + (b.copies m queues).length
  others : b' = { b with queues := b'.queues, deliveries := b'.deliveries }

theorem consumerOn?_enqueue (b : Broker) (other : String) (m : Message) (name : String) :
    (b.enqueue other m).1.consumerOn? name = b.consumerOn? name := by
  by_cases hne : other = name
  · subst hne
    unfold enqueue
    split
    · rfl
    · next q hq =>
      split
      · rfl
      · rw [consumerOn?_of_get? hq, consumerOn?]
        simp only [Table.get?_insert_self, Option.bind_some]
  · rw [consumerOn?, consumerOn?, get?_queues_enqueue_of_ne hne]

/-- One queue: the copy is handed out or kept. -/
theorem copies_enqueue (hl : b.Linked) (m : Message) (name : String) :
    Copies b m [name] (b.enqueue name m).1 (b.enqueue name m).2 := by
  unfold enqueue
  cases hq : b.queues.get? name with
  | none =>
    have hcon : b.consumerOn? name = none := by rw [consumerOn?, hq]; rfl
    have hcopies : b.copies m [name] = [] := by simp [copies, hcon]
    refine ⟨hcopies.symm, fun other => ?_, by rw [hcopies]; rfl, rfl⟩
    cases ho : b.queues.get? other with
    | none => rfl
    | some q =>
      have hne : other ≠ name := by
        rintro rfl
        rw [hq] at ho; cases ho
      simp [hne]
  | some q =>
    have hcon : b.consumerOn? name = q.consumer := consumerOn?_of_get? hq
    simp only [hl.consumerOf? hq]
    cases hc : q.consumer with
    | some tag =>
      have hcopies : b.copies m [name] = [⟨tag, .delivery (m.deliver (b.deliveries + 1))⟩] := by
        simp [copies, hcon, hc]
      refine ⟨hcopies.symm, fun other => ?_, by rw [hcopies]; rfl, rfl⟩
      by_cases hne : other = name
      · subst hne
        simp [hq, hc]
      · simp [hne]
    | none =>
      have hcopies : b.copies m [name] = [] := by simp [copies, hcon, hc]
      refine ⟨hcopies.symm, fun other => ?_, by rw [hcopies]; rfl, rfl⟩
      rw [Table.get?_insert]
      by_cases hne : name = other
      · subst hne
        simp [hq, hc]
      · simp [hne, Ne.symm hne]

theorem Copies.cons {b'' : Broker} {m : Message} {sent' : List Dispatch}
    (h : Copies b m [name] b' sent) (hcon : ∀ other, b'.consumerOn? other = b.consumerOn? other)
    (h' : Copies b' m queues b'' sent') (hn : name ∉ queues) :
    Copies b m (name :: queues) b'' (sent ++ sent') := by
  have hcopies : b.copies m (name :: queues) = b.copies m [name] ++ b'.copies m queues := by
    have hlength : (b.copies m [name]).length = ([name].filterMap (consumerOn? · b)).length :=
      List.length_mapIdx
    rw [← List.singleton_append, copies, List.filterMap_append, List.mapIdx_append, ← hlength]
    refine congrArg (b.copies m [name] ++ ·) ?_
    simp only [copies, hcon, h.counted]
    refine congrArg (List.mapIdx · _) ?_
    funext i tag
    rw [Nat.add_comm i, ← Nat.add_assoc]
  refine ⟨by rw [hcopies, h.handed, h'.handed], fun other => ?_, ?_, ?_⟩
  · rw [h'.kept, h.kept, Option.map_map]
    refine congrArg (fun f => (b.queues.get? other).map f) ?_
    funext q
    rw [Function.comp_apply]
    by_cases he : other = name
    · subst he
      simp [hn]
    · simp [he]
  · rw [h'.counted, h.counted, hcopies, List.length_append, Nat.add_assoc]
  · rw [h'.others, h.others]

/-- **A message goes to several queues**, one copy each. -/
theorem copies_enqueueAll (m : Message) (hn : queues.Nodup) :
    ∀ {b : Broker}, b.Linked → Copies b m queues (b.enqueueAll m queues).1
      (b.enqueueAll m queues).2 := by
  induction queues with
  | nil =>
    intro b _
    refine ⟨rfl, fun name => ?_, rfl, rfl⟩
    cases hq : b.queues.get? name <;> simp [enqueueAll, hq]
  | cons name rest ih =>
    intro b hl
    obtain ⟨hnot, hn⟩ := List.nodup_cons.1 hn
    rw [enqueueAll, forEach_cons]
    exact (copies_enqueue hl m name).cons (consumerOn?_enqueue b name m)
      (ih hn (hl.enqueue name m)) hnot

/-- **A publication on an open channel**: it goes to the queues that it is routed to, or fails if
its exchange does not exist. -/
theorem publish_cases (hl : b.Linked) (hb : b.Bound) {c : Nat} (hc : b.isOpen c = true)
    (m : Message) :
    (b.route? m.exchange m.routingKey = none ∧
      b.perform (.publish c m) = b.refuse (.exchangeNotFound m.exchange)) ∨
    ∃ queues, b.route? m.exchange m.routingKey = some queues ∧
      (b.perform (.publish c m)).answer = .ok .nothing ∧
      Copies b m queues (b.perform (.publish c m)).broker (b.perform (.publish c m)).sent := by
  cases hr : b.route? m.exchange m.routingKey with
  | none =>
    refine Or.inl ⟨rfl, ?_⟩
    simp only [perform, publish, onChannel, isOpen_iff.1 hc, hr]
    rfl
  | some queues =>
    refine Or.inr ⟨queues, rfl, ?_⟩
    simp only [perform, publish, onChannel, isOpen_iff.1 hc, hr]
    exact ⟨rfl, copies_enqueueAll m (nodup_route? hb hr) hl⟩

/-! ## How queues end -/

/-- The operations that a queue does not outlive: it is deleted, the subscription on it is
cancelled and it is exclusive, or the channel that it is exclusive to is shut down. -/
inductive Deletes (b : Broker) (name : String) : Operation → Prop
  | deleted {c : Nat} {q : Queue} (hc : b.isOpen c = true) (hq : b.queues.get? name = some q)
      (ha : q.admits c = true) : Deletes b name (.deleteQueue c name)
  | cancelled {c : Nat} {tag : String} {q : Queue} (hc : b.isOpen c = true)
      (hs : b.subscriptions.get? tag = some ⟨c, name⟩) (hq : b.queues.get? name = some q)
      (ho : q.owner.isSome) : Deletes b name (.cancel c tag)
  | closed {c : Nat} {q : Queue} (hc : b.isOpen c = true) (hq : b.queues.get? name = some q)
      (ho : q.owner = some c) : Deletes b name (.closeChannel c)
  | aborted {c : Nat} {reason : String} {q : Queue} (hc : b.isOpen c = true)
      (hq : b.queues.get? name = some q) (ho : q.owner = some c) :
      Deletes b name (.abortChannel c reason)
  | lost {c : Nat} {reason : String} {q : Queue} (hi : b.Issued c) (hc : b.isOpen c = true)
      (hq : b.queues.get? name = some q) (ho : q.owner = some c) :
      Deletes b name (.abortConnection reason)

theorem Deletes.perform (hl : b.Linked) (hb : b.Bound) (hi : ∀ c ∈ op.channel?, b.Issued c)
    (h : Deletes b name op) : (b.perform op).broker.queues.get? name = none := by
  cases h with
  | @deleted c q hc hq ha =>
    have := broker_deleteQueue b c name
    rwa [if_pos ⟨hc, by rw [hq]; exact ha⟩] at this
  | @cancelled c tag q hc hs hq ho =>
    simp only [Broker.perform, cancel, onChannel, isOpen_iff.1 hc, hs, Effect.map, grant, if_true,
      endSubscription, get?_queues_detach, hq, Option.bind_some, ho]
  | closed hc hq ho =>
    exact (shutsDown_shutdownChannel hl hb _ (hi _ rfl)).removed name _ _ hq ho ⟨rfl, hc⟩
  | aborted hc hq ho =>
    exact (shutsDown_shutdownChannel hl hb _ (hi _ rfl)).removed name _ _ hq ho ⟨rfl, hc⟩
  | lost hi' hc hq ho =>
    exact (shutsDown_abortConnection hl hb _).removed name _ _ hq ho ⟨hi', hc⟩

theorem ShutsDown.owner_of_gone {ending : Nat → Prop} {cause : Shutdown}
    (h : b.ShutsDown ending cause b' sent) {q : Queue} (hq : b.queues.get? name = some q)
    (hgone : b'.queues.get? name = none) : ∃ c, q.owner = some c ∧ ending c := by
  have hnot : ¬b.Aside ending q := fun ha => by
    rw [h.kept name fun r hr => by rw [hq] at hr; cases hr; exact ha, hq] at hgone
    cases hgone
  cases ho : q.owner with
  | some c => exact ⟨c, rfl, Classical.not_not.1 fun hn => hnot (.of_owner ho hn)⟩
  | none =>
    refine absurd (Aside.of_shared ho fun tag s hc hs hend => ?_) hnot
    rw [h.released name q tag s hq ho hc hs hend] at hgone; cases hgone

/-- **A queue is gone** after the operations that delete it, and after no others. -/
theorem deletes_iff (hl : b.Linked) (hb : b.Bound) (hi : ∀ c ∈ op.channel?, b.Issued c)
    (hs : (b.queues.get? name).isSome) :
    (b.perform op).broker.queues.get? name = none ↔ Deletes b name op := by
  refine ⟨fun hgone => ?_, fun h => h.perform hl hb hi⟩
  obtain ⟨q, hq⟩ := Option.isSome_iff_exists.1 hs
  have hstays : ∀ {effect : Effect Operation.Value}, effect.broker.queues.get? name = none →
      (effect.broker.queues.get? name).isSome → Deletes b name op := fun hn hs => by
    rw [hn] at hs; cases hs
  have hinsert : ∀ {other : String} {q : Queue}, ((b.queues.insert other q).get? name).isSome := by
    intro other q
    rw [Table.get?_insert]
    split
    · rfl
    · exact hs
  rcases perform_cases b op with ⟨e, hr⟩ | hg
  · rw [hr, refuse, hq] at hgone; cases hgone
  generalize b.perform op = effect at hg hgone
  cases hg with
  | queueAdded => exact hstays hgone hinsert
  | exclusiveAdded => exact hstays hgone hinsert
  | subscribed => exact hstays hgone hinsert
  | @deletedBusy c other tag r hc hr ha =>
    replace hgone := (get?_queues_removeQueue _ other name).symm.trans hgone
    split at hgone
    · next he => exact he ▸ .deleted hc hr ha
    · rw [show ({ b with subscriptions := _ } : Broker).queues.get? name = some q from hq] at hgone
      cases hgone
  | @deletedIdle c other r hc hr ha =>
    replace hgone := (get?_queues_removeQueue _ other name).symm.trans hgone
    split at hgone
    · next he => exact he ▸ .deleted hc hr ha
    · rw [hq] at hgone; cases hgone
  | @cancelled c tag s hc hsub hch =>
    simp only [grant, endSubscription, hsub, get?_queues_detach, hq] at hgone
    split at hgone
    · next he =>
      rw [Option.bind_some] at hgone
      split at hgone
      · next ho =>
        obtain ⟨d, other⟩ := s
        cases hch; cases he
        exact .cancelled hc hsub hq ho
      · cases hgone
    · cases hgone
  | @published c m queues =>
    exact hstays hgone ((agrees_enqueueAll b m queues).isSome_queue.trans hs)
  | closed =>
    obtain ⟨d, ho, rfl, hc⟩ :=
      (shutsDown_shutdownChannel hl hb _ (hi _ rfl)).owner_of_gone hq hgone
    exact .closed hc hq ho
  | aborted =>
    obtain ⟨d, ho, rfl, hc⟩ :=
      (shutsDown_shutdownChannel hl hb _ (hi _ rfl)).owner_of_gone hq hgone
    exact .aborted hc hq ho
  | lost =>
    obtain ⟨d, ho, hi', hc⟩ := (shutsDown_abortConnection hl hb _).owner_of_gone hq hgone
    exact .lost hi' hc hq ho
  | _ => exact hstays hgone hs

/-! ## How queues begin -/

/-- A queue in which no message waits, which nobody consumes from and which is bound to no
exchange. -/
structure Unused (b : Broker) (name : String) : Prop where
  queue : ∃ owner, b.queues.get? name = some { owner }
  unbound : ∀ x key, name ∉ b.boundTo x key

/-- **A queue that comes into being** with an operation is declared by it and is unused. -/
theorem unused_perform (hb : b.Bound) (hn : b.queues.get? name = none)
    (hs : ((b.perform op).broker.queues.get? name).isSome) :
    ((∃ c, op = .declareQueue c name) ∨ ∃ c, op = .declareExclusive c) ∧
      Unused (b.perform op).broker name := by
  have hbefore : ∀ x key, name ∉ b.boundTo x key := fun x key hm => by
    obtain ⟨bindings, hx, hm⟩ := mem_boundTo.1 hm
    have := hb.existing x bindings hx _ hm
    rw [hn] at this; cases this
  obtain ⟨q', hq'⟩ := Option.isSome_iff_exists.1 hs
  rcases owner_perform hq' with ⟨q, hq, -⟩ | ⟨c, rfl⟩ | ⟨c, rfl, hname, -⟩
  · rw [hn] at hq; cases hq
  · refine ⟨Or.inl ⟨c, rfl⟩, ?_⟩
    rw [broker_declareQueue] at hq' ⊢
    split at hq'
    · next hc =>
      rw [if_pos hc]
      exact ⟨⟨none, Table.get?_insert_self _ _ _⟩, hbefore⟩
    · rw [hn] at hq'; cases hq'
  · refine ⟨Or.inr ⟨c, rfl⟩, ?_⟩
    rw [broker_declareExclusive] at hq' ⊢
    split at hq'
    · next hc =>
      rw [if_pos hc, hname]
      exact ⟨⟨some c, Table.get?_insert_self _ _ _⟩, fun x key => hname ▸ hbefore x key⟩
    · rw [hn] at hq'; cases hq'

/-! ## Repetitions -/

/-- The operation asks for something that is there: a declared exchange, a queue that exists, or
a binding that has been made since its queue was. -/
inductive Repeats (ops : List Operation) : Operation → Prop
  | exchange {c : Nat} {x : String} (h : Declared ops x) : Repeats ops (.declareExchange c x)
  | queue {c : Nat} {name : String} (h : ((run {} ops).1.queues.get? name).isSome) :
      Repeats ops (.declareQueue c name)
  | binding {c n : Nat} {x key name : String} (h : BoundAt x key name ops n) :
      Repeats ops (.bind c name x key)

/-- **What is there already** is not changed by asking for it. -/
theorem Repeats.perform (hi : OnIssued {} ops)
    (hnames : ∀ c n, .declareQueue c (generatedName n) ∉ ops) (h : Repeats ops op) :
    ((run {} ops).1.perform op).broker = (run {} ops).1 ∧
      ((run {} ops).1.perform op).sent = [] := by
  rcases perform_cases (run {} ops).1 op with ⟨e, hr⟩ | hg
  · rw [hr]
    exact ⟨rfl, rfl⟩
  generalize (run {} ops).1.perform op = effect at hg
  cases h with
  | exchange h =>
    cases hg with
    | exchangeKept => exact ⟨rfl, rfl⟩
    | exchangeAdded hc hd hx =>
      have := (run_declared hi hnames hd).2 h
      rw [hx] at this; cases this
  | queue h =>
    cases hg with
    | queueKept => exact ⟨rfl, rfl⟩
    | queueAdded hc hq => rw [hq] at h; cases h
  | @binding c n x key name h =>
    cases hg with
    | bindingKept => exact ⟨rfl, rfl⟩
    | bindingAdded hc hq hx hm =>
      obtain ⟨bindings', hx', hm'⟩ :=
        mem_boundTo.1 (((run_ordered hi hnames x key).mem name).2 ⟨n, h⟩)
      rw [hx] at hx'; cases hx'
      exact absurd hm' hm

/-! ## Histories -/

/-- **Routing is the history of bindings.** In every broker in which no caller has declared a
generated name, a message that is published on an open channel goes

* to the default exchange: once to the queue that its key names, if that exists;
* to another exchange: nowhere, and it fails, exactly if no declaration of the exchange has ever
  been granted, and otherwise once to each queue that has been bound to the exchange under the
  key since it was made, in the order in which that was first done, and to no other queue.

Repeated declarations and bindings change nothing. A queue is gone after the operations of
`Deletes`, and whenever it is declared anew it is empty, idle and bound to nothing. -/
theorem run_routing {ops : List Operation} {b : Broker} (hi : OnIssued {} ops)
    (hnames : ∀ c n, .declareQueue c (generatedName n) ∉ ops) (hb : b = (run {} ops).1) :
    (∀ c m effect, b.isOpen c = true → effect = b.perform (.publish c m) →
      (m.exchange = defaultExchange → effect.answer = .ok .nothing ∧
        Copies b m (if b.hasQueue m.routingKey then [m.routingKey] else []) effect.broker
          effect.sent) ∧
      (m.exchange ≠ defaultExchange →
        (effect.answer = .error (.exchangeNotFound m.exchange) ↔ ¬Declared ops m.exchange) ∧
        (¬Declared ops m.exchange → effect = b.refuse (.exchangeNotFound m.exchange)) ∧
        (Declared ops m.exchange → effect.answer = .ok .nothing ∧
          ∃ queues, Ordered ops m.exchange m.routingKey queues ∧
            Copies b m queues effect.broker effect.sent))) ∧
    (∀ op, Repeats ops op → (b.perform op).broker = b ∧ (b.perform op).sent = []) ∧
    (∀ name op, (∀ c ∈ op.channel?, b.Issued c) → (b.queues.get? name).isSome →
      ((b.perform op).broker.queues.get? name = none ↔ Deletes b name op)) ∧
    (∀ name op, b.queues.get? name = none → ((b.perform op).broker.queues.get? name).isSome →
      Unused (b.perform op).broker name) ∧
    ∀ c name, b.isOpen c = true → b.queues.get? name = none →
      (b.perform (.declareQueue c name)).answer = .ok (.name name) ∧
        Unused (b.perform (.declareQueue c name)).broker name := by
  subst hb
  have hl := run_linked hi hnames
  have hbound := run_bound hi
  refine ⟨fun c m effect hc he => ⟨fun hx => ?_, fun hx => ?_⟩,
    fun op h => h.perform hi hnames, fun name op hop hs => deletes_iff hl hbound hop hs,
    fun name op hn hs => (unused_perform hbound hn hs).2, fun c name hc hn => ?_⟩
  · rcases publish_cases hl hbound hc m with ⟨hr, -⟩ | ⟨queues, hr, ha, hcopies⟩
    · rw [route?, if_pos hx] at hr; cases hr
    · rw [route?, if_pos hx] at hr
      cases hr
      exact he ▸ ⟨ha, hcopies⟩
  · have hdecl := run_declared hi hnames hx
    rcases publish_cases hl hbound hc m with ⟨hr, hrefused⟩ | ⟨queues, hr, ha, hcopies⟩
    · rw [route?_of_ne hx, Option.map_eq_none_iff] at hr
      have hnot : ¬Declared ops m.exchange := by rw [← hdecl, hr]; exact nofun
      rw [he, hrefused]
      exact ⟨iff_of_true rfl hnot, fun _ => rfl, fun h => absurd h hnot⟩
    · rw [route?_of_ne hx, Option.map_eq_some_iff] at hr
      obtain ⟨bindings, hx', rfl⟩ := hr
      have hyes : Declared ops m.exchange := hdecl.1 (Option.isSome_of_eq_some hx')
      subst he
      refine ⟨iff_of_false (fun hno => ?_) (not_not_intro hyes), fun h => absurd hyes h,
        fun _ => ⟨ha, _, run_ordered hi hnames _ _, hcopies⟩⟩
      rw [ha] at hno; cases hno
  · have hgranted : (run {} ops).1.perform (.declareQueue c name) =
        { (run {} ops).1 with queues := (run {} ops).1.queues.insert name {} }.grant
          (.name name) := by
      simp only [perform, declareQueue, onChannel, isOpen_iff.1 hc, hn]
      rfl
    refine ⟨by rw [hgranted]; rfl, (unused_perform hbound hn ?_).2⟩
    rw [hgranted]
    exact Option.isSome_of_eq_some (Table.get?_insert_self _ _ _)

/-- The queue `late` is bound first, then `mail`; then `late` is deleted, made anew and bound
again. Both have consumers. -/
def reboundHistory : List Operation :=
  [.openChannel, .declareExchange 1 "jobs", .declareQueue 1 "late", .declareQueue 1 "mail",
    .bind 1 "late" "jobs" "new", .bind 1 "mail" "jobs" "new", .deleteQueue 1 "late",
    .declareQueue 1 "late", .bind 1 "late" "jobs" "new", .bind 1 "mail" "jobs" "new",
    .consume 1 "late", .consume 1 "mail"]

theorem reboundHistory_names (c n : Nat) :
    .declareQueue c (generatedName n) ∉ reboundHistory := by
  intro hm
  simp only [reboundHistory, List.mem_cons, reduceCtorEq, Operation.declareQueue.injEq, false_or,
    List.not_mem_nil, or_false] at hm
  rcases hm with ⟨-, he⟩ | ⟨-, he⟩ | ⟨-, he⟩
  · exact generatedName_ne (by decide) he.symm
  · exact generatedName_ne (by decide) he.symm
  · exact generatedName_ne (by decide) he.symm

theorem run_routing_rebound :
    ∃ b m, b = (run {} reboundHistory).1 ∧
      m = ({ exchange := "jobs", routingKey := "new" } : Message) ∧
      Ordered reboundHistory "jobs" "new" ["mail", "late"] ∧
      (b.perform (.publish 1 m)).sent =
        [⟨"ctag-1.2", .delivery (m.deliver 1)⟩, ⟨"ctag-1.1", .delivery (m.deliver 2)⟩] ∧
      (b.perform (.publish 1 { exchange := "none", routingKey := "new" })).answer =
        .error (.exchangeNotFound "none") ∧
      (b.perform (.bind 1 "mail" "jobs" "new")).broker = b ∧
      (b.perform (.deleteQueue 1 "mail")).broker.queues.get? "mail" = none ∧
      (b.perform (.declareQueue 1 "more")).answer = .ok (.name "more") := by
  have hi : OnIssued {} reboundHistory := by decide
  obtain ⟨hpublish, hrepeats, hdeletes, -, hdeclare⟩ := run_routing hi reboundHistory_names rfl
  have hordered : Ordered reboundHistory "jobs" "new" ["mail", "late"] :=
    run_ordered hi reboundHistory_names "jobs" "new"
  have hjobs : Declared reboundHistory "jobs" :=
    ⟨[.openChannel], .declareExchange 1 "jobs", by decide, 1, rfl, by decide⟩
  refine ⟨_, _, rfl, rfl, hordered, ?_, ?_, ?_, ?_, ?_⟩
  · obtain ⟨-, queues, ho, hcopies⟩ :=
      ((hpublish 1 { exchange := "jobs", routingKey := "new" } _ (by decide) rfl).2
        (by decide)).2.2 hjobs
    obtain rfl := ho.eq hordered
    exact hcopies.handed.trans (by decide)
  · refine ((hpublish 1 { exchange := "none", routingKey := "new" } _ (by decide) rfl).2
      (by decide)).1.2 fun h => ?_
    have := (run_declared hi reboundHistory_names (by decide)).2 h
    revert this
    decide
  · obtain ⟨n, hn⟩ := (hordered.mem "mail").1 (by decide)
    exact (hrepeats _ (.binding hn)).1
  · exact (hdeletes "mail" (.deleteQueue 1 "mail") (by decide) (by decide)).2
      (.deleted (q := { consumer := some "ctag-1.2" }) (by decide) (by decide) (by decide))
  · exact (hdeclare 1 "more" (by decide) (by decide)).1

end BrokeredRpc.Broker
