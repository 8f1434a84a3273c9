import BrokeredRpc.Broker.Operation

/-!
# Histories of a broker

A history is a list of operations, each on a channel that has been opened by
then (`OnIssued`). `perform_cases` says once and for all what an operation does:
it is refused and nothing has happened, or it does what `Grants` lists for it.
Every invariant of histories is proved from that list and lifted to whole
histories by `run_induct`.
-/
namespace BrokeredRpc.Broker

open Operation (Value)

/-! ## What an operation does -/

/-- The ways in which an operation is granted: for each, the guards that it has
passed, its answer, the broker after it and the events it sends. -/
inductive Grants (b : Broker) : Operation → Effect Value → Prop
  | opened : Grants b .openChannel (b.openChannel.2.grant (.channel b.openChannel.1))
  | exchangeKept {c : Nat} {x : String} (hc : b.isOpen c = true)
      (hx : x = defaultExchange ∨ b.exchanges.contains x = true) :
      Grants b (.declareExchange c x) (b.grant .nothing)
  | exchangeAdded {c : Nat} {x : String} (hc : b.isOpen c = true) (hd : x ≠ defaultExchange)
      (hx : b.exchanges.get? x = none) :
      Grants b (.declareExchange c x)
        ({ b with exchanges := b.exchanges.insert x [] }.grant .nothing)
  | queueKept {c : Nat} {name : String} {q : Queue} (hc : b.isOpen c = true)
      (hq : b.queues.get? name = some q) (ha : q.admits c = true) :
      Grants b (.declareQueue c name) (b.grant (.name name))
  | queueAdded {c : Nat} {name : String} (hc : b.isOpen c = true)
      (hq : b.queues.get? name = none) :
      Grants b (.declareQueue c name)
        ({ b with queues := b.queues.insert name {} }.grant (.name name))
  | exclusiveAdded {c : Nat} (hc : b.isOpen c = true) :
      Grants b (.declareExclusive c)
        ({ b with
            namedQueues := b.namedQueues + 1
            queues := b.queues.insert (generatedName (b.namedQueues + 1)) { owner := some c }
          }.grant (.name (generatedName (b.namedQueues + 1))))
  | bindingKept {c : Nat} {name x key : String} {q : Queue} {bindings : List Binding}
      (hc : b.isOpen c = true) (hq : b.queues.get? name = some q)
      (hx : b.exchanges.get? x = some bindings) (hm : Binding.mk key name ∈ bindings) :
      Grants b (.bind c name x key) (b.grant .nothing)
  | bindingAdded {c : Nat} {name x key : String} {q : Queue} {bindings : List Binding}
      (hc : b.isOpen c = true) (hq : b.queues.get? name = some q)
      (hx : b.exchanges.get? x = some bindings) (hm : Binding.mk key name ∉ bindings) :
      Grants b (.bind c name x key)
        ({ b with
            exchanges := b.exchanges.insert x (bindings ++ [Binding.mk key name]) }.grant .nothing)
  | subscribed {c : Nat} {name : String} {q : Queue} (hc : b.isOpen c = true)
      (hq : b.queues.get? name = some q) (ha : q.admits c = true) (hn : q.consumer = none) :
      Grants b (.consume c name)
        ({ b with
            issuedTags := b.issuedTags + 1
            deliveries := b.deliveries + q.backlog.size
            queues := b.queues.insert name
              { q with backlog := ∅, consumer := some (tagName c (b.issuedTags + 1)) }
            subscriptions := b.subscriptions.insert (tagName c (b.issuedTags + 1)) ⟨c, name⟩
          }.grant (.name (tagName c (b.issuedTags + 1)))
          ((numbered (b.deliveries + 1) q.backlog.toList).map fun d =>
            ⟨tagName c (b.issuedTags + 1), .delivery d⟩))
  | deletedBusy {c : Nat} {name tag : String} {q : Queue} (hc : b.isOpen c = true)
      (hq : b.queues.get? name = some q) (ha : q.admits c = true)
      (ht : b.consumerOf? q = some tag) :
      Grants b (.deleteQueue c name)
        (({ b with subscriptions := b.subscriptions.erase tag }.removeQueue name).grant .nothing
          [⟨tag, .cancelled⟩])
  | deletedIdle {c : Nat} {name : String} {q : Queue} (hc : b.isOpen c = true)
      (hq : b.queues.get? name = some q) (ha : q.admits c = true) (ht : b.consumerOf? q = none) :
      Grants b (.deleteQueue c name) ((b.removeQueue name).grant .nothing)
  | cancelled {c : Nat} {tag : String} {s : Subscription} (hc : b.isOpen c = true)
      (hs : b.subscriptions.get? tag = some s) (hch : s.channel = c) :
      Grants b (.cancel c tag)
        ((b.endSubscription tag .cancelled).1.grant .nothing (b.endSubscription tag .cancelled).2)
  | published {c : Nat} {m : Message} {queues : List String} (hc : b.isOpen c = true)
      (hr : b.route? m.exchange m.routingKey = some queues) :
      Grants b (.publish c m)
        ((b.enqueueAll m queues).1.grant .nothing (b.enqueueAll m queues).2)
  | closed {c : Nat} :
      Grants b (.closeChannel c) ((b.closeChannel c).1.grant .nothing (b.closeChannel c).2)
  | aborted {c : Nat} {reason : String} :
      Grants b (.abortChannel c reason)
        ((b.abortChannel c reason).1.grant .nothing (b.abortChannel c reason).2)
  | lost {reason : String} :
      Grants b (.abortConnection reason)
        ((b.abortConnection reason).1.grant .nothing (b.abortConnection reason).2)

theorem isOpen_iff {b : Broker} {c : Nat} : b.isOpen c = true ↔ b.closedBy? c = none := by
  simp [isOpen]

/-- An operation on a channel is refused with the cause that closed the channel, or
goes on. -/
theorem onChannel_cases {α : Type} (b : Broker) (c : Nat) (next : Effect α) :
    (∃ cause, b.onChannel c next = b.refuse (.channelClosed cause)) ∨
      b.isOpen c = true ∧ b.onChannel c next = next := by
  unfold onChannel
  cases h : b.closedBy? c with
  | some cause => exact Or.inl ⟨cause, rfl⟩
  | none => exact Or.inr ⟨isOpen_iff.2 h, rfl⟩

theorem onQueue_cases {α : Type} (b : Broker) (name : String) (next : Queue → Effect α) :
    b.onQueue name next = b.refuse (.queueNotFound name) ∨
      ∃ q, b.queues.get? name = some q ∧ b.onQueue name next = next q := by
  unfold onQueue
  cases h : b.queues.get? name with
  | none => exact Or.inl rfl
  | some q => exact Or.inr ⟨q, rfl, rfl⟩

/-- **One operation.** It is refused and nothing has happened, or it is granted in one of
the ways of `Grants`. -/
theorem perform_cases (b : Broker) (op : Operation) :
    (∃ e, b.perform op = b.refuse e) ∨ Grants b op (b.perform op) := by
  cases op with
  | openChannel => exact Or.inr .opened
  | declareExchange c x =>
    simp only [perform, declareExchange]
    rcases onChannel_cases b c _ with ⟨cause, h⟩ | ⟨hc, h⟩ <;> rw [h]
    · exact Or.inl ⟨_, rfl⟩
    split
    · next hx => exact Or.inr (.exchangeKept hc hx)
    · next hx =>
      rw [not_or, Table.contains, Bool.not_eq_true, Option.isSome_eq_false_iff,
        Option.isNone_iff_eq_none] at hx
      exact Or.inr (.exchangeAdded hc hx.1 hx.2)
  | declareQueue c name =>
    simp only [perform, declareQueue]
    rcases onChannel_cases b c _ with ⟨cause, h⟩ | ⟨hc, h⟩ <;> rw [h]
    · exact Or.inl ⟨_, rfl⟩
    split
    · next hq => exact Or.inr (.queueAdded hc hq)
    · next q hq =>
      split
      · next ha => exact Or.inr (.queueKept hc hq ha)
      · exact Or.inl ⟨_, rfl⟩
  | declareExclusive c =>
    simp only [perform, declareExclusive]
    rcases onChannel_cases b c _ with ⟨cause, h⟩ | ⟨hc, h⟩ <;> rw [h]
    · exact Or.inl ⟨_, rfl⟩
    · exact Or.inr (.exclusiveAdded hc)
  | bind c name x key =>
    simp only [perform, bind]
    rcases onChannel_cases b c _ with ⟨cause, h⟩ | ⟨hc, h⟩ <;> rw [h]
    · exact Or.inl ⟨_, rfl⟩
    rcases onQueue_cases b name _ with h | ⟨q, hq, h⟩ <;> rw [h]
    · exact Or.inl ⟨_, rfl⟩
    split
    · exact Or.inl ⟨_, rfl⟩
    · next bindings hx =>
      split
      · next hm => exact Or.inr (.bindingKept hc hq hx hm)
      · next hm => exact Or.inr (.bindingAdded hc hq hx hm)
  | consume c name =>
    simp only [perform, consume]
    rcases onChannel_cases b c _ with ⟨cause, h⟩ | ⟨hc, h⟩ <;> rw [h]
    · exact Or.inl ⟨_, rfl⟩
    rcases onQueue_cases b name _ with h | ⟨q, hq, h⟩ <;> rw [h]
    · exact Or.inl ⟨_, rfl⟩
    split
    · exact Or.inl ⟨_, rfl⟩
    · next ha =>
      split
      · exact Or.inl ⟨_, rfl⟩
      · next hn =>
        rw [Bool.not_eq_true, Bool.not_eq_false'] at ha
        rw [Bool.not_eq_true, Option.isSome_eq_false_iff, Option.isNone_iff_eq_none] at hn
        exact Or.inr (.subscribed hc hq ha hn)
  | deleteQueue c name =>
    simp only [perform, deleteQueue]
    rcases onChannel_cases b c _ with ⟨cause, h⟩ | ⟨hc, h⟩ <;> rw [h]
    · exact Or.inl ⟨_, rfl⟩
    rcases onQueue_cases b name _ with h | ⟨q, hq, h⟩ <;> rw [h]
    · exact Or.inl ⟨_, rfl⟩
    split
    · exact Or.inl ⟨_, rfl⟩
    · next ha =>
      rw [Bool.not_eq_true, Bool.not_eq_false'] at ha
      split
      · next tag ht => exact Or.inr (.deletedBusy hc hq ha ht)
      · next ht => exact Or.inr (.deletedIdle hc hq ha ht)
  | cancel c tag =>
    simp only [perform, cancel]
    rcases onChannel_cases b c _ with ⟨cause, h⟩ | ⟨hc, h⟩ <;> rw [h]
    · exact Or.inl ⟨_, rfl⟩
    split
    · next s hs =>
      split
      · next hch => exact Or.inr (.cancelled hc hs hch)
      · exact Or.inl ⟨_, rfl⟩
    · exact Or.inl ⟨_, rfl⟩
  | publish c m =>
    simp only [perform, publish]
    rcases onChannel_cases b c _ with ⟨cause, h⟩ | ⟨hc, h⟩ <;> rw [h]
    · exact Or.inl ⟨_, rfl⟩
    split
    · exact Or.inl ⟨_, rfl⟩
    · next queues hr => exact Or.inr (.published hc hr)
  | closeChannel c => exact Or.inr .closed
  | abortChannel c reason => exact Or.inr .aborted
  | abortConnection reason => exact Or.inr .lost

/-! ## Whole histories -/

/-- The channel that an operation is performed on. -/
def Operation.channel? : Operation → Option Nat
  | .openChannel | .abortConnection _ => none
  | .declareExchange c _ | .declareQueue c _ | .declareExclusive c | .bind c .. | .consume c _
  | .deleteQueue c _ | .cancel c _ | .publish c _ | .closeChannel c | .abortChannel c _ => some c

/-- Every operation is on a channel that has been opened by then. -/
def OnIssued (b : Broker) : List Operation → Prop
  | [] => True
  | op :: rest => (∀ c ∈ op.channel?, b.Issued c) ∧ (b.perform op).broker.OnIssued rest

instance instDecidableOnIssued : ∀ (b : Broker) (ops : List Operation), Decidable (b.OnIssued ops)
  | _, [] => isTrue trivial
  | b, op :: rest =>
    have := instDecidableOnIssued (b.perform op).broker rest
    inferInstanceAs (Decidable ((∀ c ∈ op.channel?, b.Issued c) ∧ _))

/-- What every operation keeps, every history keeps. `P` may speak of the operations so
far. -/
theorem run_induct {P : List Operation → Broker → Prop}
    (hstep : ∀ past b op, P past b → (∀ c ∈ op.channel?, b.Issued c) →
      P (past ++ [op]) (b.perform op).broker) :
    ∀ (ops past : List Operation) (b : Broker), P past b → b.OnIssued ops →
      P (past ++ ops) (b.run ops).1
  | [], past, b, h, _ => by rw [List.append_nil]; exact h
  | op :: rest, past, b, h, hi => by
    have := run_induct hstep rest (past ++ [op]) _ (hstep past b op h hi.1) hi.2
    rwa [List.append_assoc, List.singleton_append] at this

/-! ## Histories cut in two -/

theorem run_append (ops more : List Operation) :
    ∀ b : Broker, b.run (ops ++ more) =
      (((b.run ops).1.run more).1, (b.run ops).2 ++ ((b.run ops).1.run more).2) := by
  induction ops with
  | nil => exact fun _ => rfl
  | cons op rest ih =>
    intro b
    simp only [List.cons_append, run, ih, List.append_assoc]

theorem run_concat (b : Broker) (past : List Operation) (op : Operation) :
    (b.run (past ++ [op])).1 = ((b.run past).1.perform op).broker := by
  rw [run_append]; rfl

theorem sent_concat (b : Broker) (past : List Operation) (op : Operation) :
    (b.run (past ++ [op])).2 = (b.run past).2 ++ ((b.run past).1.perform op).sent := by
  rw [run_append]
  exact congrArg _ (List.append_nil _)

theorem onIssued_append {ops more : List Operation} :
    ∀ {b : Broker}, b.OnIssued (ops ++ more) ↔ b.OnIssued ops ∧ (b.run ops).1.OnIssued more := by
  induction ops with
  | nil => exact ⟨fun h => ⟨trivial, h⟩, fun h => h.2⟩
  | cons op rest ih =>
    intro b
    rw [List.cons_append, OnIssued, OnIssued, ih, and_assoc]
    rfl

/-- Induction on the last operation of what comes after `before`. -/
theorem history_induct_after {P : List Operation → Prop} {before : List Operation} (hnil : P [])
    (hstep : ∀ past op, OnIssued {} (before ++ past) →
      (∀ c ∈ op.channel?, (run {} (before ++ past)).1.Issued c) → P past → P (past ++ [op]))
    {during : List Operation} (hi : OnIssued {} (before ++ during)) : P during := by
  have hgo : ∀ (rest past : List Operation), OnIssued {} (before ++ past) → P past →
      (run {} (before ++ past)).1.OnIssued rest → P (past ++ rest) := by
    intro rest
    induction rest with
    | nil => intro past _ hp _; rwa [List.append_nil]
    | cons op rest ih =>
      intro past hpast hp ⟨hop, hrest⟩
      have hnext : OnIssued {} (before ++ (past ++ [op])) := by
        rw [← List.append_assoc]
        exact onIssued_append.2 ⟨hpast, hop, trivial⟩
      have := ih (past ++ [op]) hnext (hstep past op hpast hop hp)
        (by rwa [← List.append_assoc, run_concat])
      rwa [List.append_assoc] at this
  have hi' := onIssued_append.1 hi
  exact hgo during [] (by rw [List.append_nil]; exact hi'.1) hnil
    (by rw [List.append_nil]; exact hi'.2)

/-- Induction on the last operation of a history. -/
theorem history_induct {P : List Operation → Prop} (hnil : P [])
    (hstep : ∀ past op, OnIssued {} past → (∀ c ∈ op.channel?, (run {} past).1.Issued c) →
      P past → P (past ++ [op])) {ops : List Operation} (hi : OnIssued {} ops) : P ops :=
  @history_induct_after P [] hnil hstep ops hi

/-- What `f` says of each operation of a history, one after another. -/
def gather {α : Type} (f : Broker → Operation → List α) : Broker → List Operation → List α
  | _, [] => []
  | b, op :: rest => f b op ++ gather f (b.perform op).broker rest

theorem gather_concat {α : Type} (f : Broker → Operation → List α) (past : List Operation)
    (op : Operation) :
    ∀ b : Broker, gather f b (past ++ [op]) = gather f b past ++ f (b.run past).1 op := by
  induction past with
  | nil => exact fun b => List.append_nil _
  | cons first rest ih =>
    intro b
    rw [List.cons_append, gather, gather, ih, List.append_assoc]
    rfl

/-- At some point of the history, `P` holds of the broker and of the operation that comes
next. -/
def Happened (ops : List Operation) (P : Broker → Operation → Prop) : Prop :=
  ∃ past op, past ++ [op] <+: ops ∧ P (run {} past).1 op

theorem not_happened_nil {P : Broker → Operation → Prop} : ¬Happened [] P := by
  rintro ⟨past, op, hp, -⟩
  rw [List.prefix_nil, List.append_eq_nil_iff] at hp
  cases hp.2

theorem happened_concat {past : List Operation} {op : Operation} {P : Broker → Operation → Prop} :
    Happened (past ++ [op]) P ↔ Happened past P ∨ P (run {} past).1 op := by
  constructor
  · rintro ⟨past', op', hp, h⟩
    rcases List.prefix_concat_iff.1 hp with he | hp
    · obtain ⟨rfl, hop⟩ := List.append_inj' he rfl
      cases hop
      exact Or.inr h
    · exact Or.inl ⟨past', op', hp, h⟩
  · rintro (⟨past', op', hp, h⟩ | h)
    · exact ⟨past', op', hp.trans (List.prefix_append _ _), h⟩
    · exact ⟨past, op, List.prefix_refl _, h⟩

theorem Happened.append {past : List Operation} {P : Broker → Operation → Prop}
    (h : Happened past P) (more : List Operation) : Happened (past ++ more) P := by
  obtain ⟨past', op, hp, h⟩ := h
  exact ⟨past', op, hp.trans (List.prefix_append _ _), h⟩

/-! ## Repetitions -/

theorem forEach_induct {α : Type} {P : Broker → Prop} {step : Broker → α → Broker × List Dispatch} :
    ∀ (items : List α) (b : Broker), (∀ b, ∀ item ∈ items, P b → P (step b item).1) → P b →
      P (b.forEach items step).1
  | [], _, _, h => h
  | item :: rest, b, hstep, h => by
    rw [forEach_cons]
    exact forEach_induct rest _ (fun b item hm => hstep b item (List.mem_cons_of_mem _ hm))
      (hstep b item List.mem_cons_self h)

end BrokeredRpc.Broker
