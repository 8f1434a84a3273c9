import BrokeredRpc.Proofs.Broker.Histories
import BrokeredRpc.Proofs.Names

/-!
# Names and tags in use

Most steps of a broker add no queue and no subscription (`Shrinks`). The few
that do take a name from the caller or from a counter, so the counters say which
generated names and tags can be in use.

* `run_named`: a generated name beyond the counter is in use only if a caller
  declared it, and every tag in use carries its channel and a number that has
  been issued.
-/
namespace BrokeredRpc.Broker

/-! ## Steps that add nothing -/

/-- No queue and no subscription is new, and no counter of names has moved. -/
structure Shrinks (b b' : Broker) : Prop where
  named : b'.namedQueues = b.namedQueues
  issued : b'.issuedTags = b.issuedTags
  queues : ∀ name q', b'.queues.get? name = some q' →
    ∃ q, b.queues.get? name = some q ∧ q.owner = q'.owner
  subscriptions : ∀ tag s, b'.subscriptions.get? tag = some s → b.subscriptions.get? tag = some s

namespace Shrinks

theorem refl (b : Broker) : b.Shrinks b := ⟨rfl, rfl, fun _ q h => ⟨q, h, rfl⟩, fun _ _ h => h⟩

theorem of_same {b b' : Broker} (hn : b'.namedQueues = b.namedQueues)
    (hi : b'.issuedTags = b.issuedTags) (hq : b'.queues = b.queues)
    (hs : b'.subscriptions = b.subscriptions) : b.Shrinks b' := by
  refine ⟨hn, hi, fun name q h => ?_, fun tag s h => ?_⟩
  · rw [hq] at h; exact ⟨q, h, rfl⟩
  · rw [hs] at h; exact h

theorem trans {b₁ b₂ b₃ : Broker} (h : b₁.Shrinks b₂) (h' : b₂.Shrinks b₃) : b₁.Shrinks b₃ := by
  refine ⟨h'.named.trans h.named, h'.issued.trans h.issued, fun name q₃ h₃ => ?_,
    fun tag s hs => h.subscriptions tag s (h'.subscriptions tag s hs)⟩
  obtain ⟨q₂, h₂, ho₂⟩ := h'.queues name q₃ h₃
  obtain ⟨q₁, h₁, ho₁⟩ := h.queues name q₂ h₂
  exact ⟨q₁, h₁, ho₁.trans ho₂⟩

theorem replaceQueue {b : Broker} {name : String} {q q' : Queue} (hq : b.queues.get? name = some q)
    (ho : q.owner = q'.owner) : b.Shrinks { b with queues := b.queues.insert name q' } := by
  refine ⟨rfl, rfl, fun name' r hr => ?_, fun _ _ h => h⟩
  rw [Table.get?_insert] at hr
  split at hr
  · next he => subst he; cases hr; exact ⟨q, hq, ho⟩
  · exact ⟨r, hr, rfl⟩

theorem removeQueue (b : Broker) (name : String) : b.Shrinks (b.removeQueue name) := by
  refine ⟨rfl, rfl, fun name' q hq => ?_, fun _ _ h => h⟩
  rw [get?_queues_removeQueue] at hq
  split at hq
  · cases hq
  · exact ⟨q, hq, rfl⟩

theorem eraseSubscription (b : Broker) (tag : String) :
    b.Shrinks { b with subscriptions := b.subscriptions.erase tag } := by
  refine ⟨rfl, rfl, fun _ q h => ⟨q, h, rfl⟩, fun tag' s hs => ?_⟩
  rw [Table.get?_erase] at hs
  split at hs
  · cases hs
  · exact hs

theorem detach (b : Broker) (name : String) : b.Shrinks (b.detach name) := by
  unfold Broker.detach
  split
  · exact refl b
  · next q hq =>
    split
    · exact removeQueue b name
    · exact replaceQueue hq rfl

theorem endSubscription (b : Broker) (tag : String) (last : Event) :
    b.Shrinks (b.endSubscription tag last).1 := by
  unfold Broker.endSubscription
  split
  · exact refl b
  · exact (eraseSubscription b tag).trans (detach _ _)

theorem enqueue (b : Broker) (name : String) (m : Message) : b.Shrinks (b.enqueue name m).1 := by
  unfold Broker.enqueue
  split
  · exact refl b
  · next q hq =>
    split
    · exact of_same rfl rfl rfl rfl
    · exact replaceQueue hq rfl

theorem repeated {α : Type} {step : Broker → α → Broker × List Dispatch}
    (hstep : ∀ b item, Shrinks b (step b item).1) (items : List α) (b : Broker) :
    b.Shrinks (b.forEach items step).1 :=
  forEach_induct (P := Shrinks b) items b (fun b' item _ h => h.trans (hstep b' item)) (refl b)

theorem foldl_removeQueue (names : List String) (b : Broker) :
    b.Shrinks (names.foldl Broker.removeQueue b) := by
  induction names generalizing b with
  | nil => exact refl b
  | cons name rest ih => exact (removeQueue b name).trans (ih _)

theorem shutdownChannel (b : Broker) (cause : Shutdown) (c : Nat) :
    b.Shrinks (b.shutdownChannel cause c).1 := by
  unfold Broker.shutdownChannel
  split
  · have hr : b.Shrinks (b.recordClosed c cause) := of_same rfl rfl rfl rfl
    have he := repeated (fun b tag => endSubscription b tag (.shutdown cause))
      ((b.recordClosed c cause).tagsOf c) (b.recordClosed c cause)
    exact (hr.trans he).trans (foldl_removeQueue _ _)
  · exact refl b

theorem shutdownChannels (b : Broker) (cause : Shutdown) (cs : List Nat) :
    b.Shrinks (b.shutdownChannels cause cs).1 :=
  repeated (fun b c => shutdownChannel b cause c) cs b

end Shrinks

/-! ## Generated names and tags -/

/-- What the counters say about the names in use after the operations `past`. -/
structure Named (past : List Operation) (b : Broker) : Prop where
  queues : ∀ n, b.namedQueues < n → (b.queues.get? (generatedName n)).isSome →
    ∃ c, .declareQueue c (generatedName n) ∈ past
  tags : ∀ tag s, b.subscriptions.get? tag = some s →
    ∃ n, n ≤ b.issuedTags ∧ tag = tagName s.channel n

/-- A generated name that nobody declared is free until it is given out. -/
theorem Named.name_free {past : List Operation} {b : Broker} (h : Named past b)
    (hp : ∀ c n, .declareQueue c (generatedName n) ∉ past) {n : Nat} (hn : b.namedQueues < n) :
    b.queues.get? (generatedName n) = none := by
  rw [← Option.not_isSome_iff_eq_none]
  intro hs
  obtain ⟨c, hc⟩ := h.queues n hn hs
  exact hp c n hc

theorem Named.tag_free {past : List Operation} {b : Broker} (h : Named past b) (c : Nat) {n : Nat}
    (hn : b.issuedTags < n) : b.subscriptions.get? (tagName c n) = none := by
  rw [← Option.not_isSome_iff_eq_none, Option.isSome_iff_exists]
  rintro ⟨s, hs⟩
  obtain ⟨m, hm, he⟩ := h.tags _ s hs
  have := (tagName_inj.1 he).2
  omega

theorem Named.shrinks {past : List Operation} {b b' : Broker} (h : Named past b)
    (hs : b.Shrinks b') (op : Operation) : Named (past ++ [op]) b' := by
  refine ⟨fun n hn hq => ?_, fun tag s ht => ?_⟩
  · obtain ⟨q', hq'⟩ := Option.isSome_iff_exists.1 hq
    obtain ⟨q, hq, -⟩ := hs.queues _ q' hq'
    rw [hs.named] at hn
    obtain ⟨c, hc⟩ := h.queues n hn (Option.isSome_of_eq_some hq)
    exact ⟨c, List.mem_append_left _ hc⟩
  · rw [hs.issued]
    exact h.tags tag s (hs.subscriptions tag s ht)

theorem named_empty : Named [] {} := by
  refine ⟨fun n _ h => ?_, fun tag s h => ?_⟩
  · cases h
  · cases h

theorem named_perform {past : List Operation} {b : Broker} (h : Named past b) (op : Operation) :
    Named (past ++ [op]) (b.perform op).broker := by
  rcases perform_cases b op with ⟨e, hr⟩ | hg
  · rw [hr]; exact h.shrinks (.refl b) op
  generalize b.perform op = effect at hg
  cases hg with
  | opened => exact h.shrinks (by exact .of_same rfl rfl rfl rfl) _
  | exchangeKept => exact h.shrinks (.refl b) _
  | exchangeAdded => exact h.shrinks (by exact .of_same rfl rfl rfl rfl) _
  | queueKept => exact h.shrinks (.refl b) _
  | @queueAdded c name hc hq =>
    refine ⟨fun n hn hs => ?_, h.tags⟩
    simp only [grant, Table.get?_insert] at hn hs
    split at hs
    · next he => exact ⟨c, by simp [he]⟩
    · obtain ⟨c', hc'⟩ := h.queues n hn hs
      exact ⟨c', List.mem_append_left _ hc'⟩
  | exclusiveAdded =>
    refine ⟨fun n hn hs => ?_, h.tags⟩
    simp only [grant, Table.get?_insert] at hn hs
    rw [if_neg (by rw [generatedName_inj]; omega)] at hs
    obtain ⟨c', hc'⟩ := h.queues n (by omega) hs
    exact ⟨c', List.mem_append_left _ hc'⟩
  | bindingKept => exact h.shrinks (.refl b) _
  | bindingAdded => exact h.shrinks (by exact .of_same rfl rfl rfl rfl) _
  | @subscribed c name q hc hq ha hn =>
    refine ⟨fun n hn hs => ?_, fun tag s ht => ?_⟩
    · simp only [grant, Table.get?_insert] at hn hs
      have hs' : (b.queues.get? (generatedName n)).isSome := by
        split at hs
        · next he => rw [← he, hq]; rfl
        · exact hs
      obtain ⟨c', hc'⟩ := h.queues n hn hs'
      exact ⟨c', List.mem_append_left _ hc'⟩
    · simp only [grant, Table.get?_insert] at ht ⊢
      split at ht
      · next he => cases ht; exact ⟨b.issuedTags + 1, Nat.le_refl _, he.symm⟩
      · obtain ⟨n, hn, he⟩ := h.tags tag s ht
        exact ⟨n, by omega, he⟩
  | @deletedBusy c name tag q hc hq ha ht =>
    exact h.shrinks ((Shrinks.eraseSubscription b tag).trans (.removeQueue _ name)) _
  | @deletedIdle c name q hc hq ha ht => exact h.shrinks (.removeQueue b name) _
  | @cancelled c tag s hc hs hch => exact h.shrinks (.endSubscription b tag _) _
  | @published c m queues hc hr =>
    exact h.shrinks (.repeated (fun b name => .enqueue b name m) queues b) _
  | closed => exact h.shrinks (.shutdownChannel b _ _) _
  | aborted => exact h.shrinks (.shutdownChannel b _ _) _
  | lost => exact h.shrinks (.shutdownChannels b _ _) _

theorem namedQueues_le_perform (b : Broker) (op : Operation) :
    b.namedQueues ≤ (b.perform op).broker.namedQueues := by
  rcases perform_cases b op with ⟨e, hr⟩ | hg
  · rw [hr]; exact Nat.le_refl _
  generalize b.perform op = effect at hg
  cases hg with
  | exclusiveAdded => exact Nat.le_succ _
  | cancelled => exact Nat.le_of_eq (Shrinks.endSubscription b _ _).named.symm
  | @published c m queues =>
    exact Nat.le_of_eq (Shrinks.repeated (fun b name => .enqueue b name m) queues b).named.symm
  | closed => exact Nat.le_of_eq (Shrinks.shutdownChannel b _ _).named.symm
  | aborted => exact Nat.le_of_eq (Shrinks.shutdownChannel b _ _).named.symm
  | lost => exact Nat.le_of_eq (Shrinks.shutdownChannels b _ _).named.symm
  | _ => exact Nat.le_refl _

theorem run_named {ops : List Operation} (hi : OnIssued {} ops) : Named ops (run {} ops).1 :=
  run_induct (P := Named) (fun _ _ op h _ => named_perform h op) ops [] {} named_empty hi

end BrokeredRpc.Broker
