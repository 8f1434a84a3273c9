import BrokeredRpc.Proofs.Names

/-!
# What operations leave of a client

A client changes with its own operations, with the events of its reply
subscription and with the looks of its callers. Here is what each of these does
to the parts of a client: to its lifecycle, to the seal on its registry and to
the ids in use. Ids count up, and a call that waits is filed under its own id
(`Numbered`), so the next id is always new.
-/
namespace BrokeredRpc.Client

variable {c : Client}

/-! ## Lifecycle and seal -/

/-- The client once a call has taken the next id, whether or not it could register. -/
def enrolled (c : Client) : Client :=
  { c with
    lastId := c.lastId + 1
    replies := (c.replies.register (idOf (c.lastId + 1)) (idOf (c.lastId + 1))).2 }

theorem start_fst (c : Client) (op : Operation) :
    (c.start op).1 = c ∨ (c.start op).1 = c.enrolled := by
  cases op with
  | opening =>
    simp only [start, startOpen]
    split <;> exact Or.inl rfl
  | closing =>
    simp only [start, startClose]
    split <;> exact Or.inl rfl
  | calling m =>
    simp only [start, startCall]
    split
    · exact Or.inl rfl
    · exact Or.inl rfl
    · refine Or.inr ?_
      unfold enrolled
      split <;> next he => rw [he]

@[simp] theorem lifecycle_start (c : Client) (op : Operation) :
    (c.start op).1.lifecycle = c.lifecycle := by
  rcases start_fst c op with he | he <;> rw [he]
  rfl

theorem sealedBy_register (r : Replies) (id name : String) :
    (r.register id name).2.registry.sealedBy = r.registry.sealedBy := by
  cases hs : r.registry.sealedBy with
  | none => exact (Replies.register_of_unsealed hs id name).2.1
  | some cause =>
    rw [(Replies.register_of_sealed hs id name).2]
    exact hs

@[simp] theorem sealedBy_start (c : Client) (op : Operation) :
    (c.start op).1.replies.registry.sealedBy = c.replies.registry.sealedBy := by
  rcases start_fst c op with he | he <;> rw [he]
  exact sealedBy_register c.replies _ _

@[simp] theorem sealedBy_resume (c : Client) (stage : Stage)
    (answer : Except TransportError stage.Grant) :
    (c.resume stage answer).1.replies.registry.sealedBy = c.replies.registry.sealedBy := by
  unfold resume
  split <;> rfl

@[simp] theorem sealedBy_deliver (r : Replies) (properties : Properties) (body : Bytes) :
    (r.deliver properties body).registry.sealedBy = r.registry.sealedBy := by
  unfold Replies.deliver
  split
  · rfl
  · split
    · next he => rw [Replies.registry_fill]; exact congrArg (·.2.registry.sealedBy) he.symm
    · next he => exact congrArg (·.2.registry.sealedBy) he.symm

/-- Only the end of the subscription seals the registry. -/
theorem sealedBy_receive {tag : String} {event : Event} (h : event.isTerminal = false) :
    (c.receive tag event).replies.registry.sealedBy = c.replies.registry.sealedBy := by
  cases event with
  | delivery d => exact sealedBy_deliver c.replies d.properties d.body
  | shutdown => cases h
  | cancelled => cases h

theorem look_snd (c : Client) (id : String) (since now : Nat) :
    (c.look id since now).2 = c ∨ (c.look id since now).2 = c.withdraw id := by
  unfold look withdraw
  split
  · exact Or.inl rfl
  · exact Or.inl rfl
  · split <;> next he => exact Or.inr (by rw [he])

/-! ## Ids -/

/-- Only ids given out so far are in use, and a call that waits does so under its own id. -/
structure Numbered (c : Client) : Prop where
  pending : ∀ id name, c.replies.registry.pending.get? id = some name →
    name = id ∧ ∃ k, k ≤ c.lastId ∧ id = idOf k
  filled : ∀ name, (c.replies.slot name).value.isSome → ∃ k, k ≤ c.lastId ∧ name = idOf k

namespace Numbered

theorem fresh (timeout : Timeout) : Numbered { timeout } := by
  refine ⟨fun id name h => ?_, fun name h => ?_⟩
  · cases h
  · cases h

theorem next_free (h : c.Numbered) :
    c.replies.registry.pending.get? (idOf (c.lastId + 1)) = none ∧
      (c.replies.slot (idOf (c.lastId + 1))).value = none := by
  have hnot : ¬∃ k, k ≤ c.lastId ∧ idOf (c.lastId + 1) = idOf k := by
    rintro ⟨k, hk, he⟩
    have := idOf_inj.1 he
    omega
  constructor
  · cases hp : c.replies.registry.pending.get? (idOf (c.lastId + 1)) with
    | none => rfl
    | some name => exact absurd (h.pending _ _ hp).2 hnot
  · cases hv : (c.replies.slot (idOf (c.lastId + 1))).value with
    | none => rfl
    | some outcome => exact absurd (h.filled _ (by rw [hv]; rfl)) hnot

theorem of_fewer (h : c.Numbered) {c' : Client} (hi : c'.lastId = c.lastId)
    (hp : ∀ id name, c'.replies.registry.pending.get? id = some name →
      c.replies.registry.pending.get? id = some name)
    (hs : ∀ name, (c'.replies.slot name).value = (c.replies.slot name).value) : c'.Numbered := by
  refine ⟨fun id name hid => ?_, fun name hn => ?_⟩
  · rw [hi]; exact h.pending id name (hp id name hid)
  · rw [hi]; exact h.filled name (hs name ▸ hn)

theorem withdraw (h : c.Numbered) (id : String) : (c.withdraw id).Numbered := by
  refine h.of_fewer rfl (fun id' name hn => ?_) fun _ => rfl
  rw [Client.withdraw, Replies.get?_pending_take] at hn
  split at hn
  · cases hn
  · exact hn

theorem fill (h : c.Numbered) {name : String} (hn : ∃ k, k ≤ c.lastId ∧ name = idOf k)
    (outcome : Outcome) : Numbered { c with replies := (c.replies.fill name outcome).2 } := by
  refine ⟨h.pending, fun name' hv => ?_⟩
  rw [Replies.value_slot_fill] at hv
  split at hv
  · next he => exact he ▸ hn
  · exact h.filled name' hv

theorem fillAll (outcome : Outcome) (names : List String) :
    ∀ {c : Client}, c.Numbered → (∀ name ∈ names, ∃ k, k ≤ c.lastId ∧ name = idOf k) →
      Numbered { c with replies := c.replies.fillAll names outcome } := by
  induction names with
  | nil => exact fun h _ => h
  | cons name rest ih =>
    intro c h hn
    have hstep := h.fill (hn name List.mem_cons_self) outcome
    exact ih hstep fun name' hm => hn name' (List.mem_cons_of_mem _ hm)

theorem endWith (h : c.Numbered) (cause : Shutdown) :
    Numbered { c with replies := c.replies.endWith cause } := by
  have hdrained : Numbered { c with
      replies := { c.replies with registry := (c.replies.registry.shutdown cause).2 } } := by
    refine h.of_fewer rfl (fun id name hn => ?_) fun _ => rfl
    cases hn
  refine fillAll (.shutdown cause) (c.replies.registry.shutdown cause).1 hdrained fun name hm => ?_
  obtain ⟨id, hid⟩ := Registry.mem_drain.1 hm
  obtain ⟨rfl, hk⟩ := h.pending id name hid
  exact hk

theorem deliver (h : c.Numbered) (properties : Properties) (body : Bytes) :
    Numbered { c with replies := c.replies.deliver properties body } := by
  unfold Replies.deliver
  split
  · exact h
  · next id _ =>
    have hw := h.withdraw id
    have htake : (c.replies.take id).1 = c.replies.registry.pending.get? id := rfl
    rw [Client.withdraw] at hw
    split
    · next name r he =>
      rw [he] at hw htake
      obtain ⟨rfl, hk⟩ := h.pending id name htake.symm
      exact hw.fill hk _
    · next r he => rw [he] at hw; exact hw

theorem receive (h : c.Numbered) (tag : String) (event : Event) :
    (c.receive tag event).Numbered := by
  cases event with
  | delivery d => exact h.deliver d.properties d.body
  | shutdown cause => exact h.endWith cause
  | cancelled => exact h.endWith _

theorem look (h : c.Numbered) (id : String) (since now : Nat) :
    (c.look id since now).2.Numbered := by
  rcases look_snd c id since now with he | he <;> rw [he]
  · exact h
  · exact h.withdraw id

theorem resume (h : c.Numbered) (stage : Stage) (answer : Except TransportError stage.Grant) :
    (c.resume stage answer).1.Numbered := by
  unfold Client.resume
  split
  all_goals first
    | exact h.withdraw _
    | exact ⟨h.pending, h.filled⟩

theorem enrolled (h : c.Numbered) : c.enrolled.Numbered := by
  have hgrown : ∀ {name : String}, (∃ k, k ≤ c.lastId ∧ name = idOf k) →
      ∃ k, k ≤ c.lastId + 1 ∧ name = idOf k := fun ⟨k, hk, he⟩ => ⟨k, Nat.le_succ_of_le hk, he⟩
  refine ⟨fun id name hid => ?_, fun name hn => ?_⟩
  · rw [Client.enrolled] at hid
    cases hs : c.replies.registry.sealedBy with
    | some cause =>
      rw [(Replies.register_of_sealed hs _ _).2] at hid
      exact (h.pending id name hid).imp_right hgrown
    | none =>
      rw [(Replies.register_of_unsealed hs _ _).2.2] at hid
      split at hid
      · next hk =>
        cases hid
        exact ⟨hk, c.lastId + 1, Nat.le_refl _, hk.symm⟩
      · exact (h.pending id name hid).imp_right hgrown
  · refine hgrown (h.filled name ?_)
    rw [← c.replies.value_slot_register (idOf (c.lastId + 1)) (idOf (c.lastId + 1))]
    exact hn

theorem start (h : c.Numbered) (op : Operation) : (c.start op).1.Numbered := by
  rcases start_fst c op with he | he <;> rw [he]
  · exact h
  · exact h.enrolled

end Numbered

end BrokeredRpc.Client
