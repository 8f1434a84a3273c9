import BrokeredRpc.Proofs.Client.Interleaving
import BrokeredRpc.Proofs.Names

/-!
# Calls, slots and replies

Every id stands for one call, because ids count up (`Numbered`). The slot of a
call is in one place at a time: registered, in the hands of the listener, or
filled (`Matched`). Whoever takes it out of the registry keeps it for itself, so
what it is filled with is the first reply to the call, or the cause of a
shutdown.
-/
namespace BrokeredRpc.Client.System

variable {s s' : System}

/-! ## Ids -/

/-- An id that a call has taken. -/
def Used (s : System) (id : String) : Prop := ∃ k, k ≤ s.client.lastId ∧ id = idOf k

structure Numbered (s : System) : Prop where
  registered : ∀ id, .registered id ∈ s.history → s.Used id
  called : ∀ id call, s.calls.get? id = some call → s.Used id
  publishing : ∀ id m, s.stage = some (.publishing id m) → s.calls.get? id = some .publishing

theorem not_used_nextId (s : System) : ¬s.Used s.nextId := by
  rintro ⟨k, hk, he⟩
  have := idOf_inj.1 he
  omega

theorem used_enroll {id : String} : s.enroll.Used id ↔ s.Used id ∨ id = s.nextId := by
  constructor
  · rintro ⟨k, hk, rfl⟩
    by_cases h : k = s.client.lastId + 1
    · exact Or.inr (by rw [h]; rfl)
    · exact Or.inl ⟨k, Nat.le_of_lt_succ (Nat.lt_of_le_of_ne hk h), rfl⟩
  · rintro (⟨k, hk, rfl⟩ | rfl)
    · exact ⟨k, Nat.le_succ_of_le hk, rfl⟩
    · exact ⟨s.client.lastId + 1, Nat.le_refl _, rfl⟩

/-- The next id has not been registered by anybody. -/
theorem Numbered.unregistered (h : s.Numbered) : .registered s.nextId ∉ s.history :=
  fun hm => not_used_nextId s (h.registered _ hm)

theorem Numbered.nextId_ne (h : s.Numbered) {id : String} {call : Call}
    (hc : s.calls.get? id = some call) : s.nextId ≠ id := by
  rintro rfl
  exact not_used_nextId s (h.called _ call hc)

theorem Numbered.fresh (timeout : Timeout) : (System.fresh timeout).Numbered := by
  refine ⟨fun id h => ?_, fun id call h => ?_, fun id m h => ?_⟩
  · cases h
  · cases h
  · cases h

theorem Numbered.of_same (h : s.Numbered) (hi : s'.client.lastId = s.client.lastId)
    (hs : ∀ id m, s'.stage = some (.publishing id m) → s.stage = some (.publishing id m))
    (hc : s'.calls = s.calls)
    (hr : ∀ id, .registered id ∈ s'.history → .registered id ∈ s.history) : s'.Numbered := by
  have hu : ∀ id, s.Used id → s'.Used id := fun id ⟨k, hk, he⟩ => ⟨k, hi ▸ hk, he⟩
  refine ⟨fun id hm => hu id (h.registered id (hr id hm)), fun id call hg => ?_, fun id m hp => ?_⟩
  · rw [hc] at hg
    exact hu id (h.called id call hg)
  · rw [hc]
    exact h.publishing id m (hs id m hp)

theorem Numbered.of_call (h : s.Numbered) {id : String} {call call' : Call}
    (hg : s.calls.get? id = some call) (hi : s'.client.lastId = s.client.lastId)
    (hs : ∀ id' m, s'.stage = some (.publishing id' m) →
      s.stage = some (.publishing id' m) ∧ id' ≠ id)
    (hc : s'.calls = s.calls.insert id call')
    (hr : ∀ id, .registered id ∈ s'.history → .registered id ∈ s.history) : s'.Numbered := by
  have hu : ∀ id, s.Used id → s'.Used id := fun id ⟨k, hk, he⟩ => ⟨k, hi ▸ hk, he⟩
  refine ⟨fun id hm => hu id (h.registered id (hr id hm)), fun id' c hg' => ?_, fun id' m hp => ?_⟩
  · rw [hc, Table.get?_insert] at hg'
    split at hg'
    · next he => exact hu id' (h.called id' call (he ▸ hg))
    · exact hu id' (h.called id' c hg')
  · obtain ⟨hp, hne⟩ := hs id' m hp
    rw [hc, Table.get?_insert, if_neg (Ne.symm hne)]
    exact h.publishing id' m hp

theorem Numbered.not_publishing (h : s.Numbered) {id : String} {call : Call}
    (hg : s.calls.get? id = some call) (hn : call ≠ .publishing) :
    ∀ id' m, s.stage = some (.publishing id' m) →
      s.stage = some (.publishing id' m) ∧ id' ≠ id := by
  intro id' m hs
  refine ⟨hs, ?_⟩
  rintro rfl
  rw [h.publishing id' m hs] at hg
  exact hn (Option.some.inj hg).symm

theorem registered_mem_append {h : History} {id : String} {m : Mark} (hn : m.registered? = none)
    (hm : .registered id ∈ h ++ [m]) : .registered id ∈ h := by
  rcases mem_append_mark hm with hm | rfl
  · exact hm
  · cases hn

theorem numbered_moves (h : s.Numbered) (hm : Moves s s') : s'.Numbered := by
  cases hm with
  | stayed => exact h
  | ticked => exact h.of_same rfl (fun _ _ => id) rfl fun _ => id
  | staged hr hi ht hp => exact h.of_same hi (fun id m hs => absurd hs (hp id m)) rfl fun _ => id
  | registered hs hu =>
    refine ⟨fun id hm => used_enroll.2 ?_, fun id call hg => used_enroll.2 ?_, fun id m hp => ?_⟩
    · rcases mem_append_mark hm with hm | hm
      · exact Or.inl (h.registered id hm)
      · cases hm; exact Or.inr rfl
    · simp only [Table.get?_insert] at hg
      split at hg
      · next he => exact Or.inr he.symm
      · exact Or.inl (h.called id call hg)
    · cases hp
      exact Table.get?_insert_self _ _ _
  | refused hs hc =>
    refine ⟨fun id hm => used_enroll.2 (Or.inl (h.registered id hm)),
      fun id call hg => used_enroll.2 ?_, fun id m hp => ?_⟩
    · simp only [Table.get?_insert] at hg
      split at hg
      · next he => exact Or.inr he.symm
      · exact Or.inl (h.called id call hg)
    · rw [show s.enroll.stage = none from hs] at hp; cases hp
  | published hs =>
    exact h.of_call (h.publishing _ _ hs) rfl (fun _ _ h => by cases h) rfl fun _ => id
  | unpublished hs he =>
    exact h.of_call (h.publishing _ _ hs) rfl (fun _ _ h => by cases h) rfl
      fun _ => registered_mem_append rfl
  | matched => exact h.of_same rfl (fun _ _ => id) rfl fun _ => registered_mem_append rfl
  | dropped => exact h.of_same rfl (fun _ _ => id) rfl fun _ => registered_mem_append rfl
  | sealed => exact h.of_same rfl (fun _ _ => id) rfl fun _ => registered_mem_append rfl
  | drained => exact h.of_same rfl (fun _ _ => id) rfl fun _ => registered_mem_append rfl
  | answered => exact h.of_same rfl (fun _ _ => id) rfl fun _ => registered_mem_append rfl
  | failed => exact h.of_same rfl (fun _ _ => id) rfl fun _ => registered_mem_append rfl
  | ended => exact h.of_same rfl (fun _ _ => id) rfl fun _ => registered_mem_append rfl
  | resolved hv hc =>
    rcases hc with ⟨since, hc⟩ | hc
    · exact h.of_call hc rfl (h.not_publishing hc fun h => by cases h) rfl fun _ => id
    · exact h.of_call hc rfl (h.not_publishing hc fun h => by cases h) rfl fun _ => id
  | expired hc hv =>
    exact h.of_call hc rfl (h.not_publishing hc fun h => by cases h) rfl fun _ => id
  | withdrawn hc hp =>
    exact h.of_call hc rfl (h.not_publishing hc fun h => by cases h) rfl
      fun _ => registered_mem_append rfl
  | outrun hc hp =>
    exact h.of_call hc rfl (h.not_publishing hc fun h => by cases h) rfl fun _ => id

/-! ## Slots -/

theorem pending?_take (s : System) (id k : String) :
    (s.withReplies (s.client.replies.take id).2).pending? k =
      if id = k then none else s.pending? k :=
  s.client.replies.get?_pending_take id k

theorem pending?_take_self (s : System) (id : String) :
    (s.withReplies (s.client.replies.take id).2).pending? id = none :=
  (pending?_take s id id).trans (if_pos rfl)

theorem pending?_take_other {id other : String} (hne : other ≠ id) :
    (s.withReplies (s.client.replies.take id).2).pending? other = s.pending? other :=
  (pending?_take s id other).trans (if_neg (Ne.symm hne))

theorem pending?_of_take {id k slot : String}
    (hp : (s.withReplies (s.client.replies.take id).2).pending? k = some slot) :
    id ≠ k ∧ s.pending? k = some slot := by
  rw [pending?_take] at hp
  split at hp
  · cases hp
  · next hne => exact ⟨hne, hp⟩

theorem value?_fill (s : System) (slot : String) (outcome : Outcome) (reply : Option Nat)
    (k : String) : (s.fill slot outcome reply).value? k =
      if slot = k then some ((s.value? slot).getD outcome) else s.value? k :=
  s.client.replies.value_slot_fill slot outcome k

theorem value?_enroll (s : System) (k : String) : s.enroll.value? k = s.value? k :=
  s.client.replies.value_slot_register s.nextId s.nextId k

theorem pending?_enroll (hu : s.sealedBy? = none) (k : String) :
    s.enroll.pending? k = if s.nextId = k then some s.nextId else s.pending? k :=
  (Replies.register_of_unsealed hu s.nextId s.nextId).2.2 k

theorem registry_enroll {cause : Shutdown} (hc : s.sealedBy? = some cause) :
    s.enroll.client.replies.registry = s.client.replies.registry :=
  (Replies.register_of_sealed hc s.nextId s.nextId).2

/-- Where the slot of each call is, and what it may hold. -/
structure Matched (s : System) : Prop where
  pending : ∀ id slot, s.pending? id = some slot → slot = id ∧ .registered id ∈ s.history ∧
    repliesTo id s.history = [] ∧ s.value? id = none
  held : ∀ id ∈ s.listener.held, .registered id ∈ s.history ∧ s.pending? id = none ∧
    s.value? id = none
  distinct : s.listener.held.Nodup
  answering : ∀ number slot outcome, s.listener = .answering number slot outcome →
    FirstReply s.history slot outcome
  filled : ∀ id outcome, s.value? id = some outcome → .registered id ∈ s.history ∧
    ((∃ cause, outcome = .shutdown cause) ∨ FirstReply s.history id outcome)

namespace Matched

theorem fresh (timeout : Timeout) : (System.fresh timeout).Matched := by
  refine ⟨fun id slot h => ?_, fun id h => ?_, List.nodup_nil, fun _ _ _ h => ?_, fun id o h => ?_⟩
  · cases h
  · cases h
  · cases h
  · cases h

/-- The slot of the next call is nowhere yet. -/
theorem nextId_free (h : s.Matched) (hn : s.Numbered) :
    .registered s.nextId ∉ s.history ∧ s.value? s.nextId = none := by
  refine ⟨hn.unregistered, ?_⟩
  cases hv : s.value? s.nextId with
  | none => rfl
  | some o => exact absurd (h.filled _ o hv).1 hn.unregistered

theorem mem_drain (h : s.Matched) {id : String} :
    id ∈ s.client.replies.registry.drain.1 ↔ (s.pending? id).isSome := by
  rw [Registry.mem_drain, Option.isSome_iff_exists]
  constructor
  · intro ⟨id', hp⟩
    obtain ⟨rfl, -⟩ := h.pending id' id hp
    exact ⟨id, hp⟩
  · intro ⟨slot, hp⟩
    obtain ⟨rfl, -⟩ := h.pending id slot hp
    exact ⟨slot, hp⟩

/-- A step that fills nothing, enters nothing and leaves at most a mark that is no reply. -/
theorem of_fewer (h : s.Matched)
    (hp : ∀ k slot, s'.pending? k = some slot → s.pending? k = some slot)
    (hv : ∀ k, s'.value? k = s.value? k)
    (hl : s'.listener = s.listener ∨ s'.listener.held = [])
    (hh : s'.history = s.history ∨ ∃ m, s'.history = s.history ++ [m] ∧ m.reply? = none) :
    s'.Matched := by
  have hr : ∀ id, .registered id ∈ s.history → .registered id ∈ s'.history := by
    intro id hm
    rcases hh with hh | ⟨m, hh, -⟩ <;> rw [hh]
    · exact hm
    · exact List.mem_append_left _ hm
  have ht : ∀ id, repliesTo id s'.history = repliesTo id s.history := by
    intro id
    rcases hh with hh | ⟨m, hh, hm⟩ <;> rw [hh]
    refine repliesTo_append_mark fun properties body he => ?_
    rw [he] at hm; cases hm
  have hf : ∀ id o, FirstReply s.history id o → FirstReply s'.history id o := by
    rintro id o ⟨properties, body, rest, hr, ho⟩
    exact ⟨properties, body, rest, (ht id).trans hr, ho⟩
  have hn : ∀ id, s.pending? id = none → s'.pending? id = none := by
    intro id hnone
    cases hs : s'.pending? id with
    | none => rfl
    | some slot => rw [hp id slot hs] at hnone; cases hnone
  refine ⟨fun id slot hs => ?_, fun id hm => ?_, ?_, fun number slot o ha => ?_, fun id o ho => ?_⟩
  · obtain ⟨he, hreg, hrep, hval⟩ := h.pending id slot (hp id slot hs)
    exact ⟨he, hr id hreg, (ht id).trans hrep, (hv id).trans hval⟩
  · rcases hl with hl | hl
    · rw [hl] at hm
      obtain ⟨hreg, hnone, hval⟩ := h.held id hm
      exact ⟨hr id hreg, hn id hnone, (hv id).trans hval⟩
    · rw [hl] at hm; cases hm
  · rcases hl with hl | hl <;> rw [hl]
    · exact h.distinct
    · exact List.nodup_nil
  · rcases hl with hl | hl
    · exact hf slot o (h.answering number slot o (hl ▸ ha))
    · rw [ha] at hl; cases hl
  · rw [hv] at ho
    obtain ⟨hreg, hcause⟩ := h.filled id o ho
    exact ⟨hr id hreg, hcause.imp (fun hc => hc) (hf id o)⟩

theorem fill (h : s.Matched) {slot : String} {outcome : Outcome} {reply : Option Nat}
    {listener : Listener} (hs : slot ∈ s.listener.held)
    (ho : (∃ cause, outcome = .shutdown cause) ∨ FirstReply s.history slot outcome)
    (hl : ∀ id ∈ listener.held, id ∈ s.listener.held ∧ id ≠ slot) (hd : listener.held.Nodup)
    (ha : listener.isAnswering = false) :
    Matched { s.fill slot outcome reply with listener } := by
  obtain ⟨hr, hnone, hv⟩ := h.held slot hs
  have hval : ∀ id, id ≠ slot → (s.fill slot outcome reply).value? id = s.value? id := by
    intro id hne
    rw [value?_fill, if_neg (Ne.symm hne)]
  refine ⟨fun id slot' hp => ?_, fun id hm => ?_, hd, fun number slot' o he => ?_,
    fun id o hv' => ?_⟩
  · obtain ⟨he, hr', ht, hv'⟩ := h.pending id slot' hp
    have hne : id ≠ slot := by
      rintro rfl
      have := hnone.symm.trans hp
      cases this
    exact ⟨he, List.mem_append_left _ hr',
      (repliesTo_append_mark fun _ _ he => by cases he).trans ht, (hval id hne).trans hv'⟩
  · obtain ⟨hm, hne⟩ := hl id hm
    obtain ⟨hr', hnone', hv'⟩ := h.held id hm
    exact ⟨List.mem_append_left _ hr', hnone', (hval id hne).trans hv'⟩
  · cases he
    cases ha
  · by_cases hne : id = slot
    · subst hne
      replace hv' := (value?_fill s id outcome reply id).symm.trans hv'
      rw [if_pos rfl, hv] at hv'
      cases hv'
      exact ⟨List.mem_append_left _ hr, ho.imp (fun hc => hc) fun hf => hf.append _⟩
    · obtain ⟨hr', hc⟩ := h.filled id o ((hval id hne).symm.trans hv')
      exact ⟨List.mem_append_left _ hr', hc.imp (fun hc => hc) fun hf => hf.append _⟩

theorem enroll (h : s.Matched) (hn : s.Numbered) (hu : s.sealedBy? = none)
    (stage : Option Stage) (calls : Table Call) :
    Matched
      { s.enroll with stage, calls, history := s.history ++ [.registered s.nextId] } := by
  obtain ⟨hfree, hval⟩ := h.nextId_free hn
  have hreg : ∀ id, .registered id ∈ s.history →
      .registered id ∈ s.history ++ [.registered s.nextId] := fun _ => List.mem_append_left _
  have hrep : ∀ id, repliesTo id (s.history ++ [.registered s.nextId]) = repliesTo id s.history :=
    fun id => repliesTo_append_mark fun _ _ he => by cases he
  refine ⟨fun id slot hp => ?_, fun id hm => ?_, h.distinct, fun number slot o ha => ?_,
    fun id o hv => ?_⟩
  · replace hp := (pending?_enroll hu id).symm.trans hp
    split at hp
    · next he =>
      cases hp
      subst he
      exact ⟨rfl, List.mem_append_right _ List.mem_cons_self,
        (hrep _).trans (repliesTo_of_unregistered hfree), (value?_enroll s _).trans hval⟩
    · obtain ⟨he, hr, ht, hv⟩ := h.pending id slot hp
      exact ⟨he, hreg id hr, (hrep id).trans ht, (value?_enroll s id).trans hv⟩
  · obtain ⟨hr, hnone, hv⟩ := h.held id hm
    have hne : s.nextId ≠ id := fun he => hfree (he ▸ hr)
    exact ⟨hreg id hr, (pending?_enroll hu id).trans (by rw [if_neg hne, hnone]),
      (value?_enroll s id).trans hv⟩
  · exact (h.answering number slot o ha).append _
  · replace hv := (value?_enroll s id).symm.trans hv
    obtain ⟨hr, hc⟩ := h.filled id o hv
    exact ⟨hreg id hr, hc.imp (fun hc => hc) fun hf => hf.append _⟩

theorem take (h : s.Matched) (id : String) (stage : Option Stage) (calls : Table Call) {m : Mark}
    (hm : m.reply? = none) :
    Matched
      { s.withReplies (s.client.replies.take id).2 with
        stage, calls, history := s.history ++ [m] } :=
  h.of_fewer (fun _ _ hp => (pending?_of_take hp).2) (fun _ => rfl) (Or.inl rfl)
    (Or.inr ⟨m, rfl, hm⟩)

/-- A reply arrives for a call that is pending: it is the first one. -/
theorem reply (h : s.Matched) {properties : Properties} (body : Bytes) {id slot : String}
    (hc : properties.correlationId = some id) (hp : s.pending? id = some slot) (number : Nat) :
    Matched
      { s.withReplies (s.client.replies.take id).2 with
        listener := .answering number slot (.ofReply properties body)
        history := s.history ++ [.replied properties body] } := by
  obtain ⟨rfl, hr, ht, hv⟩ := h.pending id slot hp
  refine ⟨fun id' slot' hp' => ?_, fun id' hm => ?_, by simp [Listener.held],
    fun number slot' o ha => ?_, fun id' o hv' => ?_⟩
  · obtain ⟨hne, hp'⟩ := pending?_of_take hp'
    obtain ⟨he', hr', ht', hv'⟩ := h.pending id' slot' hp'
    refine ⟨he', List.mem_append_left _ hr', (repliesTo_append_mark ?_).trans ht', hv'⟩
    intro properties' body' he hc'
    cases he
    rw [hc] at hc'
    exact hne (Option.some.inj hc')
  · rw [Listener.held, List.mem_singleton] at hm
    subst hm
    exact ⟨List.mem_append_left _ hr, pending?_take_self s id', hv⟩
  · cases ha
    exact firstReply_of_replied hr ht hc
  · obtain ⟨hr', hc'⟩ := h.filled id' o hv'
    exact ⟨List.mem_append_left _ hr', hc'.imp (fun hc => hc) fun hf => hf.append _⟩

/-- A reply arrives that nobody waits for. -/
theorem drop (h : s.Matched) {properties : Properties} (body : Bytes)
    (hp : ∀ id, properties.correlationId = some id → s.pending? id = none) :
    Matched { s with history := s.history ++ [.replied properties body] } := by
  refine ⟨fun id slot hs => ?_, fun id hm => ?_, h.distinct, fun number slot o ha => ?_,
    fun id o hv => ?_⟩
  · obtain ⟨he, hr, ht, hv⟩ := h.pending id slot hs
    refine ⟨he, List.mem_append_left _ hr, (repliesTo_append_mark ?_).trans ht, hv⟩
    intro properties' body' he hc
    cases he
    have := (hp id hc).symm.trans hs
    cases this
  · obtain ⟨hr, hnone, hv⟩ := h.held id hm
    exact ⟨List.mem_append_left _ hr, hnone, hv⟩
  · exact (h.answering number slot o ha).append _
  · obtain ⟨hr, hc⟩ := h.filled id o hv
    exact ⟨List.mem_append_left _ hr, hc.imp (fun hc => hc) fun hf => hf.append _⟩

theorem drain (h : s.Matched) (cause : Shutdown) :
    Matched
      { s.withReplies { s.client.replies with registry := s.client.replies.registry.drain.2 } with
        listener := .failing s.client.replies.registry.drain.1 cause
        history := s.history ++ [.drained s.client.replies.registry.drain.1 cause] } := by
  refine ⟨fun id slot hp => ?_, fun id hm => ?_, ?_, fun number slot o ha => ?_, fun id o hv => ?_⟩
  · cases hp
  · obtain ⟨id', hp⟩ := Registry.mem_drain.1 hm
    obtain ⟨rfl, hr, -, hv⟩ := h.pending id' id hp
    exact ⟨List.mem_append_left _ hr, rfl, hv⟩
  · exact Registry.nodup_drain fun id slot hp => (h.pending id slot hp).1
  · cases ha
  · obtain ⟨hr, hc⟩ := h.filled id o hv
    exact ⟨List.mem_append_left _ hr, hc.imp (fun hc => hc) fun hf => hf.append _⟩

end Matched

theorem matched_moves (h : s.Matched) (hn : s.Numbered) (hm : Moves s s') : s'.Matched := by
  cases hm with
  | stayed => exact h
  | @staged client stage hr hi ht hp =>
    refine h.of_fewer (fun k slot hs => ?_) (fun k => ?_) (Or.inl rfl) (Or.inl rfl)
    · rw [pending?, hr] at hs; exact hs
    · rw [value?, hr]; rfl
  | registered hs hu => exact h.enroll hn hu _ _
  | refused hs hc =>
    refine h.of_fewer (fun k slot hp => ?_) (fun k => value?_enroll s k) (Or.inl rfl) (Or.inl rfl)
    rw [pending?, ← registry_enroll hc]
    exact hp
  | unpublished => exact h.take _ _ _ rfl
  | matched hl hc hp => exact h.reply _ hc hp _
  | dropped hl hp => exact h.drop _ hp
  | sealed hl =>
    exact h.of_fewer (fun _ _ => id) (fun _ => rfl) (Or.inr rfl) (Or.inr ⟨_, rfl, rfl⟩)
  | drained hl => exact h.drain _
  | @answered number slot outcome hl =>
    have hs : slot ∈ s.listener.held := by rw [hl]; exact List.mem_cons_self
    refine h.fill hs (Or.inr (h.answering number slot outcome hl)) (fun id hm => ?_) List.nodup_nil
      rfl
    cases hm
  | @failed slot rest cause hl =>
    have hheld : s.listener.held = slot :: rest := by rw [hl]; rfl
    have hd := h.distinct
    rw [hheld, List.nodup_cons] at hd
    refine h.fill (by rw [hheld]; exact List.mem_cons_self) (Or.inl ⟨cause, rfl⟩) (fun id hm => ?_)
      hd.2 rfl
    refine ⟨by rw [hheld]; exact List.mem_cons_of_mem _ hm, ?_⟩
    rintro rfl
    exact hd.1 hm
  | ended hl =>
    exact h.of_fewer (fun _ _ => id) (fun _ => rfl) (Or.inr rfl) (Or.inr ⟨_, rfl, rfl⟩)
  | withdrawn => exact h.take _ _ _ rfl
  | _ => exact h.of_fewer (fun _ _ => id) (fun _ => rfl) (Or.inl rfl) (Or.inl rfl)

theorem run_matched (timeout : Timeout) (labels : List Label) :
    ((fresh timeout).run labels).Numbered ∧ ((fresh timeout).run labels).Matched := by
  refine run_induct (P := fun s => s.Numbered ∧ s.Matched) (fun s s' hm h => ?_) labels _
    ⟨.fresh timeout, .fresh timeout⟩
  obtain ⟨hn, h⟩ := h
  exact ⟨numbered_moves hn hm, matched_moves h hn hm⟩

theorem value?_fill_of_some {id : String} {outcome : Outcome} (hv : s.value? id = some outcome)
    (slot : String) (o : Outcome) (reply : Option Nat) :
    (s.fill slot o reply).value? id = some outcome := by
  rw [value?_fill]
  split
  · next he => rw [he, hv]; rfl
  · exact hv

theorem value?_moves {id : String} {outcome : Outcome} (hm : Moves s s')
    (hv : s.value? id = some outcome) : s'.value? id = some outcome := by
  cases hm with
  | staged hr hi ht hp => rw [value?, hr]; exact hv
  | registered => exact (value?_enroll s id).trans hv
  | refused => exact (value?_enroll s id).trans hv
  | @answered number slot o hl => exact value?_fill_of_some hv slot o (some number)
  | @failed slot rest cause hl => exact value?_fill_of_some hv slot (.shutdown cause) none
  | _ => exact hv

end BrokeredRpc.Client.System
