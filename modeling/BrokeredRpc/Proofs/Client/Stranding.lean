import BrokeredRpc.Proofs.Client.Matching

/-!
# No call is stranded

The end of a subscription takes several steps: the registry is sealed, drained,
and then the drained slots are filled one by one. Calls register, publish, fail
to publish, time out and are replied to in every gap between them. `Sealing`
says what the end has come to, `Accounted` where every registered call is.

* `Ending.run`: once the registry is sealed, the listener needs a step to drain
  it, one for each drained slot and a last one, whatever happens in between;
* `run_returns`: from then on two looks are enough for any waiting call to return;
* `run_none_stranded`: the end comes, and once it has been dealt with, the
  registry is empty and sealed for good, and every call that was ever registered
  has its slot filled, has timed out, or has failed to publish.
-/
namespace BrokeredRpc.Client

/-- The cause of a seal. -/
def Mark.seal? : Mark → Option Shutdown
  | .sealed cause => some cause
  | _ => none

/-- The marks of the end of the subscription. -/
def Mark.ofEnd : Mark → Bool
  | .sealed _ | .drained .. | .ended _ => true
  | _ => false

/-- A registered call that somebody has taken out of the registry. -/
def Taken (h : History) (id : String) : Prop :=
  repliesTo id h ≠ [] ∨ .timedOut id ∈ h ∨ (∃ e, .unpublished id e ∈ h) ∨
    ∃ slots cause, .drained slots cause ∈ h ∧ id ∈ slots

theorem Taken.append {h : History} {id : String} (ht : Taken h id) (m : Mark) :
    Taken (h ++ [m]) id := by
  rcases ht with hr | hm | ⟨e, hm⟩ | ⟨slots, cause, hm, hs⟩
  · refine Or.inl fun hn => hr ?_
    obtain ⟨more, he⟩ := repliesTo_prefix id h m
    rw [hn] at he
    exact (List.append_eq_nil_iff.1 he).1
  · exact Or.inr (Or.inl (List.mem_append_left _ hm))
  · exact Or.inr (Or.inr (Or.inl ⟨e, List.mem_append_left _ hm⟩))
  · exact Or.inr (Or.inr (Or.inr ⟨slots, cause, List.mem_append_left _ hm, hs⟩))

def Label.isListen : Label → Bool
  | .listen => true
  | .start _ | .answer _ | .event .. | .look _ | .tick _ => false

namespace System

variable {s s' : System}

/-! ## What stays -/

/-- A step leaves one mark at most, and only the next call is registered. -/
theorem history_moves (hm : Moves s s') :
    s'.history = s.history ∨ ∃ m, s'.history = s.history ++ [m] ∧
      ∀ id, m = .registered id → (s'.pending? id).isSome := by
  cases hm with
  | @registered m hs hu =>
    refine Or.inr ⟨_, rfl, fun id he => ?_⟩
    cases he
    show (s.enroll.pending? s.nextId).isSome
    rw [pending?_enroll hu, if_pos rfl]; rfl
  | unpublished => exact Or.inr ⟨_, rfl, fun _ h => by cases h⟩
  | matched => exact Or.inr ⟨_, rfl, fun _ h => by cases h⟩
  | dropped => exact Or.inr ⟨_, rfl, fun _ h => by cases h⟩
  | sealed => exact Or.inr ⟨_, rfl, fun _ h => by cases h⟩
  | drained => exact Or.inr ⟨_, rfl, fun _ h => by cases h⟩
  | answered => exact Or.inr ⟨_, rfl, fun _ h => by cases h⟩
  | failed => exact Or.inr ⟨_, rfl, fun _ h => by cases h⟩
  | ended => exact Or.inr ⟨_, rfl, fun _ h => by cases h⟩
  | withdrawn => exact Or.inr ⟨_, rfl, fun _ h => by cases h⟩
  | _ => exact Or.inl rfl

theorem mem_history_moves (hm : Moves s s') {m : Mark} (h : m ∈ s.history) : m ∈ s'.history := by
  rcases history_moves hm with he | ⟨m', he, -⟩ <;> rw [he]
  · exact h
  · exact List.mem_append_left _ h

theorem taken_moves (hm : Moves s s') {id : String} (h : Taken s.history id) :
    Taken s'.history id := by
  rcases history_moves hm with he | ⟨m, he, -⟩ <;> rw [he]
  · exact h
  · exact h.append m

theorem returned_moves (hn : s.Numbered) (hm : Moves s s') {id : String}
    {result : Except CallError Bytes} (hr : s.calls.get? id = some (.returned result)) :
    s'.calls.get? id = some (.returned result) := by
  have hnew : s.nextId ≠ id := hn.nextId_ne hr
  have hother : ∀ {id' : String} {call : Call}, s.calls.get? id' = some call →
      (∀ result, call ≠ .returned result) → id' ≠ id := by
    rintro id' call hc hne rfl
    rw [hr] at hc
    exact hne result (Option.some.inj hc).symm
  have hset : ∀ {id' : String} {call : Call}, id' ≠ id →
      (s.calls.insert id' call).get? id = some (.returned result) := by
    intro id' call hne
    rw [Table.get?_insert, if_neg hne, hr]
  cases hm with
  | registered => exact hset hnew
  | refused => exact hset hnew
  | published hs => exact hset (hother (hn.publishing _ _ hs) fun _ h => by cases h)
  | unpublished hs => exact hset (hother (hn.publishing _ _ hs) fun _ h => by cases h)
  | resolved hv hc =>
    rcases hc with ⟨since, hc⟩ | hc
    · exact hset (hother hc fun _ h => by cases h)
    · exact hset (hother hc fun _ h => by cases h)
  | expired hc => exact hset (hother hc fun _ h => by cases h)
  | withdrawn hc => exact hset (hother hc fun _ h => by cases h)
  | outrun hc => exact hset (hother hc fun _ h => by cases h)
  | _ => exact hr

/-- A call that is not left alone: its slot is filled, or it has returned without. -/
def Settled (s : System) (id : String) : Prop :=
  (s.value? id).isSome ∨
    (∃ waited, s.calls.get? id = some (.returned (.error (.timeout id waited)))) ∨
    ∃ e, .unpublished id e ∈ s.history ∧ s.calls.get? id = some (.returned (.error e))

theorem Settled.moves {id : String} (h : s.Settled id) (hn : s.Numbered) (hm : Moves s s') :
    s'.Settled id := by
  rcases h with hv | ⟨waited, hr⟩ | ⟨e, hu, hr⟩
  · obtain ⟨outcome, hv⟩ := Option.isSome_iff_exists.1 hv
    exact Or.inl (Option.isSome_of_eq_some (value?_moves hm hv))
  · exact Or.inr (Or.inl ⟨waited, returned_moves hn hm hr⟩)
  · exact Or.inr (Or.inr ⟨e, mem_history_moves hm hu, returned_moves hn hm hr⟩)

/-! ## Where every call is -/

/-- Whoever takes the slot of a pending call takes charge of it. -/
theorem pending_moves (hw : s.Matched) (hm : Moves s s') {id slot : String}
    (hp : s.pending? id = some slot) :
    (s'.pending? id).isSome ∨
      Taken s'.history id ∧ (id ∈ s'.listener.held ∨ s'.Settled id) := by
  have hs : (s.pending? id).isSome := Option.isSome_of_eq_some hp
  obtain ⟨rfl, hreg, hrep, -⟩ := hw.pending id slot hp
  have htake : ∀ {id' : String}, id' ≠ slot →
      ((s.withReplies (s.client.replies.take id').2).pending? slot).isSome := by
    intro id' hne
    rw [pending?_take_other (Ne.symm hne)]
    exact hs
  cases hm with
  | staged hr => rw [pending?, hr]; exact Or.inl hs
  | @registered m _ hu =>
    refine Or.inl ?_
    show (s.enroll.pending? slot).isSome
    rw [pending?_enroll hu]
    split
    · rfl
    · exact hs
  | refused _ hc =>
    rw [pending?, show _ = _ from registry_enroll hc]; exact Or.inl hs
  | @unpublished id' m e hst he =>
    by_cases hid : id' = slot
    · subst hid
      have hu : .unpublished id' e ∈ s.history ++ [.unpublished id' e] :=
        List.mem_append_right _ List.mem_cons_self
      exact Or.inr ⟨Or.inr (Or.inr (Or.inl ⟨e, hu⟩)),
        Or.inr (Or.inr (Or.inr ⟨e, hu, Table.get?_insert_self _ _ _⟩))⟩
    · exact Or.inl (htake hid)
  | @matched properties body id' slot' hl hc hp' =>
    by_cases hid : id' = slot
    · subst hid
      obtain ⟨rfl, -, -, -⟩ := hw.pending id' slot' hp'
      obtain ⟨_, _, rest, hr, -⟩ := firstReply_of_replied hreg hrep hc
      refine Or.inr ⟨Or.inl fun hn => ?_, Or.inl (List.mem_singleton_self slot')⟩
      have := hr.symm.trans hn
      cases this
    · exact Or.inl (htake hid)
  | @drained cause hl =>
    have hd : slot ∈ s.client.replies.registry.drain.1 := Registry.mem_drain.2 ⟨slot, hp⟩
    exact Or.inr ⟨Or.inr (Or.inr (Or.inr
      ⟨_, cause, List.mem_append_right _ List.mem_cons_self, hd⟩)), Or.inl hd⟩
  | @withdrawn id' slot' waited hc hp' =>
    by_cases hid : id' = slot
    · subst hid
      exact Or.inr ⟨Or.inr (Or.inl (List.mem_append_right _ List.mem_cons_self)),
        Or.inr (Or.inr (Or.inl ⟨waited, Table.get?_insert_self _ _ _⟩))⟩
    · exact Or.inl (htake hid)
  | _ => exact Or.inl hs

/-- The listener lets go of a slot by filling it. -/
theorem held_moves (hm : Moves s s') {id : String} (hh : id ∈ s.listener.held) :
    id ∈ s'.listener.held ∨ (s'.value? id).isSome := by
  have hbusy : s.listener ≠ .idle := by
    intro hl
    rw [hl] at hh; cases hh
  have hfill : ∀ outcome reply, ((s.fill id outcome reply).value? id).isSome := by
    intro outcome reply
    rw [value?_fill, if_pos rfl]; rfl
  cases hm with
  | matched hl => exact absurd hl hbusy
  | dropped hl => exact absurd hl hbusy
  | sealed hl => exact absurd hl hbusy
  | drained hl => rw [hl] at hh; cases hh
  | @answered number slot outcome hl =>
    rw [hl, Listener.held, List.mem_singleton] at hh
    subst hh
    exact Or.inr (hfill outcome (some number))
  | @failed slot rest cause hl =>
    rw [hl, Listener.held, List.mem_cons] at hh
    rcases hh with rfl | hh
    · exact Or.inr (hfill (.shutdown cause) none)
    · exact Or.inl hh
  | ended hl => rw [hl] at hh; cases hh
  | _ => exact Or.inl hh

/-- Where the registered calls are. -/
structure Accounted (s : System) : Prop where
  /-- A registered call is pending, or in the hands of the listener, or settled. -/
  placed : ∀ id, .registered id ∈ s.history →
    (s.pending? id).isSome ∨ id ∈ s.listener.held ∨ s.Settled id
  taken : ∀ id, .registered id ∈ s.history → (s.pending? id).isSome ∨ Taken s.history id
  /-- A call under way is registered. -/
  active : ∀ id call, s.calls.get? id = some call → (∀ result, call ≠ .returned result) →
    .registered id ∈ s.history

theorem Accounted.fresh (timeout : Timeout) : (System.fresh timeout).Accounted := by
  refine ⟨fun id h => ?_, fun id h => ?_, fun id call h => ?_⟩
  · cases h
  · cases h
  · cases h

theorem registered_moves (hm : Moves s s') {id : String} (h : .registered id ∈ s'.history) :
    .registered id ∈ s.history ∨ (s'.pending? id).isSome := by
  rcases history_moves hm with he | ⟨m, he, hp⟩ <;> rw [he] at h
  · exact Or.inl h
  · rcases mem_append_mark h with h | h
    · exact Or.inl h
    · exact Or.inr (hp id h.symm)

/-- A call under way was under way before, or has just been registered. -/
theorem active_moves (hn : s.Numbered) (hm : Moves s s') {id : String} {call : Call}
    (hg : s'.calls.get? id = some call) (hr : ∀ result, call ≠ .returned result) :
    (∃ call', s.calls.get? id = some call' ∧ ∀ result, call' ≠ .returned result) ∨
      .registered id ∈ s'.history := by
  have hold : ∀ {id' : String} {call' new : Call}, s.calls.get? id' = some call' →
      (∀ result, call' ≠ .returned result) → (s.calls.insert id' new).get? id = some call →
      ∃ call', s.calls.get? id = some call' ∧ ∀ result, call' ≠ .returned result := by
    intro id' call' new hc hne hg
    rw [Table.get?_insert] at hg
    split at hg
    · next he => exact ⟨call', he ▸ hc, hne⟩
    · exact ⟨call, hg, hr⟩
  cases hm with
  | registered =>
    replace hg := (Table.get?_insert s.calls s.nextId .publishing id).symm.trans hg
    split at hg
    · next he => exact Or.inr (he ▸ List.mem_append_right _ List.mem_cons_self)
    · exact Or.inl ⟨call, hg, hr⟩
  | @refused cause hs hc =>
    replace hg := (Table.get?_insert s.calls s.nextId _ id).symm.trans hg
    split at hg
    · cases hg; exact absurd rfl (hr _)
    · exact Or.inl ⟨call, hg, hr⟩
  | published hs => exact Or.inl (hold (hn.publishing _ _ hs) (fun _ h => by cases h) hg)
  | unpublished hs => exact Or.inl (hold (hn.publishing _ _ hs) (fun _ h => by cases h) hg)
  | resolved hv hc =>
    rcases hc with ⟨since, hc⟩ | hc
    · exact Or.inl (hold hc (fun _ h => by cases h) hg)
    · exact Or.inl (hold hc (fun _ h => by cases h) hg)
  | expired hc => exact Or.inl (hold hc (fun _ h => by cases h) hg)
  | withdrawn hc => exact Or.inl (hold hc (fun _ h => by cases h) hg)
  | outrun hc => exact Or.inl (hold hc (fun _ h => by cases h) hg)
  | _ => exact Or.inl ⟨call, hg, hr⟩

theorem accounted_moves (h : s.Accounted) (hn : s.Numbered) (hw : s.Matched) (hm : Moves s s') :
    s'.Accounted := by
  refine ⟨fun id hr => ?_, fun id hr => ?_, fun id call hg hr => ?_⟩
  · rcases registered_moves hm hr with hr | hp
    · rcases h.placed id hr with hp | hh | hs
      · obtain ⟨slot, hp⟩ := Option.isSome_iff_exists.1 hp
        exact (pending_moves hw hm hp).imp (fun hp => hp) And.right
      · exact Or.inr ((held_moves hm hh).imp (fun hh => hh) Or.inl)
      · exact Or.inr (Or.inr (hs.moves hn hm))
    · exact Or.inl hp
  · rcases registered_moves hm hr with hr | hp
    · rcases h.taken id hr with hp | ht
      · obtain ⟨slot, hp⟩ := Option.isSome_iff_exists.1 hp
        exact (pending_moves hw hm hp).imp (fun hp => hp) And.left
      · exact Or.inr (taken_moves hm ht)
    · exact Or.inl hp
  · rcases active_moves hn hm hg hr with ⟨call', hg', hr'⟩ | hreg
    · exact mem_history_moves hm (h.active id call' hg' hr')
    · exact hreg

/-! ## What the end has come to -/

/-- How far the end of the subscription has come. -/
structure Sealing (s : System) : Prop where
  /-- The first cause stays. -/
  cause : s.sealedBy? = s.history.findSome? Mark.seal?
  draining : ∀ cause, s.listener = .draining cause → s.sealedBy?.isSome
  failing : ∀ slots cause, s.listener = .failing slots cause →
    ∃ all, .drained all cause ∈ s.history
  drained : ∀ slots cause, .drained slots cause ∈ s.history →
    s.sealedBy?.isSome ∧ ∀ id, s.pending? id = none
  ended : ∀ cause, .ended cause ∈ s.history → (∃ all, .drained all cause ∈ s.history) ∧
    s.listener.held = []
  /-- Every drained slot is told the cause. -/
  told : ∀ slots cause, .drained slots cause ∈ s.history → ∀ id ∈ slots,
    s.value? id = some (.shutdown cause) ∨
      ∃ rest, s.listener = .failing rest cause ∧ id ∈ rest

theorem Sealing.fresh (timeout : Timeout) : (System.fresh timeout).Sealing := by
  refine ⟨rfl, fun _ h => ?_, fun _ _ h => ?_, fun _ _ h => ?_, fun _ h => ?_, fun _ _ h => ?_⟩
  · cases h
  · cases h
  · cases h
  · cases h
  · cases h

theorem findSome?_append_mark {h : History} {m : Mark} (hm : m.seal? = none) :
    (h ++ [m]).findSome? Mark.seal? = h.findSome? Mark.seal? := by
  rw [List.findSome?_append, List.findSome?_cons, hm]
  exact Option.or_none

/-- A step of a call, or one of the listener between two events. -/
theorem Sealing.of_same (h : s.Sealing) (hs : s'.sealedBy? = s.sealedBy?)
    (hl : s'.listener = s.listener) (hv : ∀ id, s'.value? id = s.value? id)
    (hp : ∀ id, s.pending? id = none → s'.pending? id = none ∨ s.sealedBy? = none)
    (hh : s'.history = s.history ∨ ∃ m, s'.history = s.history ++ [m] ∧ m.ofEnd = false) :
    s'.Sealing := by
  have hcause : s'.history.findSome? Mark.seal? = s.history.findSome? Mark.seal? := by
    rcases hh with hh | ⟨m, hh, hm⟩ <;> rw [hh]
    refine findSome?_append_mark ?_
    cases m with
    | sealed cause => cases hm
    | _ => rfl
  have hmem : ∀ m, m ∈ s.history → m ∈ s'.history := by
    intro m hm
    rcases hh with hh | ⟨m', hh, -⟩ <;> rw [hh]
    · exact hm
    · exact List.mem_append_left _ hm
  have hback : ∀ m, m.ofEnd = true → m ∈ s'.history → m ∈ s.history := by
    intro m hend hm
    rcases hh with hh | ⟨m', hh, hno⟩ <;> rw [hh] at hm
    · exact hm
    · rcases mem_append_mark hm with hm | rfl
      · exact hm
      · rw [hend] at hno; cases hno
  refine ⟨?_, fun cause hc => ?_, fun slots cause hc => ?_, fun slots cause hm => ?_,
    fun cause hm => ?_, fun slots cause hm id hid => ?_⟩
  · rw [hs, h.cause, hcause]
  · rw [hs]; exact h.draining cause (hl ▸ hc)
  · obtain ⟨all, hm⟩ := h.failing slots cause (hl ▸ hc)
    exact ⟨all, hmem _ hm⟩
  · obtain ⟨hseal, hnone⟩ := h.drained slots cause (hback _ rfl hm)
    refine ⟨hs ▸ hseal, fun id => ?_⟩
    rcases hp id (hnone id) with hp | hu
    · exact hp
    · rw [hu] at hseal; cases hseal
  · obtain ⟨⟨all, hd⟩, hheld⟩ := h.ended cause (hback _ rfl hm)
    exact ⟨⟨all, hmem _ hd⟩, by rw [hl]; exact hheld⟩
  · rw [hv, hl]
    exact h.told slots cause (hback _ rfl hm) id hid

theorem Sealing.told_of_idle (h : s.Sealing) (hl : s.listener = .idle) {slots : List String}
    {cause : Shutdown} (hm : .drained slots cause ∈ s.history) {id : String} (hid : id ∈ slots) :
    s.value? id = some (.shutdown cause) := by
  rcases h.told slots cause hm id hid with hv | ⟨rest, hf, -⟩
  · exact hv
  · rw [hl] at hf; cases hf

/-- A reply finds its call: the registry has not been drained. -/
theorem Sealing.matched (h : s.Sealing) {id slot : String} (hp : s.pending? id = some slot)
    (number : Nat) (outcome : Outcome) (properties : Properties) (body : Bytes) :
    Sealing
      { s.withReplies (s.client.replies.take id).2 with
        listener := .answering number slot outcome
        history := s.history ++ [.replied properties body] } := by
  have hno : ∀ slots cause, .drained slots cause ∉ s.history := by
    intro slots cause hm
    rw [(h.drained slots cause hm).2 id] at hp; cases hp
  refine ⟨?_, fun cause hl' => ?_, fun slots cause hl' => ?_, fun slots cause hm => ?_,
    fun cause hm => ?_, fun slots cause hm => ?_⟩
  · exact h.cause.trans (findSome?_append_mark rfl).symm
  · cases hl'
  · cases hl'
  · rcases mem_append_mark hm with hm | hm
    · exact absurd hm (hno slots cause)
    · cases hm
  · rcases mem_append_mark hm with hm | hm
    · obtain ⟨⟨all, hd⟩, -⟩ := h.ended cause hm
      exact absurd hd (hno all cause)
    · cases hm
  · rcases mem_append_mark hm with hm | hm
    · exact absurd hm (hno slots cause)
    · cases hm

theorem Sealing.sealWith (h : s.Sealing) (hl : s.listener = .idle) (cause : Shutdown) :
    (s.sealWith cause).Sealing := by
  refine ⟨?_, fun _ _ => rfl, fun slots cause' hl' => ?_, fun slots cause' hm => ?_,
    fun cause' hm => ?_, fun slots cause' hm id hid => ?_⟩
  · show some (s.sealedBy?.getD cause) = (s.history ++ [Mark.sealed cause]).findSome? Mark.seal?
    rw [List.findSome?_append, ← h.cause]
    cases s.sealedBy? <;> rfl
  · cases hl'
  · rcases mem_append_mark hm with hm | hm
    · exact ⟨rfl, (h.drained slots cause' hm).2⟩
    · cases hm
  · rcases mem_append_mark hm with hm | hm
    · obtain ⟨⟨all, hd⟩, -⟩ := h.ended cause' hm
      exact ⟨⟨all, List.mem_append_left _ hd⟩, rfl⟩
    · cases hm
  · rcases mem_append_mark hm with hm | hm
    · exact Or.inl (h.told_of_idle hl hm hid)
    · cases hm

theorem Sealing.drain (h : s.Sealing) {cause : Shutdown} (hl : s.listener = .draining cause) :
    Sealing
      { s.withReplies { s.client.replies with registry := s.client.replies.registry.drain.2 } with
        listener := .failing s.client.replies.registry.drain.1 cause
        history := s.history ++ [.drained s.client.replies.registry.drain.1 cause] } := by
  refine ⟨?_, fun cause' hl' => ?_, fun slots cause' hf => ?_,
    fun slots cause' hm => ⟨?_, fun _ => rfl⟩, fun cause' hm => ?_,
    fun slots cause' hm id hid => ?_⟩
  · exact h.cause.trans (findSome?_append_mark rfl).symm
  · cases hl'
  · cases hf
    exact ⟨_, List.mem_append_right _ List.mem_cons_self⟩
  · exact h.draining cause hl
  · rcases mem_append_mark hm with hm | hm
    · obtain ⟨⟨all, hd⟩, -⟩ := h.ended cause' hm
      -- The registry has been drained before, so there is nothing left to drain.
      refine ⟨⟨all, List.mem_append_left _ hd⟩, List.eq_nil_iff_forall_not_mem.2 fun slot hs => ?_⟩
      obtain ⟨id, hp⟩ := Registry.mem_drain.1 hs
      have := ((h.drained all cause' hd).2 id).symm.trans hp
      cases this
    · cases hm
  · rcases mem_append_mark hm with hm | hm
    · rcases h.told slots cause' hm id hid with hv | ⟨rest, hf, -⟩
      · exact Or.inl hv
      · rw [hl] at hf; cases hf
    · cases hm
      exact Or.inr ⟨_, rfl, hid⟩

theorem Sealing.answer (h : s.Sealing) {number : Nat} {slot : String} {outcome : Outcome}
    (hl : s.listener = .answering number slot outcome) :
    Sealing { s.fill slot outcome (some number) with listener := .idle } := by
  refine ⟨?_, fun cause hl' => ?_, fun slots cause hl' => ?_, fun slots cause hm => ?_,
    fun cause hm => ?_, fun slots cause hm id hid => ?_⟩
  · exact h.cause.trans (findSome?_append_mark rfl).symm
  · cases hl'
  · cases hl'
  · rcases mem_append_mark hm with hm | hm
    · exact h.drained slots cause hm
    · cases hm
  · rcases mem_append_mark hm with hm | hm
    · obtain ⟨⟨all, hd⟩, -⟩ := h.ended cause hm
      exact ⟨⟨all, List.mem_append_left _ hd⟩, rfl⟩
    · cases hm
  · rcases mem_append_mark hm with hm | hm
    · rcases h.told slots cause hm id hid with hv | ⟨rest, hf, -⟩
      · exact Or.inl (value?_fill_of_some hv slot outcome (some number))
      · rw [hl] at hf; cases hf
    · cases hm

theorem Sealing.fail (h : s.Sealing) (hw : s.Matched) {slot : String} {rest : List String}
    {cause : Shutdown} (hl : s.listener = .failing (slot :: rest) cause) :
    Sealing { s.fill slot (.shutdown cause) none with listener := .failing rest cause } := by
  refine ⟨?_, fun cause' hl' => ?_, fun slots cause' hf => ?_, fun slots cause' hm => ?_,
    fun cause' hm => ?_, fun slots cause' hm id hid => ?_⟩
  · exact h.cause.trans (findSome?_append_mark rfl).symm
  · cases hl'
  · cases hf
    obtain ⟨all, hd⟩ := h.failing _ _ hl
    exact ⟨all, List.mem_append_left _ hd⟩
  · rcases mem_append_mark hm with hm | hm
    · exact h.drained slots cause' hm
    · cases hm
  · rcases mem_append_mark hm with hm | hm
    · have := (h.ended cause' hm).2
      rw [hl] at this; cases this
    · cases hm
  · rcases mem_append_mark hm with hm | hm
    · rcases h.told slots cause' hm id hid with hv | ⟨rest', hf, hin⟩
      · exact Or.inl (value?_fill_of_some hv slot (.shutdown cause) none)
      · rw [hl] at hf
        cases hf
        rcases List.mem_cons.1 hin with rfl | hin
        · refine Or.inl ((value?_fill s id (.shutdown cause) none id).trans ?_)
          rw [if_pos rfl, (hw.held id (by rw [hl]; exact List.mem_cons_self)).2.2]; rfl
        · exact Or.inr ⟨rest, rfl, hin⟩
    · cases hm

theorem Sealing.finish (h : s.Sealing) {cause : Shutdown} (hl : s.listener = .failing [] cause) :
    Sealing { s with listener := .idle, history := s.history ++ [.ended cause] } := by
  refine ⟨?_, fun cause' hl' => ?_, fun slots cause' hl' => ?_, fun slots cause' hm => ?_,
    fun cause' hm => ⟨?_, rfl⟩, fun slots cause' hm id hid => ?_⟩
  · exact h.cause.trans (findSome?_append_mark rfl).symm
  · cases hl'
  · cases hl'
  · rcases mem_append_mark hm with hm | hm
    · exact h.drained slots cause' hm
    · cases hm
  · rcases mem_append_mark hm with hm | hm
    · obtain ⟨⟨all, hd⟩, -⟩ := h.ended cause' hm
      exact ⟨all, List.mem_append_left _ hd⟩
    · cases hm
      obtain ⟨all, hd⟩ := h.failing _ _ hl
      exact ⟨all, List.mem_append_left _ hd⟩
  · rcases mem_append_mark hm with hm | hm
    · rcases h.told slots cause' hm id hid with hv | ⟨rest, hf, hin⟩
      · exact Or.inl hv
      · rw [hl] at hf
        cases hf
        cases hin
    · cases hm

theorem sealing_moves (h : s.Sealing) (hw : s.Matched) (hm : Moves s s') : s'.Sealing := by
  have hpending : ∀ id, s.pending? id = none → s.pending? id = none ∨ s.sealedBy? = none :=
    fun _ => Or.inl
  have htake : ∀ id k, s.pending? k = none →
      (s.withReplies (s.client.replies.take id).2).pending? k = none ∨ s.sealedBy? = none := by
    intro id k hn
    rw [pending?_take, hn, ite_self]
    exact Or.inl rfl
  cases hm with
  | stayed => exact h
  | staged hr hi ht hp =>
    refine h.of_same ?_ rfl (fun id => ?_) (fun id hn => Or.inl ?_) (Or.inl rfl)
    · rw [sealedBy?, hr]; rfl
    · rw [value?, hr]; rfl
    · rw [pending?, hr]; exact hn
  | registered hs hu =>
    refine h.of_same ?_ rfl (value?_enroll s) (fun _ _ => Or.inr hu) (Or.inr ⟨_, rfl, rfl⟩)
    exact (Replies.register_of_unsealed hu s.nextId s.nextId).2.1.trans hu.symm
  | refused hs hc =>
    refine h.of_same (congrArg Registry.sealedBy (registry_enroll hc)) rfl (value?_enroll s)
      (fun id hn => Or.inl ?_) (Or.inl rfl)
    rw [pending?, show _ = _ from registry_enroll hc]; exact hn
  | @unpublished id m e hs he =>
    exact h.of_same rfl rfl (fun _ => rfl) (htake id) (Or.inr ⟨_, rfl, rfl⟩)
  | matched hl hc hp => exact h.matched hp _ _ _ _
  | dropped => exact h.of_same rfl rfl (fun _ => rfl) hpending (Or.inr ⟨_, rfl, rfl⟩)
  | sealed hl => exact h.sealWith hl _
  | drained hl => exact h.drain hl
  | answered hl => exact h.answer hl
  | failed hl => exact h.fail hw hl
  | ended hl => exact h.finish hl
  | @withdrawn id slot waited hc hp =>
    exact h.of_same rfl rfl (fun _ => rfl) (htake id) (Or.inr ⟨_, rfl, rfl⟩)
  | _ => exact h.of_same rfl rfl (fun _ => rfl) hpending (Or.inl rfl)

/-! ## Every run -/

theorem run_accounted (timeout : Timeout) (labels : List Label) :
    ((fresh timeout).run labels).Accounted ∧ ((fresh timeout).run labels).Sealing := by
  have hrun := run_induct (P := fun s => (s.Numbered ∧ s.Matched) ∧ s.Accounted ∧ s.Sealing)
    (fun s s' hm h => ?_) labels _ ⟨run_matched timeout [], .fresh timeout, .fresh timeout⟩
  · exact hrun.2
  · obtain ⟨⟨hn, hw⟩, ha, h⟩ := h
    exact ⟨⟨numbered_moves hn hm, matched_moves hw hn hm⟩, accounted_moves ha hn hw hm,
      sealing_moves h hw hm⟩

theorem mem_history_run {m : Mark} (h : m ∈ s.history) (labels : List Label) :
    m ∈ (s.run labels).history :=
  run_induct (P := fun s => m ∈ s.history) (fun _ _ hm => mem_history_moves hm) labels s h

/-- The cause that sealed the registry first is the one that stays. -/
theorem sealedBy?_moves (hm : Moves s s') {cause : Shutdown} (h : s.sealedBy? = some cause) :
    s'.sealedBy? = some cause := by
  cases hm with
  | staged hr => rw [sealedBy?, hr]; exact h
  | registered hs hu => rw [hu] at h; cases h
  | refused hs hc => exact (congrArg Registry.sealedBy (registry_enroll hc)).trans h
  | sealed =>
    show some (s.sealedBy?.getD _) = _
    rw [h]; rfl
  | _ => exact h

theorem sealedBy?_run {cause : Shutdown} (h : s.sealedBy? = some cause) (labels : List Label) :
    (s.run labels).sealedBy? = some cause :=
  run_induct (P := fun s => s.sealedBy? = some cause) (fun _ _ hm => sealedBy?_moves hm) labels s h

/-! ## The end comes -/

/-- The end of a subscription seals the registry, and the listener goes on to drain it. -/
theorem receive_of_end (hl : s.listener = .idle) {tag : String} {event : Event} {cause : Shutdown}
    (he : event.mark tag = .sealed cause) : s.receive tag event = s.sealWith cause := by
  simp only [receive, hl]
  cases event with
  | delivery => cases he
  | shutdown => cases he; rfl
  | cancelled => cases he; rfl

/-- The registry is sealed, and the listener has yet to drain it or to tell all drained slots. -/
def Ending (s : System) (cause : Shutdown) : Prop :=
  s.sealedBy?.isSome ∧
    (s.listener = .draining cause ∨ ∃ slots, s.listener = .failing slots cause)

/-- How many steps of the listener it takes to the end. -/
def toGo (s : System) : Nat :=
  match s.listener with
  | .draining _ => s.client.pendingCalls + 2
  | .failing slots _ => slots.length + 1
  | .idle | .answering .. => 0

namespace Ending

variable {cause : Shutdown}

theorem toGo_pos (h : s.Ending cause) : 0 < s.toGo := by
  obtain ⟨-, hl | ⟨slots, hl⟩⟩ := h <;> simp only [toGo, hl] <;> omega

/-- A step that leaves the listener alone and enters no call. -/
theorem of_same (h : s.Ending cause) (hl : s'.listener = s.listener)
    (hs : s'.sealedBy? = s.sealedBy?) (hp : s'.client.pendingCalls ≤ s.client.pendingCalls) :
    s'.Ending cause ∧ s'.toGo ≤ s.toGo := by
  refine ⟨⟨hs ▸ h.1, hl ▸ h.2⟩, ?_⟩
  unfold toGo
  rw [hl]
  split <;> omega

/-- Every step of the listener brings the end closer. -/
theorem listen (h : s.Ending cause) :
    .ended cause ∈ s.listen.history ∨ s.listen.Ending cause ∧ s.listen.toGo < s.toGo := by
  obtain ⟨hs, hl | ⟨slots, hl⟩⟩ := h
  · have hd : s.client.replies.registry.drain.1.length = s.client.pendingCalls := List.length_map _
    simp only [System.listen, hl]
    refine Or.inr ⟨⟨hs, Or.inr ⟨_, rfl⟩⟩, ?_⟩
    simp only [toGo, hl]
    omega
  · cases slots with
    | nil =>
      simp only [System.listen, hl]
      exact Or.inl (List.mem_append_right _ List.mem_cons_self)
    | cons slot rest =>
      simp only [System.listen, hl]
      refine Or.inr ⟨⟨hs, Or.inr ⟨rest, rfl⟩⟩, ?_⟩
      simp only [toGo, hl, List.length_cons]
      omega

/-- No step of anybody else puts the end off: calls still leave the registry, but none enters. -/
theorem moves (h : s.Ending cause) (hm : Moves s s') :
    .ended cause ∈ s'.history ∨ s'.Ending cause ∧ s'.toGo ≤ s.toGo := by
  have hlisten : ∀ {t : System}, s.listen = t →
      .ended cause ∈ t.history ∨ t.Ending cause ∧ t.toGo ≤ s.toGo := by
    rintro _ rfl
    exact h.listen.imp (fun he => he) fun he => ⟨he.1, Nat.le_of_lt he.2⟩
  have hbusy : s.listener ≠ .idle ∧ ∀ number slot outcome,
      s.listener ≠ .answering number slot outcome := by
    obtain ⟨-, hl | ⟨slots, hl⟩⟩ := h <;> rw [hl] <;> exact ⟨nofun, nofun⟩
  have htake : ∀ id, (s.withReplies (s.client.replies.take id).2).client.pendingCalls ≤
      s.client.pendingCalls := fun id => List.length_filter_le _ _
  cases hm with
  | staged hr =>
    exact Or.inr (h.of_same rfl (congrArg (·.registry.sealedBy) hr)
      (Nat.le_of_eq (congrArg (·.registry.size) hr)))
  | registered hs hu =>
    have hsealed := h.1
    rw [hu] at hsealed
    cases hsealed
  | refused hs hc =>
    exact Or.inr (h.of_same rfl (congrArg Registry.sealedBy (registry_enroll hc))
      (Nat.le_of_eq (congrArg Registry.size (registry_enroll hc))))
  | @unpublished id m e hs he => exact Or.inr (h.of_same rfl rfl (htake id))
  | matched hl => exact absurd hl hbusy.1
  | sealed hl => exact absurd hl hbusy.1
  | drained hl => exact hlisten (by rw [System.listen, hl])
  | answered hl => exact absurd hl (hbusy.2 _ _ _)
  | failed hl => exact hlisten (by rw [System.listen, hl])
  | ended hl => exact hlisten (by rw [System.listen, hl])
  | @withdrawn id slot waited hc hp => exact Or.inr (h.of_same rfl rfl (htake id))
  | _ => exact Or.inr (h.of_same rfl rfl (Nat.le_refl _))

/-- **The end comes.** Whatever else happens, enough steps of the listener deal with the end. -/
theorem run {more : List Label} :
    ∀ {s : System}, s.Ending cause → s.toGo ≤ more.countP Label.isListen →
      .ended cause ∈ (s.run more).history := by
  induction more with
  | nil =>
    intro s h hn
    have := h.toGo_pos
    rw [List.countP_nil] at hn
    omega
  | cons label rest ih =>
    intro s h hn
    rw [run_cons]
    cases hlabel : label.isListen with
    | true =>
      cases label with
      | listen =>
        rw [List.countP_cons_of_pos hlabel] at hn
        rcases h.listen with he | ⟨h', hlt⟩
        · exact mem_history_run he rest
        · have hle : s.listen.toGo ≤ rest.countP Label.isListen := by omega
          exact ih h' hle
      | _ => cases hlabel
    | false =>
      rw [List.countP_cons_of_neg (by simp [hlabel])] at hn
      rcases h.moves (step_moves s label) with he | ⟨h', hle⟩
      · exact mem_history_run he rest
      · exact ih h' (Nat.le_trans hle hn)

end Ending

theorem start_of_sealed {cause : Shutdown} (hc : s.sealedBy? = some cause) (hs : s.stage = none)
    (ho : s.client.isOpen = true) (m : Message) :
    (s.step (.start (.calling m))).client.replies.registry = s.client.replies.registry ∧
      (s.step (.start (.calling m))).history = s.history ∧
      (s.step (.start (.calling m))).calls.get? s.nextId =
        some (.returned (.error (.transportShutdown cause))) := by
  simp only [step, start, hs]
  rcases start_cases s (.calling m) with ⟨_, -, -, hn⟩ | ⟨_, hu, -⟩ | ⟨cause', hc', h⟩
  · exact absurd rfl (hn ho m)
  · rw [hc] at hu; cases hu
  · rw [hc] at hc'
    cases hc'
    have hne : s.enroll.client.lastId ≠ s.client.lastId := Nat.succ_ne_self _
    rw [h]
    dsimp only
    rw [if_neg hne]
    exact ⟨registry_enroll hc, rfl, Table.get?_insert_self _ _ _⟩

theorem look_of_value {id : String} {outcome : Outcome} (hv : s.value? id = some outcome)
    (hc : (∃ since, s.calls.get? id = some (.waiting since)) ∨ s.calls.get? id = some .resolving) :
    s.look id = { s with calls := s.calls.insert id (.returned outcome.toResult) } := by
  rcases hc with ⟨since, hc⟩ | hc
  · simp only [look, hc, Slot.look_of_set hv]
  · have ht : (s.client.replies.slot id).tryGet = some outcome := hv
    simp only [look, hc, ht]

theorem look_of_returned {id : String} {result : Except CallError Bytes}
    (hc : s.calls.get? id = some (.returned result)) : s.look id = s := by
  simp only [look, hc]

theorem look_of_outrun {id : String} {waited : Duration}
    (hc : s.calls.get? id = some (.withdrawing waited)) (hp : s.pending? id = none) :
    s.look id = { s with calls := s.calls.insert id .resolving } := by
  simp only [look, hc, Replies.take_of_absent hp]
  rfl

/-- Once the end has been dealt with, nobody but the calls themselves has a slot to care for. -/
theorem Accounted.settled (h : s.Accounted) (hs : s.Sealing) {cause : Shutdown}
    (he : .ended cause ∈ s.history) {id : String} (hr : .registered id ∈ s.history) :
    s.Settled id := by
  obtain ⟨⟨all, hd⟩, hheld⟩ := hs.ended cause he
  rcases h.placed id hr with hp | hh | hsettled
  · rw [(hs.drained all cause hd).2 id] at hp; cases hp
  · rw [hheld] at hh; cases hh
  · exact hsettled

theorem Settled.value {id : String} (h : s.Settled id) {call : Call}
    (hc : s.calls.get? id = some call) (hr : ∀ result, call ≠ .returned result) :
    ∃ outcome, s.value? id = some outcome := by
  rcases h with hv | ⟨waited, hret⟩ | ⟨e, -, hret⟩
  · exact Option.isSome_iff_exists.1 hv
  · rw [hc] at hret
    exact absurd (Option.some.inj hret) (hr _)
  · rw [hc] at hret
    exact absurd (Option.some.inj hret) (hr _)

/-- **No call hangs.** Once the end has been dealt with, two looks are enough for any call whose
request has been answered. -/
theorem run_returns {timeout : Timeout} {labels : List Label} {s : System} {cause : Shutdown}
    {id : String} {call : Call} (hs : s = (fresh timeout).run labels)
    (he : .ended cause ∈ s.history) (hc : s.calls.get? id = some call) (hp : call ≠ .publishing) :
    ∃ result, (s.run [.look id, .look id]).calls.get? id = some (.returned result) := by
  subst hs
  obtain ⟨ha, hseal⟩ := run_accounted timeout labels
  generalize (fresh timeout).run labels = s at *
  have hvalue : (∀ result, call ≠ .returned result) → ∃ outcome, s.value? id = some outcome :=
    fun hr => (ha.settled hseal he (ha.active id call hc hr)).value hc hr
  show ∃ result, ((s.look id).look id).calls.get? id = some (.returned result)
  cases call with
  | publishing => exact absurd rfl hp
  | waiting since =>
    obtain ⟨outcome, hv⟩ := hvalue fun _ h => by cases h
    rw [look_of_value hv (Or.inl ⟨since, hc⟩), look_of_returned (Table.get?_insert_self _ _ _)]
    exact ⟨_, Table.get?_insert_self _ _ _⟩
  | withdrawing waited =>
    obtain ⟨outcome, hv⟩ := hvalue fun _ h => by cases h
    obtain ⟨⟨all, hd⟩, -⟩ := hseal.ended cause he
    have hv' : System.value? { s with calls := s.calls.insert id .resolving } id =
        some outcome := hv
    rw [look_of_outrun hc ((hseal.drained all cause hd).2 id),
      look_of_value hv' (Or.inr (Table.get?_insert_self _ _ _))]
    exact ⟨_, Table.get?_insert_self _ _ _⟩
  | resolving =>
    obtain ⟨outcome, hv⟩ := hvalue fun _ h => by cases h
    rw [look_of_value hv (Or.inr hc), look_of_returned (Table.get?_insert_self _ _ _)]
    exact ⟨_, Table.get?_insert_self _ _ _⟩
  | returned result =>
    rw [look_of_returned hc, look_of_returned hc]
    exact ⟨result, hc⟩

/-- **No call is stranded.** Run a client in any order of steps, and then further.
* The end of the subscription seals the registry, and once the listener has taken a step to drain
  it, one for each call then pending and a last one, the end has been dealt with, whatever else
  happens in between.
* Once the end of the subscription has been dealt with, the registry is empty and sealed for
  good, with the cause that sealed it first, and every call that was ever registered has its
  slot filled, has timed out, or has returned the error of its own failed publishing. Two looks
  are then enough for a call whose request has been answered to return.
* What is drained is every registered call that nobody has taken before, and every drained slot
  is told the cause.
* A call on a sealed registry registers nothing and returns the cause. -/
theorem run_none_stranded (timeout : Timeout) (labels more : List Label) :
    let s := (fresh timeout).run labels
    let s' := s.run more
    (∀ tag event cause, event.mark tag = .sealed cause → s.listener = .idle →
        let ending := s.step (.event tag event)
        ending.listener = .draining cause ∧ ending.history = s.history ++ [.sealed cause] ∧
          ending.sealedBy? = some (s.sealedBy?.getD cause) ∧
          (s.client.pendingCalls + 2 ≤ more.countP Label.isListen →
            .ended cause ∈ (ending.run more).history)) ∧
      (∀ cause, s.listener = .draining cause →
        s.client.pendingCalls + 2 ≤ more.countP Label.isListen → .ended cause ∈ s'.history) ∧
      (∀ cause, .ended cause ∈ s.history →
        (∀ id, s'.pending? id = none) ∧
          (∃ first, s.history.findSome? Mark.seal? = some first ∧ s'.sealedBy? = some first) ∧
          (∀ id, .registered id ∈ s'.history → s'.Settled id) ∧
          ∀ id call, s'.calls.get? id = some call → call ≠ .publishing →
            ∃ result, (s'.run [.look id, .look id]).calls.get? id = some (.returned result)) ∧
      (∀ cause, s.listener = .draining cause →
        ∃ slots, (s.step .listen).listener = .failing slots cause ∧
          ∀ id, .registered id ∈ s.history → id ∈ slots ∨ Taken s.history id) ∧
      (∀ slots cause, .drained slots cause ∈ s.history → ∀ id ∈ slots,
        s.value? id = some (.shutdown cause) ∨
          ∃ rest, s.listener = .failing rest cause ∧ id ∈ rest) ∧
      ∀ cause m, s.sealedBy? = some cause → s.stage = none → s.client.isOpen = true →
        (s.step (.start (.calling m))).client.replies.registry = s.client.replies.registry ∧
          (s.step (.start (.calling m))).history = s.history ∧
          (s.step (.start (.calling m))).calls.get? s.nextId =
            some (.returned (.error (.transportShutdown cause))) := by
  obtain ⟨-, hw⟩ := run_matched timeout labels
  obtain ⟨ha, hs⟩ := run_accounted timeout labels
  obtain ⟨ha', hs'⟩ := run_accounted timeout (labels ++ more)
  rw [run_append] at ha' hs'
  refine ⟨fun tag event cause hm hl => ?_, fun cause hl hn => ?_, fun cause he => ?_,
    fun cause hl => ?_, hs.told, fun cause m hc hst ho => start_of_sealed hc hst ho m⟩
  · rw [step, receive_of_end hl hm]
    exact ⟨rfl, rfl, rfl, fun hn => Ending.run ⟨rfl, Or.inl rfl⟩ hn⟩
  · refine Ending.run ⟨hs.draining cause hl, Or.inl hl⟩ ?_
    rw [toGo, hl]
    exact hn
  · have he' := mem_history_run he more
    obtain ⟨⟨all, hd⟩, -⟩ := hs.ended cause he
    obtain ⟨first, hf⟩ := Option.isSome_iff_exists.1 (hs.drained all cause hd).1
    exact ⟨(hs'.drained all cause (mem_history_run hd more)).2,
      ⟨first, hs.cause.symm.trans hf, sealedBy?_run hf more⟩,
      fun id hr => ha'.settled hs' he' hr,
      fun id call hc hp => run_returns (run_append _ labels more).symm he' hc hp⟩
  · refine ⟨((fresh timeout).run labels).client.replies.registry.drain.1, ?_, fun id hr => ?_⟩
    · rw [step, listen, hl]
    · exact (ha.taken id hr).imp hw.mem_drain.2 fun ht => ht

/-- The subscription is cancelled under a call, and another call comes before the drain. -/
def cancelledUnderCall : List Label :=
  [.start .opening, .answer (.ok "q"), .answer (.ok "t"),
    .start (.calling { routingKey := "work" }), .answer (.ok ""), .event "t" .cancelled,
    .start (.calling { routingKey := "work" })]

/-- Three steps of the listener deal with the end, and both calls return the cause. -/
theorem run_none_stranded_cancelled :
    let s := (fresh .infinite).run cancelledUnderCall
    let s' := s.run [.listen, .listen, .listen]
    .ended (.consumerCancelled "t") ∈ s'.history ∧ s'.Settled "1" ∧
      (∃ result, (s'.run [.look "1", .look "1"]).calls.get? "1" = some (.returned result)) ∧
      s.calls.get? "2" =
        some (.returned (.error (.transportShutdown (.consumerCancelled "t")))) := by
  obtain ⟨-, hends, -⟩ :=
    run_none_stranded .infinite cancelledUnderCall [.listen, .listen, .listen]
  have he := hends (.consumerCancelled "t") rfl (Nat.le_refl 3)
  obtain ⟨-, -, hended, -⟩ :=
    run_none_stranded .infinite (cancelledUnderCall ++ [.listen, .listen, .listen]) []
  obtain ⟨-, -, hsettled, hreturns⟩ := hended _ he
  exact ⟨he, hsettled "1" (by decide), hreturns "1" _ rfl (by simp), rfl⟩

end System

end BrokeredRpc.Client
