import BrokeredRpc.Proofs.Client.Stranding

/-!
# What makes a call return

A call returns in one of four ways (`Returns`): the registry refuses it, the
broker refuses its request, it finds its slot filled, or its wait is over and it
takes its slot back. A slot is filled by a reply or by the end of the
subscription, and by nothing else (`value?_source`).

* `turns_step`: at most one call goes on with a step, and how;
* `returned_step`: the four ways to return are all there are;
* `run_engaged`: a call that is registered is under way, and one that has timed
  out is never told anything afterwards;
* `run_caused`: what the listener tells, the registry has been sealed with.
-/
namespace BrokeredRpc

/-- What a caller is told when the broker refuses its request. -/
def CallError.ofRefusal : TransportError → CallError
  | .channelClosed cause => .transportShutdown cause
  | e => .transport e

theorem Outcome.toResult_ne_timeout (outcome : Outcome) (id : String) (waited : Duration) :
    outcome.toResult ≠ .error (.timeout id waited) := by
  cases outcome with
  | success => nofun
  | shutdown => nofun
  | exception kind => cases kind <;> nofun

namespace Client.System

variable {s s' : System} {id : String}

/-! ## What the steps of a client leave -/

/-- Events, and what follows from them, touch neither the lifecycle nor the operation under
way. -/
theorem frame_receive (s : System) (tag : String) (event : Event) :
    (s.receive tag event).client.lifecycle = s.client.lifecycle ∧
      (s.receive tag event).stage = s.stage := by
  unfold receive
  split
  · split
    · unfold reply
      split
      · exact ⟨rfl, rfl⟩
      · split <;> exact ⟨rfl, rfl⟩
    · exact ⟨rfl, rfl⟩
    · exact ⟨rfl, rfl⟩
  · exact ⟨rfl, rfl⟩

theorem frame_listen (s : System) :
    s.listen.client.lifecycle = s.client.lifecycle ∧ s.listen.stage = s.stage := by
  unfold listen
  split <;> exact ⟨rfl, rfl⟩

theorem frame_look (s : System) (id : String) :
    (s.look id).client.lifecycle = s.client.lifecycle ∧ (s.look id).stage = s.stage := by
  unfold look
  split
  · split <;> exact ⟨rfl, rfl⟩
  · split <;> exact ⟨rfl, rfl⟩
  · split <;> exact ⟨rfl, rfl⟩
  · exact ⟨rfl, rfl⟩

/-- An operation is under way until its request is answered. -/
theorem stage_step {stage : Stage} (hs : s.stage = some stage) {label : Label}
    (hl : ∀ a, label ≠ .answer a) : (s.step label).stage = some stage := by
  cases label with
  | start op => simp only [step, start, hs]
  | answer a => exact absurd rfl (hl a)
  | event tag event => exact (s.frame_receive tag event).2.trans hs
  | listen => exact s.frame_listen.2.trans hs
  | look id => exact (s.frame_look id).2.trans hs
  | tick nanos => exact hs

theorem listener_start (s : System) (op : Operation) : (s.start op).listener = s.listener := by
  unfold start
  split
  · rfl
  · split
    · rfl
    · rfl
    · split <;> rfl
    · rfl
    · rfl

theorem listener_answer (s : System) (a : Except TransportError String) :
    (s.answer a).listener = s.listener := by
  unfold answer
  split
  · rfl
  · split <;> rfl
  · split <;> rfl

theorem listener_look (s : System) (id : String) : (s.look id).listener = s.listener := by
  unfold look
  split
  · split <;> rfl
  · split <;> rfl
  · split <;> rfl
  · rfl

/-! ## Results -/

/-- The ways in which a step makes a call return. -/
inductive Returns (s : System) (label : Label) (id : String) : Except CallError Bytes → Prop
  | refused {cause : Shutdown} (hc : s.sealedBy? = some cause) :
      Returns s label id (.error (.transportShutdown cause))
  | unpublished {m : Message} {e : TransportError} (hl : label = .answer (.error e))
      (hs : s.stage = some (.publishing id m)) : Returns s label id (.error (.ofRefusal e))
  | resolved {outcome : Outcome} (hv : s.value? id = some outcome) :
      Returns s label id outcome.toResult
  | withdrawn {slot : String} {waited : Duration} (hl : label = .look id)
      (hc : s.calls.get? id = some (.withdrawing waited)) (hp : s.pending? id = some slot) :
      Returns s label id (.error (.timeout id waited))

theorem answer_refused {m : Message} (hs : s.stage = some (.publishing id m))
    (e : TransportError) : s.answer (.error e) =
      { s.withReplies (s.client.replies.take id).2 with
        stage := none
        calls := s.calls.insert id (.returned (.error (.ofRefusal e)))
        history := s.history ++ [.unpublished id (.ofRefusal e)] } := by
  simp only [answer, hs]
  cases e <;> rfl

theorem look_withdrawn {slot : String} {waited : Duration}
    (hc : s.calls.get? id = some (.withdrawing waited)) (hp : s.pending? id = some slot) :
    s.look id =
      { s.withReplies (s.client.replies.take id).2 with
        calls := s.calls.insert id (.returned (.error (.timeout id waited)))
        history := s.history ++ [.timedOut id] } := by
  have ht : s.client.replies.take id = (some slot, (s.client.replies.take id).2) :=
    Prod.ext hp rfl
  rw [look, hc]
  dsimp only
  rw [ht]

theorem calls_answer_other (hs : ∀ id m, s.stage ≠ some (.publishing id m))
    (a : Except TransportError String) : (s.answer a).calls = s.calls := by
  unfold answer
  split
  · rfl
  · next id m h => exact absurd h (hs id m)
  · split <;> rfl

theorem calls_receive (s : System) (tag : String) (event : Event) :
    (s.receive tag event).calls = s.calls := by
  unfold receive
  split
  · split
    · unfold reply
      split
      · rfl
      · split <;> rfl
    · rfl
    · rfl
  · rfl

theorem calls_listen (s : System) : s.listen.calls = s.calls := by
  unfold listen
  split <;> rfl

/-- How a step brings a call on. -/
inductive Turns (s : System) (label : Label) : String → Call → Prop
  | begun {m : Message} (hs : (s.step label).stage = some (.publishing s.nextId m)) :
      Turns s label s.nextId .publishing
  | published {id : String} {since : Nat} : Turns s label id (.waiting since)
  | expired {id : String} {waited : Duration} : Turns s label id (.withdrawing waited)
  | outrun {id : String} : Turns s label id .resolving
  | returned {id : String} {result : Except CallError Bytes} (hr : Returns s label id result) :
      Turns s label id (.returned result)

/-- At most one call goes on with a step. -/
def OneTurns (s : System) (label : Label) : Prop :=
  (s.step label).calls = s.calls ∨
    ∃ id call, Turns s label id call ∧ (s.step label).calls = s.calls.insert id call

theorem turns_start (s : System) (op : Operation) : OneTurns s (.start op) := by
  cases hs : s.stage with
  | some stage => exact Or.inl (by simp only [step, start, hs])
  | none =>
    rcases start_cases s op with ⟨progress, he, hp, -⟩ | ⟨m, -, he⟩ | ⟨cause, hc, he⟩
    · refine Or.inl ?_
      simp only [step, start, hs, he]
      cases progress with
      | asking stage =>
        cases stage
        case publishing id m => exact absurd rfl (hp id m)
        all_goals rfl
      | failed e =>
        dsimp only
        rw [if_pos rfl]
      | done => rfl
      | waiting => rfl
    · have hstage : (s.step (.start op)).stage = some (.publishing s.nextId m) := by
        simp only [step, start, hs, he]
      refine Or.inr ⟨s.nextId, _, .begun hstage, ?_⟩
      simp only [step, start, hs, he]
    · have hne : s.enroll.client.lastId ≠ s.client.lastId := Nat.succ_ne_self _
      refine Or.inr ⟨s.nextId, _, .returned (.refused hc), ?_⟩
      simp only [step, start, hs, he]
      exact congrArg System.calls (if_neg hne)

theorem turns_answer (s : System) (a : Except TransportError String) :
    OneTurns s (.answer a) := by
  by_cases hs : ∃ id m, s.stage = some (.publishing id m)
  · obtain ⟨id, m, hs⟩ := hs
    refine Or.inr ⟨id, ?_⟩
    cases a with
    | ok name =>
      refine ⟨.waiting s.now, .published, ?_⟩
      simp only [step, answer, hs, Except.map]
      rfl
    | error e => exact ⟨_, .returned (.unpublished rfl hs), by rw [step, answer_refused hs]⟩
  · exact Or.inl (calls_answer_other (fun id m h => hs ⟨id, m, h⟩) a)

theorem turns_look (s : System) (id : String) : OneTurns s (.look id) := by
  show (s.look id).calls = s.calls ∨
    ∃ id' call, Turns s (.look id) id' call ∧ (s.look id).calls = s.calls.insert id' call
  unfold look
  split
  · next since hc =>
    cases hv : s.value? id with
    | none =>
      rcases Slot.look_of_empty hv s.client.timeout since s.now with hl | ⟨_, -, -, hl⟩ <;> rw [hl]
      · exact Or.inl rfl
      · exact Or.inr ⟨id, _, .expired, rfl⟩
    | some outcome =>
      rw [Slot.look_of_set hv]
      exact Or.inr ⟨id, _, .returned (.resolved hv), rfl⟩
  · next waited hc =>
    cases hp : s.pending? id with
    | none =>
      rw [Replies.take_of_absent hp]
      exact Or.inr ⟨id, _, .outrun, rfl⟩
    | some slot =>
      have ht : s.client.replies.take id = (some slot, (s.client.replies.take id).2) :=
        Prod.ext hp rfl
      rw [ht]
      exact Or.inr ⟨id, _, .returned (.withdrawn rfl hc hp), rfl⟩
  · split
    · exact Or.inl rfl
    · next outcome hv => exact Or.inr ⟨id, _, .returned (.resolved hv), rfl⟩
  · exact Or.inl rfl

/-- **Turns.** A step leaves the calls as they are, or one of them goes on. -/
theorem turns_step (s : System) (label : Label) : OneTurns s label := by
  cases label with
  | start op => exact turns_start s op
  | answer a => exact turns_answer s a
  | event tag event => exact Or.inl (calls_receive s tag event)
  | listen => exact Or.inl (calls_listen s)
  | look id => exact turns_look s id
  | tick nanos => exact Or.inl rfl

theorem call_step {label : Label} {call : Call} (h : (s.step label).calls.get? id = some call) :
    s.calls.get? id = some call ∨ Turns s label id call := by
  rcases turns_step s label with he | ⟨id', call', ht, he⟩ <;> rw [he] at h
  · exact Or.inl h
  · rw [Table.get?_insert] at h
    split at h
    · next hid =>
      cases h
      exact Or.inr (hid ▸ ht)
    · exact Or.inl h

/-- **Results.** A call that has returned had returned before, or returns with this step. -/
theorem returned_step {label : Label} {result : Except CallError Bytes}
    (h : (s.step label).calls.get? id = some (.returned result)) :
    s.calls.get? id = some (.returned result) ∨ Returns s label id result := by
  rcases call_step h with h | ht
  · exact Or.inl h
  · cases ht with
    | returned hr => exact Or.inr hr

/-- How a call goes on. -/
inductive Goes : Call → Call → Prop
  | published {since : Nat} : Goes .publishing (.waiting since)
  | unpublished {result : Except CallError Bytes} : Goes .publishing (.returned result)
  | expired {since : Nat} {waited : Duration} : Goes (.waiting since) (.withdrawing waited)
  | found {since : Nat} {result : Except CallError Bytes} :
      Goes (.waiting since) (.returned result)
  | withdrawn {waited : Duration} {result : Except CallError Bytes} :
      Goes (.withdrawing waited) (.returned result)
  | outrun {waited : Duration} : Goes (.withdrawing waited) .resolving
  | resolved {result : Except CallError Bytes} : Goes .resolving (.returned result)

theorem Goes.ne_publishing {call call' : Call} (h : Goes call call') : call' ≠ .publishing := by
  rintro rfl
  cases h

/-- **One call.** A step leaves a call as it is, or the call goes on. -/
theorem call_moves (hn : s.Numbered) (hm : Moves s s') {call : Call}
    (hc : s.calls.get? id = some call) :
    ∃ call', s'.calls.get? id = some call' ∧ (call' = call ∨ Goes call call') := by
  have hset : ∀ {id' : String} {old new : Call}, s.calls.get? id' = some old → Goes old new →
      ∃ call', (s.calls.insert id' new).get? id = some call' ∧ (call' = call ∨ Goes call call') := by
    intro id' old new hold hgoes
    rw [Table.get?_insert]
    split
    · next he =>
      subst he
      obtain rfl := Option.some.inj (hold.symm.trans hc)
      exact ⟨new, rfl, Or.inr hgoes⟩
    · exact ⟨call, hc, Or.inl rfl⟩
  have hnew : ∀ {new : Call},
      ∃ call', (s.calls.insert s.nextId new).get? id = some call' ∧
        (call' = call ∨ Goes call call') := by
    intro new
    exact ⟨call, (Table.get?_insert _ _ _ _).trans ((if_neg (hn.nextId_ne hc)).trans hc),
      Or.inl rfl⟩
  cases hm with
  | registered => exact hnew
  | refused => exact hnew
  | published hs => exact hset (hn.publishing _ _ hs) .published
  | unpublished hs => exact hset (hn.publishing _ _ hs) .unpublished
  | resolved hv hold =>
    rcases hold with ⟨since, hold⟩ | hold
    · exact hset hold .found
    · exact hset hold .resolved
  | expired hold => exact hset hold .expired
  | withdrawn hold => exact hset hold .withdrawn
  | outrun hold => exact hset hold .outrun
  | _ => exact ⟨call, hc, Or.inl rfl⟩

/-! ## What slots are filled with -/

/-- What a slot holds, it held before, or a reply has brought it, or the end of the
subscription. -/
theorem value?_source (hm : Moves s s') {outcome : Outcome} (hv : s'.value? id = some outcome) :
    s.value? id = some outcome ∨ (∃ number, s.listener = .answering number id outcome) ∨
      ∃ rest cause, s.listener = .failing (id :: rest) cause ∧ outcome = .shutdown cause := by
  have hfill : ∀ (reply : Option Nat) {slot : String} {o : Outcome},
      (s.fill slot o reply).value? id = some outcome →
      s.value? id = some outcome ∨ slot = id ∧ o = outcome := by
    intro reply slot o h
    rw [value?_fill] at h
    split at h
    · next he =>
      subst he
      cases hold : s.value? slot with
      | none =>
        rw [hold] at h
        exact Or.inr ⟨rfl, Option.some.inj h⟩
      | some old =>
        rw [hold] at h
        exact Or.inl h
    · exact Or.inl h
  cases hm with
  | staged hr =>
    rw [value?, hr] at hv
    exact Or.inl hv
  | registered => exact Or.inl ((value?_enroll s id).symm.trans hv)
  | refused => exact Or.inl ((value?_enroll s id).symm.trans hv)
  | @answered number slot o hl =>
    rcases hfill (some number) hv with h | ⟨rfl, rfl⟩
    · exact Or.inl h
    · exact Or.inr (Or.inl ⟨number, hl⟩)
  | @failed slot rest cause hl =>
    rcases hfill none hv with h | ⟨rfl, rfl⟩
    · exact Or.inl h
    · exact Or.inr (Or.inr ⟨rest, cause, hl, rfl⟩)
  | _ => exact Or.inl hv

/-- The reply that the listener is about to hand over, it was at before, or has just taken. -/
theorem answering_step {label : Label} {number : Nat} {slot : String} {outcome : Outcome}
    (h : (s.step label).listener = .answering number slot outcome) :
    s.listener = .answering number slot outcome ∨ ∃ tag d id, label = .event tag (.delivery d) ∧
      d.properties.correlationId = some id ∧ s.pending? id = some slot ∧
      outcome = .ofReply d.properties d.body := by
  cases label with
  | start op => exact Or.inl ((listener_start s op).symm.trans h)
  | answer a => exact Or.inl ((listener_answer s a).symm.trans h)
  | event tag event =>
    simp only [step, receive] at h
    split at h
    · next hl =>
      split at h
      · next d =>
        unfold reply at h
        split at h
        · rw [hl] at h; cases h
        · next id hc =>
          split at h
          · next slot' replies ht =>
            cases h
            exact Or.inr ⟨tag, d, id, rfl, hc, congrArg Prod.fst ht, rfl⟩
          · rw [show _ = s.listener from rfl, hl] at h; cases h
      · cases h
      · cases h
    · exact Or.inl h
  | listen =>
    simp only [step, listen] at h
    split at h
    · exact Or.inl h
    · cases h
    · cases h
    · cases h
    · cases h
  | look id => exact Or.inl ((listener_look s id).symm.trans h)
  | tick nanos => exact Or.inl h

/-! ## Causes -/

/-- The listener deals with what the registry has been sealed with, until it is done. -/
structure Caused (s : System) : Prop where
  ending : ∀ cause, (s.listener = .draining cause ∨ ∃ slots, s.listener = .failing slots cause) →
    .sealed cause ∈ s.history
  dealt : ∀ cause, .sealed cause ∈ s.history → (∃ cause', .ended cause' ∈ s.history) ∨
    ∃ cause', s.listener = .draining cause' ∨ ∃ slots, s.listener = .failing slots cause'

theorem Caused.fresh (timeout : Timeout) : (System.fresh timeout).Caused := by
  refine ⟨fun cause h => ?_, fun cause h => ?_⟩
  · rcases h with h | ⟨slots, h⟩ <;> cases h
  · cases h

/-- The listener is where it was, and no seal is added. -/
theorem Caused.of_same (h : s.Caused) (hl : s'.listener = s.listener)
    (hh : s'.history = s.history ∨ ∃ m, s'.history = s.history ++ [m] ∧ m.seal? = none) :
    s'.Caused := by
  have hmem : ∀ m, m ∈ s.history → m ∈ s'.history := by
    intro m hm
    rcases hh with hh | ⟨m', hh, -⟩ <;> rw [hh]
    · exact hm
    · exact List.mem_append_left _ hm
  refine ⟨fun cause hc => hmem _ (h.ending cause (hl ▸ hc)), fun cause hm => ?_⟩
  have hold : .sealed cause ∈ s.history := by
    rcases hh with hh | ⟨m', hh, hno⟩ <;> rw [hh] at hm
    · exact hm
    · rcases mem_append_mark hm with hm | rfl
      · exact hm
      · cases hno
  rw [hl]
  exact (h.dealt cause hold).imp_left fun ⟨cause', hm⟩ => ⟨cause', hmem _ hm⟩

/-- The listener turns to something else, and is done with the end if it has begun. -/
theorem Caused.of_done (h : s.Caused) (hl : ∀ cause, s.listener ≠ .draining cause ∧
      ∀ slots, s.listener ≠ .failing slots cause)
    (hl' : ∀ cause, s'.listener ≠ .draining cause ∧ ∀ slots, s'.listener ≠ .failing slots cause)
    {m : Mark} (hh : s'.history = s.history ++ [m]) (hm : m.seal? = none) : s'.Caused := by
  refine ⟨fun cause hc => ?_, fun cause hs => ?_⟩
  · rcases hc with hc | ⟨slots, hc⟩
    · exact absurd hc (hl' cause).1
    · exact absurd hc ((hl' cause).2 slots)
  · rw [hh] at hs ⊢
    rcases mem_append_mark hs with hs | rfl
    · rcases h.dealt cause hs with ⟨cause', hm⟩ | ⟨cause', hc | ⟨slots, hc⟩⟩
      · exact Or.inl ⟨cause', List.mem_append_left _ hm⟩
      · exact absurd hc (hl cause').1
      · exact absurd hc ((hl cause').2 slots)
    · cases hm

theorem caused_moves (h : s.Caused) (hm : Moves s s') : s'.Caused := by
  cases hm with
  | registered => exact h.of_same rfl (Or.inr ⟨_, rfl, rfl⟩)
  | unpublished => exact h.of_same rfl (Or.inr ⟨_, rfl, rfl⟩)
  | matched hl =>
    refine h.of_done (fun cause => ?_) (fun cause => ⟨nofun, nofun⟩) rfl rfl
    rw [hl]; exact ⟨nofun, nofun⟩
  | dropped => exact h.of_same rfl (Or.inr ⟨_, rfl, rfl⟩)
  | @sealed cause hl =>
    refine ⟨fun cause' hc => ?_, fun _ _ => Or.inr ⟨cause, Or.inl rfl⟩⟩
    rcases hc with hc | ⟨slots, hc⟩ <;> cases hc
    exact List.mem_append_right _ List.mem_cons_self
  | @drained cause hl =>
    refine ⟨fun cause' hc => ?_, fun _ _ => Or.inr ⟨cause, Or.inr ⟨_, rfl⟩⟩⟩
    rcases hc with hc | ⟨slots, hc⟩ <;> cases hc
    exact List.mem_append_left _ (h.ending cause (Or.inl hl))
  | answered hl =>
    refine h.of_done (fun cause => ?_) (fun cause => ⟨nofun, nofun⟩) rfl rfl
    rw [hl]; exact ⟨nofun, nofun⟩
  | @failed slot rest cause hl =>
    refine ⟨fun cause' hc => ?_, fun _ _ => Or.inr ⟨cause, Or.inr ⟨_, rfl⟩⟩⟩
    rcases hc with hc | ⟨slots, hc⟩ <;> cases hc
    exact List.mem_append_left _ (h.ending cause (Or.inr ⟨_, hl⟩))
  | @ended cause hl =>
    refine ⟨fun cause' hc => ?_, fun _ _ =>
      Or.inl ⟨cause, List.mem_append_right _ List.mem_cons_self⟩⟩
    rcases hc with hc | ⟨slots, hc⟩ <;> cases hc
  | withdrawn => exact h.of_same rfl (Or.inr ⟨_, rfl, rfl⟩)
  | _ => exact h.of_same rfl (Or.inl rfl)

theorem run_caused (timeout : Timeout) (labels : List Label) :
    ((fresh timeout).run labels).Caused :=
  run_induct (P := Caused) (fun _ _ hm h => caused_moves h hm) labels _ (.fresh timeout)

/-! ## Calls under way -/

/-- The call has taken its slot out of the registry, and nobody else has it: nobody will ever
fill it. -/
structure Withdrawn (s : System) (id : String) : Prop where
  used : s.Used id
  pending : s.pending? id = none
  held : id ∉ s.listener.held
  value : s.value? id = none

theorem used_moves (hm : Moves s s') (h : s.Used id) : s'.Used id := by
  cases hm with
  | staged hr hi =>
    obtain ⟨k, hk, he⟩ := h
    exact ⟨k, hi ▸ hk, he⟩
  | registered => exact used_enroll.2 (Or.inl h)
  | refused => exact used_enroll.2 (Or.inl h)
  | _ => exact h

theorem Withdrawn.moves (h : s.Withdrawn id) (hw : s.Matched) (hm : Moves s s') :
    s'.Withdrawn id := by
  have hnot : ∀ slot, s.pending? slot = some id → False := by
    intro slot hp
    obtain rfl := (hw.pending slot id hp).1
    rw [h.pending] at hp; cases hp
  have hne : s.nextId ≠ id := by
    rintro rfl
    exact not_used_nextId s h.used
  have hvalue : s'.value? id = none := by
    cases hv : s'.value? id with
    | none => rfl
    | some outcome =>
      rcases value?_source hm hv with hv | ⟨number, hl⟩ | ⟨rest, cause, hl, -⟩
      · rw [h.value] at hv; cases hv
      · refine absurd ?_ h.held
        rw [hl]; exact List.mem_cons_self
      · refine absurd ?_ h.held
        rw [hl]; exact List.mem_cons_self
  refine ⟨used_moves hm h.used, ?_, ?_, hvalue⟩
  · cases hm with
    | staged hr => rw [pending?, hr]; exact h.pending
    | registered hs hu => exact (pending?_enroll hu id).trans ((if_neg hne).trans h.pending)
    | refused hs hc => exact (congrArg (·.pending.get? id) (registry_enroll hc)).trans h.pending
    | unpublished => exact (pending?_take s _ id).trans (by rw [h.pending, ite_self])
    | matched => exact (pending?_take s _ id).trans (by rw [h.pending, ite_self])
    | withdrawn => exact (pending?_take s _ id).trans (by rw [h.pending, ite_self])
    | drained => rfl
    | _ => exact h.pending
  · cases hm with
    | matched hl hc hp =>
      intro hm
      obtain rfl := List.mem_singleton.1 hm
      exact hnot _ hp
    | sealed => exact List.not_mem_nil
    | drained =>
      intro hm
      obtain ⟨slot, hp⟩ := Registry.mem_drain.1 hm
      exact hnot slot hp
    | answered => exact List.not_mem_nil
    | failed hl =>
      intro hm
      refine h.held ?_
      rw [hl]
      exact List.mem_cons_of_mem _ hm
    | ended => exact List.not_mem_nil
    | _ => exact h.held

/-- Which calls are under way, and which are over. -/
structure Engaged (s : System) : Prop where
  pending : ∀ id slot, s.pending? id = some slot →
    ∃ call, s.calls.get? id = some call ∧ ∀ result, call ≠ .returned result
  publishing : ∀ id, s.calls.get? id = some .publishing →
    ∃ m, s.stage = some (.publishing id m)
  expired : ∀ id id' waited, s.calls.get? id = some (.returned (.error (.timeout id' waited))) →
    s.Withdrawn id

namespace Engaged

theorem fresh (timeout : Timeout) : (System.fresh timeout).Engaged := by
  refine ⟨fun id slot h => ?_, fun id h => ?_, fun id id' waited h => ?_⟩
  · cases h
  · cases h
  · cases h

theorem pending_moves (h : s.Engaged) (hn : s.Numbered) (hw : s.Matched) (hm : Moves s s')
    {slot : String} (hp : s'.pending? id = some slot) :
    ∃ call, s'.calls.get? id = some call ∧ ∀ result, call ≠ .returned result := by
  have hold := h.pending id
  -- One call goes on, and does not return.
  have hgoes : ∀ {slot : String} (id' : String) {call : Call}, s.pending? id = some slot →
      (∀ result, call ≠ .returned result) →
      ∃ call', (s.calls.insert id' call).get? id = some call' ∧
        ∀ result, call' ≠ .returned result := by
    intro slot id' call hp hr
    rw [Table.get?_insert]
    split
    · exact ⟨call, rfl, hr⟩
    · exact hold slot hp
  -- One call returns, and it is another.
  have hother : ∀ {slot : String} (id' : String) (call : Call), s.pending? id = some slot →
      id' ≠ id → ∃ call', (s.calls.insert id' call).get? id = some call' ∧
        ∀ result, call' ≠ .returned result := by
    intro slot id' call hp hne
    rw [Table.get?_insert, if_neg hne]
    exact hold slot hp
  cases hm with
  | staged hr =>
    rw [pending?, hr] at hp
    exact hold slot hp
  | @registered m hs hu =>
    replace hp := (pending?_enroll hu id).symm.trans hp
    split at hp
    · next he =>
      subst he
      exact ⟨.publishing, Table.get?_insert_self _ _ _, fun _ h => by cases h⟩
    · exact hgoes s.nextId hp fun _ h => by cases h
  | @refused cause hs hc =>
    replace hp : s.pending? id = some slot :=
      (congrArg (·.pending.get? id) (registry_enroll hc)).symm.trans hp
    obtain ⟨call, hcall, -⟩ := hold slot hp
    exact hother s.nextId _ hp (hn.nextId_ne hcall)
  | @published id' m hs => exact hgoes id' hp fun _ h => by cases h
  | @unpublished id' m e hs he =>
    obtain ⟨hne, hp⟩ := pending?_of_take hp
    exact hother id' _ hp hne
  | matched =>
    obtain ⟨-, hp⟩ := pending?_of_take hp
    exact hold slot hp
  | drained => cases hp
  | @resolved id' outcome hv hc =>
    refine hother id' _ hp ?_
    rintro rfl
    have hnone := (hw.pending id' slot hp).2.2.2
    rw [hv] at hnone; cases hnone
  | @expired id' since waited hc hv => exact hgoes id' hp fun _ h => by cases h
  | @withdrawn id' slot' waited hc hp' =>
    obtain ⟨hne, hp⟩ := pending?_of_take hp
    exact hother id' _ hp hne
  | @outrun id' waited hc hp' => exact hgoes id' hp fun _ h => by cases h
  | _ => exact hold slot hp

theorem publishing_step (h : s.Engaged) {label : Label}
    (hc : (s.step label).calls.get? id = some .publishing) :
    ∃ m, (s.step label).stage = some (.publishing id m) := by
  rcases call_step hc with hold | ht
  · obtain ⟨m, hs⟩ := h.publishing id hold
    refine ⟨m, stage_step hs ?_⟩
    -- The answer to its request would have brought the call on.
    rintro a rfl
    cases a with
    | ok name =>
      simp only [step, answer, hs, Except.map] at hc
      cases (Table.get?_insert_self _ _ _).symm.trans hc
    | error e =>
      rw [step, answer_refused hs] at hc
      cases (Table.get?_insert_self _ _ _).symm.trans hc
  · cases ht with
    | begun hs => exact ⟨_, hs⟩

theorem expired_step (h : s.Engaged) (hn : s.Numbered) (hw : s.Matched) {label : Label} {id' : String}
    {waited : Duration}
    (hr : (s.step label).calls.get? id = some (.returned (.error (.timeout id' waited)))) :
    (s.step label).Withdrawn id := by
  have hm := step_moves s label
  rcases returned_step hr with hr | hr
  · exact (h.expired id id' waited hr).moves hw hm
  generalize he : (Except.error (.timeout id' waited) : Except CallError Bytes) = result at hr
  cases hr with
  | refused => cases he
  | @unpublished m e => cases e <;> cases he
  | @resolved outcome => exact absurd he.symm (outcome.toResult_ne_timeout id' waited)
  | withdrawn hl hc hp =>
    subst hl
    obtain ⟨rfl, hr, -, hv⟩ := hw.pending id _ hp
    rw [step, look_withdrawn hc hp]
    refine ⟨hn.registered _ hr, pending?_take_self s _, fun hm => ?_, hv⟩
    have hnone := (hw.held _ hm).2.1
    rw [hp] at hnone; cases hnone

theorem step (h : s.Engaged) (hn : s.Numbered) (hw : s.Matched) (label : Label) :
    (s.step label).Engaged where
  pending _ _ hp := h.pending_moves hn hw (step_moves s label) hp
  publishing _ hc := h.publishing_step hc
  expired _ _ _ hr := h.expired_step hn hw hr

end Engaged

/-- **Calls under way.** Run a client in any order of steps: a call that is registered has not
returned, one that publishes holds the lock, and one that has timed out has its slot to itself. -/
theorem run_engaged (timeout : Timeout) (labels : List Label) :
    ((fresh timeout).run labels).Engaged := by
  have hrun : ∀ (labels : List Label) (s : System), s.Numbered → s.Matched → s.Engaged →
      (s.run labels).Engaged := by
    intro labels
    induction labels with
    | nil => exact fun _ _ _ h => h
    | cons label rest ih =>
      intro s hn hw h
      have hm := step_moves s label
      exact ih (s.step label) (numbered_moves hn hm) (matched_moves hw hn hm) (h.step hn hw label)
  exact hrun labels _ (.fresh timeout) (.fresh timeout) (.fresh timeout)

end Client.System

end BrokeredRpc
