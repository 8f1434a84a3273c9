import BrokeredRpc.Proofs.Client.Matching

/-!
# No cross-talk between calls

What a call returns is what was written into its slot (`Answered`), every slot
is written once, and every reply writes into one slot at most, its own
(`Written`). With `Matched` this leaves one reply that a call can return: the
first one under its id since it was registered.

* `run_no_crosstalk`: the above for every client, every transport and every
  order of steps, with what happens to replies that nobody waits for, and with
  the history told by the events.
-/
namespace BrokeredRpc.Client

/-- A result with the payload of a reply. -/
def BearsPayload : Except CallError Bytes → Prop
  | .ok _ => True
  | .error e => e.payload?.isSome

def Mark.filledSlot? : Mark → Option String
  | .filled slot _ _ => some slot
  | _ => none

/-- The number of the reply that a slot was filled by. -/
def Mark.filledBy? : Mark → Option Nat
  | .filled _ _ reply => reply
  | _ => none

/-- The `number`th reply is for `id` and brings `outcome`. -/
def BringsTo (h : History) (number : Nat) (id : String) (outcome : Outcome) : Prop :=
  ∃ properties body, (repliesIn h)[number]? = some (properties, body) ∧
    properties.correlationId = some id ∧ outcome = .ofReply properties body

theorem BringsTo.append {h : History} {number : Nat} {id : String} {outcome : Outcome}
    (hb : BringsTo h number id outcome) (m : Mark) : BringsTo (h ++ [m]) number id outcome := by
  obtain ⟨properties, body, hn, hc, ho⟩ := hb
  refine ⟨properties, body, ?_, hc, ho⟩
  obtain ⟨hlt, -⟩ := List.getElem?_eq_some_iff.1 hn
  rw [repliesIn_append, List.getElem?_append_left hlt, hn]

namespace System

variable {s s' : System}

/-! ## What calls return -/

/-- A call that has returned a payload has read it from its slot. -/
def Answered (s : System) : Prop :=
  ∀ id result, s.calls.get? id = some (.returned result) → BearsPayload result →
    ∃ outcome, s.value? id = some outcome ∧ result = outcome.toResult

/-- A step in which at most one call goes on, and returns only what its slot holds. -/
theorem Answered.of_call (h : s.Answered) (hm : Moves s s') {id : String} {call : Call}
    (hc : s'.calls = s.calls.insert id call)
    (hr : ∀ result, call = .returned result → BearsPayload result →
      ∃ outcome, s.value? id = some outcome ∧ result = outcome.toResult) : s'.Answered := by
  intro id' result hg hb
  rw [hc, Table.get?_insert] at hg
  split at hg
  · next he =>
    subst he
    obtain ⟨outcome, hv, he⟩ := hr result (Option.some.inj hg) hb
    exact ⟨outcome, value?_moves hm hv, he⟩
  · obtain ⟨outcome, hv, he⟩ := h id' result hg hb
    exact ⟨outcome, value?_moves hm hv, he⟩

theorem Answered.of_same (h : s.Answered) (hm : Moves s s') (hc : s'.calls = s.calls) :
    s'.Answered := by
  intro id result hg hb
  rw [hc] at hg
  obtain ⟨outcome, hv, he⟩ := h id result hg hb
  exact ⟨outcome, value?_moves hm hv, he⟩

theorem answered_moves (h : s.Answered) (hm : Moves s s') : s'.Answered := by
  have hmoves := hm
  cases hm with
  | registered => exact h.of_call hmoves rfl fun _ h => by cases h
  | refused =>
    refine h.of_call hmoves rfl fun result he hb => ?_
    cases he; cases hb
  | published => exact h.of_call hmoves rfl fun _ h => by cases h
  | unpublished hs he =>
    refine h.of_call hmoves rfl fun result hr hb => ?_
    cases hr
    rw [BearsPayload, he] at hb; cases hb
  | @resolved id outcome hv hc =>
    refine h.of_call hmoves rfl fun result he _ => ?_
    cases he
    exact ⟨outcome, hv, rfl⟩
  | expired => exact h.of_call hmoves rfl fun _ h => by cases h
  | withdrawn =>
    refine h.of_call hmoves rfl fun result he hb => ?_
    cases he; cases hb
  | outrun => exact h.of_call hmoves rfl fun _ h => by cases h
  | _ => exact h.of_same hmoves rfl

/-! ## What is written -/

/-- What the marks say of slots and the replies that fill them. -/
structure Written (s : System) : Prop where
  value_iff : ∀ slot outcome, s.value? slot = some outcome ↔
    ∃ reply, .filled slot outcome reply ∈ s.history
  slots : (s.history.filterMap Mark.filledSlot?).Nodup
  replies : (s.history.filterMap Mark.filledBy?).Nodup
  source : ∀ slot outcome number, .filled slot outcome (some number) ∈ s.history →
    BringsTo s.history number slot outcome
  answering : ∀ number slot outcome, s.listener = .answering number slot outcome →
    BringsTo s.history number slot outcome ∧
      ∀ slot' outcome', .filled slot' outcome' (some number) ∉ s.history

theorem Written.fresh (timeout : Timeout) : (System.fresh timeout).Written := by
  refine ⟨fun slot outcome => ⟨fun h => ?_, fun h => ?_⟩, List.nodup_nil, List.nodup_nil,
    fun _ _ _ h => ?_, fun _ _ _ h => ?_⟩
  · cases h
  · obtain ⟨_, h⟩ := h
    cases h
  · cases h
  · cases h

theorem filled_mem_append {h : History} {m : Mark} {slot : String} {outcome : Outcome}
    {reply : Option Nat} (hn : m.filledSlot? = none) :
    .filled slot outcome reply ∈ h ++ [m] ↔ .filled slot outcome reply ∈ h := by
  refine ⟨fun hm => ?_, List.mem_append_left _⟩
  rcases mem_append_mark hm with hm | rfl
  · exact hm
  · cases hn

theorem nodup_filterMap_append {α : Type} {f : Mark → Option α} {h : History} {m : Mark}
    (hn : (h.filterMap f).Nodup) (hm : ∀ a, f m = some a → ∀ m' ∈ h, f m' ≠ some a) :
    ((h ++ [m]).filterMap f).Nodup := by
  cases hf : f m with
  | none =>
    rw [List.filterMap_append, List.filterMap_cons_none hf, List.filterMap_nil, List.append_nil]
    exact hn
  | some a =>
    rw [List.filterMap_append, List.filterMap_cons_some hf, List.filterMap_nil, List.nodup_append]
    refine ⟨hn, by simp, fun b hb c hc he => ?_⟩
    obtain ⟨m', hm', hb'⟩ := List.mem_filterMap.1 hb
    rw [he, List.mem_singleton.1 hc] at hb'
    exact hm a hf m' hm' hb'

/-- A step that fills nothing and begins to answer nothing. -/
theorem Written.of_same (h : s.Written)
    (hv : ∀ slot, s'.value? slot = s.value? slot)
    (hl : s'.listener = s.listener ∨ s'.listener.isAnswering = false)
    (hh : s'.history = s.history ∨ ∃ m, s'.history = s.history ++ [m] ∧ m.filledSlot? = none) :
    s'.Written := by
  have hf : ∀ slot outcome reply, .filled slot outcome reply ∈ s'.history ↔
      .filled slot outcome reply ∈ s.history := by
    intro slot outcome reply
    rcases hh with hh | ⟨m, hh, hn⟩ <;> rw [hh]
    exact filled_mem_append hn
  have hb : ∀ number slot outcome, BringsTo s.history number slot outcome →
      BringsTo s'.history number slot outcome := by
    intro number slot outcome hb
    rcases hh with hh | ⟨m, hh, -⟩ <;> rw [hh]
    · exact hb
    · exact hb.append m
  refine ⟨fun slot outcome => ?_, ?_, ?_, fun slot outcome number hm' => ?_,
    fun number slot outcome ha => ?_⟩
  · rw [hv, h.value_iff]
    exact exists_congr fun reply => (hf slot outcome reply).symm
  · rcases hh with hh | ⟨m, hh, hn⟩ <;> rw [hh]
    · exact h.slots
    · exact nodup_filterMap_append h.slots fun slot he => by rw [hn] at he; cases he
  · rcases hh with hh | ⟨m, hh, hn⟩ <;> rw [hh]
    · exact h.replies
    · have hn' : m.filledBy? = none := by
        cases m with
        | filled => cases hn
        | _ => rfl
      exact nodup_filterMap_append h.replies fun number he => by rw [hn'] at he; cases he
  · exact hb _ _ _ (h.source slot outcome number ((hf _ _ _).1 hm'))
  · rcases hl with hl | hl
    · obtain ⟨hbr, hno⟩ := h.answering number slot outcome (hl ▸ ha)
      exact ⟨hb _ _ _ hbr, fun slot' outcome' hm' => hno slot' outcome' ((hf _ _ _).1 hm')⟩
    · rw [ha] at hl; cases hl

/-- The listener fills an empty slot, for a reply that has filled none yet or for none. -/
theorem Written.fill (h : s.Written) {slot : String} {outcome : Outcome} {reply : Option Nat}
    {listener : Listener} (hv : s.value? slot = none)
    (hr : ∀ number, reply = some number → BringsTo s.history number slot outcome ∧
      ∀ slot' outcome', .filled slot' outcome' (some number) ∉ s.history)
    (hl : listener.isAnswering = false) : Written { s.fill slot outcome reply with listener } := by
  have hnew : ∀ o reply', .filled slot o reply' ∉ s.history := by
    intro o reply' hm
    have := (h.value_iff slot o).2 ⟨reply', hm⟩
    rw [hv] at this; cases this
  have hcases : ∀ slot' o reply',
      .filled slot' o reply' ∈ s.history ++ [.filled slot outcome reply] →
      .filled slot' o reply' ∈ s.history ∨ slot' = slot ∧ o = outcome ∧ reply' = reply := by
    intro slot' o reply' hm
    rcases mem_append_mark hm with hm | hm
    · exact Or.inl hm
    · cases hm; exact Or.inr ⟨rfl, rfl, rfl⟩
  have hval : ∀ slot', (s.fill slot outcome reply).value? slot' =
      if slot = slot' then some outcome else s.value? slot' := by
    intro slot'
    rw [value?_fill, hv]; rfl
  refine ⟨fun slot' o => ⟨fun hv' => ?_, fun hf => ?_⟩, ?_, ?_, fun slot' o number hm' => ?_,
    fun number slot' o ha => ?_⟩
  · replace hv' := (hval slot').symm.trans hv'
    split at hv'
    · next he =>
      cases hv'
      subst he
      exact ⟨reply, List.mem_append_right _ List.mem_cons_self⟩
    · obtain ⟨reply', hm'⟩ := (h.value_iff slot' o).1 hv'
      exact ⟨reply', List.mem_append_left _ hm'⟩
  · obtain ⟨reply', hm'⟩ := hf
    refine (hval slot').trans ?_
    rcases hcases slot' o reply' hm' with hm' | ⟨rfl, rfl, rfl⟩
    · have hv' := (h.value_iff slot' o).2 ⟨reply', hm'⟩
      have hne : slot ≠ slot' := by
        rintro rfl
        exact hnew o reply' hm'
      rw [if_neg hne, hv']
    · rw [if_pos rfl]
  · refine nodup_filterMap_append h.slots fun slot' he m hm hs => ?_
    cases he
    cases m with
    | filled slot' o reply' => cases hs; exact hnew o reply' hm
    | _ => cases hs
  · refine nodup_filterMap_append h.replies fun number he m hm hs => ?_
    cases m with
    | filled slot' o reply' =>
      rw [show reply' = some number from hs] at hm
      exact (hr number he).2 slot' o hm
    | _ => cases hs
  · rcases hcases slot' o (some number) hm' with hm' | ⟨rfl, rfl, he⟩
    · exact (h.source slot' o number hm').append _
    · exact (hr number he.symm).1.append _
  · cases ha
    cases hl

theorem written_moves (h : s.Written) (hw : s.Matched) (hm : Moves s s') : s'.Written := by
  cases hm with
  | stayed => exact h
  | staged hr hi ht hp =>
    refine h.of_same (fun slot => ?_) (Or.inl rfl) (Or.inl rfl)
    rw [value?, hr]; rfl
  | registered => exact h.of_same (value?_enroll s) (Or.inl rfl) (Or.inr ⟨_, rfl, rfl⟩)
  | refused => exact h.of_same (value?_enroll s) (Or.inl rfl) (Or.inl rfl)
  | unpublished => exact h.of_same (fun _ => rfl) (Or.inl rfl) (Or.inr ⟨_, rfl, rfl⟩)
  | @matched properties body id slot hl hc hp =>
    obtain ⟨rfl, -, -, -⟩ := hw.pending id slot hp
    -- Nobody has been answered by this reply, because it has only just arrived.
    have hw' : Written
        { s.withReplies (s.client.replies.take slot).2 with
          history := s.history ++ [.replied properties body] } :=
      h.of_same (fun _ => rfl) (Or.inl rfl) (Or.inr ⟨_, rfl, rfl⟩)
    refine ⟨hw'.value_iff, hw'.slots, hw'.replies, hw'.source, fun number slot' o ha => ?_⟩
    cases ha
    refine ⟨⟨properties, body, ?_, hc, rfl⟩, fun slot' o hm' => ?_⟩
    · rw [repliesIn_append, List.getElem?_append_right (Nat.le_refl _), Nat.sub_self]; rfl
    · obtain ⟨_, _, hn, -, -⟩ := h.source slot' o _ ((filled_mem_append rfl).1 hm')
      rw [List.getElem?_eq_none (Nat.le_refl _)] at hn; cases hn
  | dropped => exact h.of_same (fun _ => rfl) (Or.inl rfl) (Or.inr ⟨_, rfl, rfl⟩)
  | sealed => exact h.of_same (fun _ => rfl) (Or.inr rfl) (Or.inr ⟨_, rfl, rfl⟩)
  | drained => exact h.of_same (fun _ => rfl) (Or.inr rfl) (Or.inr ⟨_, rfl, rfl⟩)
  | @answered number slot outcome hl =>
    have hs : slot ∈ s.listener.held := by rw [hl]; exact List.mem_cons_self
    refine h.fill (hw.held slot hs).2.2 (fun n hn => ?_) rfl
    cases hn
    exact h.answering number slot outcome hl
  | @failed slot rest cause hl =>
    have hs : slot ∈ s.listener.held := by rw [hl]; exact List.mem_cons_self
    exact h.fill (hw.held slot hs).2.2 (fun _ hn => by cases hn) rfl
  | ended => exact h.of_same (fun _ => rfl) (Or.inr rfl) (Or.inr ⟨_, rfl, rfl⟩)
  | withdrawn => exact h.of_same (fun _ => rfl) (Or.inl rfl) (Or.inr ⟨_, rfl, rfl⟩)
  | _ => exact h.of_same (fun _ => rfl) (Or.inl rfl) (Or.inl rfl)

/-! ## Results of calls -/

/-- A reply without an id, or with one that nobody waits for, changes nothing. -/
theorem receive_of_unmatched (hl : s.listener = .idle) (tag : String) {d : Delivery}
    (hp : ∀ id, d.properties.correlationId = some id → s.pending? id = none) :
    (s.step (.event tag (.delivery d))).client = s.client ∧
      (s.step (.event tag (.delivery d))).listener = .idle := by
  rw [step, receive, hl]
  dsimp only
  unfold reply
  split
  · exact ⟨rfl, hl⟩
  · next id hc =>
    rw [Replies.take_of_absent (hp id hc)]
    exact ⟨rfl, hl⟩

theorem run_written (timeout : Timeout) (labels : List Label) :
    ((fresh timeout).run labels).Answered ∧ ((fresh timeout).run labels).Written := by
  have hfresh : (fresh timeout).Answered := fun _ _ hg => by cases hg
  have hrun := run_induct (P := fun s => (s.Numbered ∧ s.Matched) ∧ s.Answered ∧ s.Written)
    (fun s s' hm h => ?_) labels _ ⟨run_matched timeout [], hfresh, .fresh timeout⟩
  · exact hrun.2
  · obtain ⟨⟨hn, hw⟩, ha, h⟩ := h
    exact ⟨⟨numbered_moves hn hm, matched_moves hw hn hm⟩, answered_moves ha hm,
      written_moves h hw hm⟩

/-- **No cross-talk, at most one outcome.** Run a client in any order of steps, with any
answers of its transport and any events.
* A call that returns a payload returns what the first reply under its id, since it was
  registered, brings.
* Every write into a slot is marked; every slot is written once, every reply writes once, and
  into the slot of the call it is for.
* A reply without an id, with an id that is not pending, or with one that has been replied to
  since the call was registered, changes neither the registry nor any slot.
* The replies and the ends of the subscription in the history are those that the listener has
  taken, in that order; a delivery that finds it idle is the next of them. -/
theorem run_no_crosstalk (timeout : Timeout) (labels : List Label) :
    let s := (fresh timeout).run labels
    (∀ id result, s.calls.get? id = some (.returned result) → BearsPayload result →
        ∃ properties body rest, repliesTo id s.history = (properties, body) :: rest ∧
          result = (Outcome.ofReply properties body).toResult) ∧
      (∀ slot outcome, s.value? slot = some outcome ↔
        ∃ reply, .filled slot outcome reply ∈ s.history) ∧
      (s.history.filterMap Mark.filledSlot?).Nodup ∧
      (s.history.filterMap Mark.filledBy?).Nodup ∧
      (∀ slot outcome number, .filled slot outcome (some number) ∈ s.history →
        BringsTo s.history number slot outcome) ∧
      (∀ tag d, s.listener = .idle →
        (∀ id, d.properties.correlationId = some id →
          s.pending? id = none ∨ repliesTo id s.history ≠ []) →
        (s.step (.event tag (.delivery d))).client = s.client ∧
          (s.step (.event tag (.delivery d))).listener = .idle) ∧
      eventMarks s.history = (fresh timeout).heard labels ∧
      ∀ tag d, s.listener = .idle →
        (s.step (.event tag (.delivery d))).history =
          s.history ++ [.replied d.properties d.body] := by
  obtain ⟨-, hm⟩ := run_matched timeout labels
  obtain ⟨ha, hw⟩ := run_written timeout labels
  refine ⟨fun id result hc hb => ?_, hw.value_iff, hw.slots, hw.replies, hw.source,
    fun tag d hl hd => receive_of_unmatched hl tag fun id hc => ?_, eventMarks_run _ labels,
    fun tag d hl => history_receive hl tag (.delivery d)⟩
  · obtain ⟨outcome, hv, rfl⟩ := ha id result hc hb
    rcases (hm.filled id outcome hv).2 with ⟨cause, rfl⟩ | ⟨properties, body, rest, hr, rfl⟩
    · cases hb
    · exact ⟨properties, body, rest, hr, rfl⟩
  · rcases hd id hc with hn | hr
    · exact hn
    · cases hp : ((fresh timeout).run labels).pending? id with
      | none => rfl
      | some slot => exact absurd (hm.pending id slot hp).2.2.1 hr

def replyTo (id : String) (body : Bytes) : Delivery :=
  { envelope := { deliveryTag := 1, exchange := "", routingKey := "q" },
    properties := { correlationId := some id }, body }

/-- A reply comes before the call and another one after it. -/
def early : List Label :=
  [.start .opening, .answer (.ok "q"), .answer (.ok "t"), .event "t" (.delivery (replyTo "1" [1])),
    .start (.calling { routingKey := "work" }), .event "t" (.delivery (replyTo "1" [2])),
    .answer (.ok ""), .listen, .look "1"]

/-- The call returns the second reply, and a third one changes nothing. -/
theorem run_no_crosstalk_early :
    let s := (fresh .infinite).run early
    s.calls.get? "1" = some (.returned (.ok [2])) ∧
      (∃ properties body rest, repliesTo "1" s.history = (properties, body) :: rest ∧
        .ok [2] = (Outcome.ofReply properties body).toResult) ∧
      eventMarks s.history =
        [.replied { correlationId := some "1" } [1], .replied { correlationId := some "1" } [2]] ∧
      (s.step (.event "t" (.delivery (replyTo "1" [3])))).client = s.client := by
  obtain ⟨hfirst, -, -, -, -, hlate, hheard, -⟩ := run_no_crosstalk .infinite early
  have hthird := hlate "t" (replyTo "1" [3]) rfl fun id hid => Or.inl (by cases hid; rfl)
  exact ⟨rfl, hfirst "1" _ rfl trivial, hheard.trans rfl, hthird.1⟩

end System

end BrokeredRpc.Client
