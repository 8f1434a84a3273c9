import BrokeredRpc.Proofs.Client.Crosstalk
import BrokeredRpc.Proofs.Client.Returns
import BrokeredRpc.Proofs.Client.Waiting

/-!
# What the registry holds

The registry of a client lists the calls that wait for a reply. Four things take
a call off the list: a reply under its id, the end of the subscription, the end
of its own wait, and a request that could not be published. `Awaited` reads off
the history which calls none of them has happened to; the registry holds these
and no others, in whatever order the steps come.

Ids are counted by the calls that get past the open gate (`System.admitted`),
not by those that succeed, so that the id of a failed call is not used again.

* `run_tallied`: the above for every client, every transport and every order of
  steps, with what the next call gets and what a failed request leaves.
-/
namespace BrokeredRpc.Client

/-! ## Marks that take a call off -/

/-- The mark takes the call `id` out of the registry. -/
def Mark.Releases (id : String) : Mark → Prop
  | .replied properties _ => properties.correlationId = some id
  | .drained slots _ => id ∈ slots
  | .timedOut id' => id' = id
  | .unpublished id' _ => id' = id
  | .registered _ | .sealed _ | .filled .. | .ended _ => False

/-- The call has been registered, and nothing since has taken it out of the registry. -/
def Awaited (h : History) (id : String) : Prop :=
  ∃ before after, h = before ++ .registered id :: after ∧ ∀ m ∈ after, ¬m.Releases id

variable {h : History} {id : String}

theorem Awaited.registered (ha : Awaited h id) : .registered id ∈ h := by
  obtain ⟨before, after, rfl, -⟩ := ha
  simp

theorem awaited_append {m : Mark} :
    Awaited (h ++ [m]) id ↔ Awaited h id ∧ ¬m.Releases id ∨ m = .registered id := by
  constructor
  · intro ⟨before, after, he, hr⟩
    rcases List.eq_nil_or_concat after with rfl | ⟨init, last, rfl⟩
    · obtain ⟨-, hm⟩ := List.append_inj' he rfl
      exact Or.inr (List.singleton_inj.1 hm)
    · have he' : h ++ [m] = (before ++ .registered id :: init) ++ [last] := by simpa using he
      obtain ⟨rfl, hm⟩ := List.append_inj' he' rfl
      obtain rfl := List.singleton_inj.1 hm
      exact Or.inl ⟨⟨before, init, rfl, fun m' hm' => hr m' (by simp [hm'])⟩, hr m (by simp)⟩
  · intro hm
    rcases hm with ⟨⟨before, after, rfl, hr⟩, hm⟩ | rfl
    · refine ⟨before, after ++ [m], by simp, fun m' hm' => ?_⟩
      rcases mem_append_mark hm' with hm' | rfl
      · exact hr m' hm'
      · exact hm
    · exact ⟨h, [], rfl, by simp⟩

/-- A mark that registers no call takes at most one off. -/
theorem awaited_append_mark {m : Mark} (hn : m.registered? = none) :
    Awaited (h ++ [m]) id ↔ Awaited h id ∧ ¬m.Releases id := by
  rw [awaited_append]
  refine or_iff_left ?_
  intro hm
  rw [hm] at hn
  cases hn

namespace System

variable {s s' : System}

/-! ## The gate -/

/-- The step starts a call that gets past the open gate. -/
def admits (s : System) : Label → Bool
  | .start (.calling _) => s.stage.isNone && s.client.isOpen
  | _ => false

/-- How many calls get past the open gate in a run. -/
def admitted (s : System) : List Label → Nat
  | [] => 0
  | label :: rest => (if s.admits label then 1 else 0) + (s.step label).admitted rest

theorem start_of_notOpen (ho : s.client.isOpen = false) (m : Message) :
    s.client.start (.calling m) = (s.client, .failed .notOpen) ∧
      s.step (.start (.calling m)) = s := by
  have hc : s.client.start (.calling m) = (s.client, .failed .notOpen) := by
    unfold isOpen at ho
    simp only [Client.start, startCall]
    split
    · rfl
    · rfl
    · next hl => rw [hl] at ho; cases ho
  refine ⟨hc, ?_⟩
  simp only [step, start, hc]
  split
  · rfl
  · simp

/-- A call that gets past the gate takes the next id; it is registered, unless the registry is
sealed. -/
theorem start_of_admits {m : Message} (ha : s.admits (.start (.calling m)) = true) :
    s.step (.start (.calling m)) =
      match s.sealedBy? with
      | none =>
        { s.enroll with
          stage := some (.publishing s.nextId
            { m with properties := stamp m.properties s.nextId (s.client.replyQueue?.getD "") })
          calls := s.calls.insert s.nextId .publishing
          history := s.history ++ [.registered s.nextId] }
      | some cause =>
        { s.enroll with
          calls := s.calls.insert s.nextId (.returned (.error (.transportShutdown cause))) } := by
  simp only [admits, Bool.and_eq_true, Option.isNone_iff_eq_none] at ha
  obtain ⟨hs, ho⟩ := ha
  cases hc : s.sealedBy? with
  | none =>
    unfold isOpen at ho
    split at ho
    · next queue tag hl =>
      have hq : s.client.replyQueue? = some queue := by rw [replyQueue?, hl]
      simp only [step, start, hs, start_calling hl hc m, hq, Option.getD_some]
      rfl
    · cases ho
  | some cause =>
    rcases start_cases s (.calling m) with ⟨_, -, -, hn⟩ | ⟨_, hu, -⟩ | ⟨cause', hc', he⟩
    · exact absurd rfl (hn ho m)
    · rw [hc] at hu; cases hu
    · obtain rfl := Option.some.inj (hc.symm.trans hc')
      have hne : s.enroll.client.lastId ≠ s.client.lastId := Nat.succ_ne_self _
      have hse : s.enroll.stage = none := hs
      simp only [step, start, hs, he, if_neg hne, hse]
      rfl

/-! ## Numbers -/

theorem lastId_start_other (s : System) {op : Operation} (hop : ∀ m, op ≠ .calling m) :
    (s.start op).client.lastId = s.client.lastId := by
  unfold start
  split
  · rfl
  · cases op with
    | calling m => exact absurd rfl (hop m)
    | opening => simp only [Client.start, startOpen]; cases s.client.lifecycle <;> simp
    | closing => simp only [Client.start, startClose]; cases s.client.lifecycle <;> simp

theorem lastId_answer (s : System) (a : Except TransportError String) :
    (s.answer a).client.lastId = s.client.lastId := by
  unfold answer
  split
  · rfl
  · cases a with
    | ok name => rfl
    | error e => cases e <;> rfl
  · next stage hp hs =>
    cases stage with
    | publishing id m => exact absurd rfl (hp id m)
    | cancelling queue tag =>
      cases a with
      | ok name => rfl
      | error e => cases e <;> rfl
    | discarding queue failure => rfl
    | _ => cases a <;> rfl

theorem lastId_receive (s : System) (tag : String) (event : Event) :
    (s.receive tag event).client.lastId = s.client.lastId := by
  unfold receive
  split
  · split
    · unfold reply
      split
      · rfl
      · split <;> rfl
    · rfl
    · rfl
  · rfl

theorem lastId_look (s : System) (id : String) : (s.look id).client.lastId = s.client.lastId := by
  unfold look
  split
  · split <;> rfl
  · split <;> rfl
  · split <;> rfl
  · rfl

/-- Exactly the calls that get past the gate take a number. -/
theorem lastId_step (s : System) (label : Label) :
    (s.step label).client.lastId = s.client.lastId + if s.admits label then 1 else 0 := by
  cases label with
  | start op =>
    cases ha : s.admits (.start op) with
    | true =>
      cases op with
      | calling m => rw [start_of_admits ha]; split <;> rfl
      | _ => cases ha
    | false =>
      cases op with
      | calling m =>
        rw [admits, Bool.and_eq_false_iff, Option.isNone_eq_false_iff] at ha
        rcases ha with hs | ho
        · obtain ⟨stage, hs⟩ := Option.isSome_iff_exists.1 hs
          simp [step, start, hs]
        · simp [(start_of_notOpen ho m).2]
      | opening => exact lastId_start_other s fun _ h => by cases h
      | closing => exact lastId_start_other s fun _ h => by cases h
  | answer a => exact lastId_answer s a
  | event tag event => exact lastId_receive s tag event
  | listen => simp only [step, listen]; split <;> rfl
  | look id => exact lastId_look s id
  | tick nanos => rfl

theorem lastId_run : ∀ (labels : List Label) (s : System),
    (s.run labels).client.lastId = s.client.lastId + s.admitted labels
  | [], _ => rfl
  | label :: rest, s => by
    rw [run_cons, lastId_run rest, lastId_step, admitted, Nat.add_assoc]

theorem lastId_fresh_run (timeout : Timeout) (labels : List Label) :
    ((fresh timeout).run labels).client.lastId = (fresh timeout).admitted labels :=
  (lastId_run labels _).trans (Nat.zero_add _)

/-- Every call that has got past the gate is known by its number. -/
def Called (s : System) : Prop :=
  ∀ id, (s.calls.get? id).isSome ↔ ∃ k, 1 ≤ k ∧ k ≤ s.client.lastId ∧ id = idOf k

theorem Called.fresh (timeout : Timeout) : (System.fresh timeout).Called := by
  intro id
  constructor
  · intro h; cases h
  · intro ⟨k, hk, hle, _⟩
    exact absurd (Nat.le_trans hk hle) (Nat.not_succ_le_zero 0)

theorem Called.insert (h : s.Called) {id : String} {old : Call}
    (ho : s.calls.get? id = some old) (hi : s'.client.lastId = s.client.lastId) {new : Call}
    (hc : s'.calls = s.calls.insert id new) : s'.Called := by
  intro id'
  rw [hi, ← h id', hc, Table.get?_insert]
  split
  · next he => simp [← he, ho]
  · rfl

theorem Called.enroll (h : s.Called) (hi : s'.client.lastId = s.client.lastId + 1) {new : Call}
    (hc : s'.calls = s.calls.insert s.nextId new) : s'.Called := by
  intro id
  rw [hi, hc, Table.get?_insert]
  split
  · next he =>
    simp only [Option.isSome_some, true_iff]
    exact ⟨_, by omega, Nat.le_refl _, he.symm⟩
  · next hne =>
    rw [h id]
    constructor
    · intro ⟨k, hk, hle, he⟩
      exact ⟨k, hk, by omega, he⟩
    · intro ⟨k, hk, hle, he⟩
      have : k ≠ s.client.lastId + 1 := fun hk => hne (by rw [he, hk]; rfl)
      exact ⟨k, hk, by omega, he⟩

theorem called_moves (h : s.Called) (hn : s.Numbered) (hm : Moves s s') : s'.Called := by
  cases hm with
  | staged hr hi =>
    intro id
    rw [show _ = s.client.lastId from hi]
    exact h id
  | registered => exact h.enroll rfl rfl
  | refused => exact h.enroll rfl rfl
  | published hs => exact h.insert (hn.publishing _ _ hs) rfl rfl
  | unpublished hs => exact h.insert (hn.publishing _ _ hs) rfl rfl
  | resolved hv hc =>
    rcases hc with ⟨since, hc⟩ | hc
    · exact h.insert hc rfl rfl
    · exact h.insert hc rfl rfl
  | expired hc => exact h.insert hc rfl rfl
  | withdrawn hc => exact h.insert hc rfl rfl
  | outrun hc => exact h.insert hc rfl rfl
  | _ => exact h

theorem once_moves (h : (s.history.filterMap Mark.registered?).Nodup) (hn : s.Numbered)
    (hm : Moves s s') : (s'.history.filterMap Mark.registered?).Nodup := by
  cases hm with
  | registered =>
    refine nodup_filterMap_append h fun id hid m' hm' hid' => ?_
    cases hid
    cases m' with
    | registered id' =>
      cases hid'
      exact hn.unregistered hm'
    | _ => cases hid'
  | _ => first | exact h | exact nodup_filterMap_append h fun _ hid => by cases hid

/-! ## The pending calls -/

/-- The registry holds exactly the calls that nothing has taken off. -/
def Exact (s : System) : Prop := ∀ id, (s.pending? id).isSome ↔ Awaited s.history id

theorem Exact.fresh (timeout : Timeout) : (System.fresh timeout).Exact := by
  intro id
  constructor
  · intro h; cases h
  · intro h; cases h.registered

theorem Exact.of_same (h : s.Exact) (hp : ∀ id, s'.pending? id = s.pending? id)
    (hh : s'.history = s.history ∨ ∃ m, s'.history = s.history ++ [m] ∧
      m.registered? = none ∧ ∀ id, (s.pending? id).isSome → ¬m.Releases id) : s'.Exact := by
  intro id
  rw [hp id, h id]
  rcases hh with hh | ⟨m, hh, hn, hr⟩ <;> rw [hh]
  rw [awaited_append_mark hn]
  constructor
  · intro ha
    exact ⟨ha, hr id ((h id).2 ha)⟩
  · exact And.left

theorem Exact.take (h : s.Exact) (id : String) {m : Mark} (hn : m.registered? = none)
    (hr : ∀ id', m.Releases id' ↔ id = id')
    (hp : ∀ id', s'.pending? id' = if id = id' then none else s.pending? id')
    (hh : s'.history = s.history ++ [m]) : s'.Exact := by
  intro id'
  rw [hp, hh, awaited_append_mark hn, hr, ← h id']
  split
  · next he => simp [he]
  · next hne => simp [hne]

theorem exact_moves (h : s.Exact) (hw : s.Matched) (hm : Moves s s') : s'.Exact := by
  cases hm with
  | staged hr => exact h.of_same (fun id => by rw [pending?, hr]; rfl) (Or.inl rfl)
  | @registered m hs hu =>
    intro id
    show (s.enroll.pending? id).isSome ↔ Awaited (s.history ++ [.registered s.nextId]) id
    rw [pending?_enroll hu, awaited_append, ← h id]
    split
    · next he => simp [he]
    · next hne => simp [hne, Mark.Releases]
  | refused hs hc =>
    exact h.of_same (fun id => congrArg (·.pending.get? id) (registry_enroll hc)) (Or.inl rfl)
  | @unpublished id m e hs he =>
    exact h.take id rfl (fun _ => Iff.rfl) (pending?_take s id) rfl
  | @matched properties body id slot hl hc hp =>
    refine h.take id rfl (fun id' => ?_) (pending?_take s id) rfl
    simp [Mark.Releases, hc]
  | dropped hl hp =>
    refine h.of_same (fun _ => rfl) (Or.inr ⟨_, rfl, rfl, fun id hs hr => ?_⟩)
    rw [hp id hr] at hs
    cases hs
  | sealed => exact h.of_same (fun _ => rfl) (Or.inr ⟨_, rfl, rfl, fun _ _ hr => hr⟩)
  | @drained cause hl =>
    intro id
    show (none : Option String).isSome ↔ _
    rw [awaited_append_mark rfl, ← h id]
    simp only [Option.isSome_none, Bool.false_eq_true, false_iff]
    rintro ⟨hs, hr⟩
    exact hr (hw.mem_drain.2 hs)
  | answered => exact h.of_same (fun _ => rfl) (Or.inr ⟨_, rfl, rfl, fun _ _ hr => hr⟩)
  | failed => exact h.of_same (fun _ => rfl) (Or.inr ⟨_, rfl, rfl, fun _ _ hr => hr⟩)
  | ended => exact h.of_same (fun _ => rfl) (Or.inr ⟨_, rfl, rfl, fun _ _ hr => hr⟩)
  | @withdrawn id slot waited hc hp =>
    exact h.take id rfl (fun _ => Iff.rfl) (pending?_take s id) rfl
  | _ => exact h

/-! ## Runs -/

theorem run_called (timeout : Timeout) (labels : List Label) :
    ((fresh timeout).run labels).Called ∧ ((fresh timeout).run labels).Exact ∧
      (((fresh timeout).run labels).history.filterMap Mark.registered?).Nodup := by
  have hrun := run_induct
    (P := fun s => (s.Numbered ∧ s.Matched) ∧ s.Called ∧ s.Exact ∧
      (s.history.filterMap Mark.registered?).Nodup)
    (fun s s' hm h => ?_) labels _
    ⟨run_matched timeout [], .fresh timeout, .fresh timeout, List.nodup_nil⟩
  · exact hrun.2
  · obtain ⟨⟨hn, hw⟩, hc, he, ho⟩ := h
    exact ⟨⟨numbered_moves hn hm, matched_moves hw hn hm⟩, called_moves hc hn hm,
      exact_moves he hw hm, once_moves ho hn hm⟩

theorem pendingCalls_eq_zero (h : ∀ id, s.pending? id = none) : s.client.pendingCalls = 0 := by
  refine List.length_eq_zero_iff.2 (List.eq_nil_iff_forall_not_mem.2 fun e he => ?_)
  have hp : s.pending? e.1 = some e.2 := Table.mem_toList_iff.1 he
  rw [h e.1] at hp
  cases hp

theorem Engaged.pendingCalls (h : s.Engaged)
    (hr : ∀ id call, s.calls.get? id = some call → ∃ result, call = .returned result) :
    s.client.pendingCalls = 0 := by
  refine pendingCalls_eq_zero fun id => ?_
  cases hp : s.pending? id with
  | none => rfl
  | some slot =>
    obtain ⟨call, hc, hne⟩ := h.pending id slot hp
    obtain ⟨result, rfl⟩ := hr id call hc
    exact absurd rfl (hne result)

/-- **Registry accounting.** Run a client in any order of steps, with any answers of its
transport and any events.
* The calls that have got past the open gate are numbered from one on, whatever has become of
  them, and none is registered twice. The next one gets the decimal text of the next number,
  which is new: it publishes a request under that id, or fails at once because the registry is
  sealed.
* A call on a client that is not open is turned away and leaves no trace.
* Pending are exactly the calls that were registered and have since not been taken off by a
  reply, the end of the subscription, the end of their wait or a failed request; when all calls
  have returned there are none.
* A request that fails takes its own entry off, if it is still there, and no other.
* What takes calls off is told by the steps: the replies are those that the listener has taken, a
  drain takes all that is pending, and a call whose wait is over takes its own entry off. -/
theorem run_tallied (timeout : Timeout) (labels : List Label) :
    let s := (fresh timeout).run labels
    let passed := (fresh timeout).admitted labels
    (∀ id, (s.calls.get? id).isSome ↔ ∃ k, 1 ≤ k ∧ k ≤ passed ∧ id = toString k) ∧
      (s.history.filterMap Mark.registered?).Nodup ∧
      (∀ m, s.admits (.start (.calling m)) = true →
        let id := toString (passed + 1)
        let s' := s.step (.start (.calling m))
        s.calls.get? id = none ∧ .registered id ∉ s.history ∧
          (s.sealedBy? = none ∧ s'.history = s.history ++ [.registered id] ∧
              (∃ m', s'.stage = some (.publishing id m') ∧
                m'.properties.correlationId = some id) ∨
            ∃ cause, s.sealedBy? = some cause ∧ s'.history = s.history ∧
              s'.client.replies.registry = s.client.replies.registry ∧
              s'.calls.get? id = some (.returned (.error (.transportShutdown cause))))) ∧
      (∀ m, s.client.isOpen = false →
        s.client.start (.calling m) = (s.client, .failed .notOpen) ∧
          s.step (.start (.calling m)) = s) ∧
      (∀ id, (s.pending? id).isSome ↔ Awaited s.history id) ∧
      ((∀ id call, s.calls.get? id = some call → ∃ result, call = .returned result) →
        s.client.pendingCalls = 0) ∧
      (∀ id m e, s.stage = some (.publishing id m) →
        let s' := s.step (.answer (.error e))
        s'.calls.get? id = some (.returned (.error (.ofRefusal e))) ∧ s'.pending? id = none ∧
          (∀ other, other ≠ id → s'.pending? other = s.pending? other) ∧
          s'.history = s.history ++ [.unpublished id (.ofRefusal e)]) ∧
      eventMarks s.history = (fresh timeout).heard labels ∧
      (∀ cause, s.listener = .draining cause →
        ∃ slots, (s.step .listen).history = s.history ++ [.drained slots cause] ∧
          (∀ id, id ∈ slots ↔ (s.pending? id).isSome) ∧
          ∀ id, (s.step .listen).pending? id = none) ∧
      ∀ id waited, s.calls.get? id = some (.withdrawing waited) → (s.pending? id).isSome →
        let s' := s.step (.look id)
        s'.history = s.history ++ [.timedOut id] ∧ s'.pending? id = none ∧
          ∀ other, other ≠ id → s'.pending? other = s.pending? other := by
  obtain ⟨hn, hw⟩ := run_matched timeout labels
  obtain ⟨hc, he, ho⟩ := run_called timeout labels
  have hlast := lastId_fresh_run timeout labels
  have hen := run_engaged timeout labels
  intro s passed
  rw [show (fresh timeout).run labels = s from rfl] at *
  rw [show (fresh timeout).admitted labels = passed from rfl] at hlast
  have hnext : s.nextId = toString (passed + 1) := by rw [nextId, idOf, hlast]
  refine ⟨fun id => ?_, ho, fun m ha => ?_, fun m hno => start_of_notOpen hno m, he,
    hen.pendingCalls, fun id m e hs => ?_, eventMarks_run _ labels, fun cause hl => ?_,
    fun id waited hc hp => ?_⟩
  · rw [hc id, hlast]
    rfl
  · have hunknown : s.calls.get? s.nextId = none :=
      Option.eq_none_iff_forall_ne_some.2 fun call hc => hn.nextId_ne hc rfl
    rw [← hnext]
    refine ⟨hunknown, hn.unregistered, ?_⟩
    rw [start_of_admits ha]
    cases hcause : s.sealedBy? with
    | none => exact Or.inl ⟨rfl, rfl, _, rfl, get_stamp _ _ _ .correlationId⟩
    | some cause =>
      exact Or.inr ⟨cause, rfl, rfl, registry_enroll hcause, Table.get?_insert_self _ _ _⟩
  · rw [step, answer_refused hs]
    exact ⟨Table.get?_insert_self _ _ _, pending?_take_self s id,
      fun other hne => pending?_take_other hne, rfl⟩
  · simp only [step, listen, hl]
    exact ⟨_, rfl, fun id => hw.mem_drain, fun id => rfl⟩
  · obtain ⟨slot, hp⟩ := Option.isSome_iff_exists.1 hp
    rw [step, look_withdrawn hc hp]
    exact ⟨rfl, pending?_take_self s id, fun other hne => pending?_take_other hne⟩

/-- The reply is quicker than the failure of the request. -/
def outpaced : List Label :=
  [.start .opening, .answer (.ok "q"), .answer (.ok "t"),
    .start (.calling { routingKey := "work" }), .event "t" (.delivery (replyTo "1" [1])),
    .answer (.error (.exchangeNotFound "x"))]

/-- The call fails under its id, nothing is left of it, and the next call gets the next id. -/
theorem run_tallied_outpaced :
    let s := (fresh .infinite).run outpaced
    s.calls.get? "1" = some (.returned (.error (.transport (.exchangeNotFound "x")))) ∧
      ¬Awaited s.history "1" ∧ s.client.pendingCalls = 0 ∧
      (s.step (.start (.calling { routingKey := "work" }))).history =
        s.history ++ [.registered "2"] := by
  obtain ⟨hknown, -, hnext, -, hpending, hzero, -⟩ := run_tallied .infinite outpaced
  refine ⟨rfl, fun ha => ?_, hzero fun id call hc => ?_, ?_⟩
  · have hp := (hpending "1").2 ha
    cases hp
  · obtain ⟨k, hk, hle, rfl⟩ := (hknown id).1 (Option.isSome_of_eq_some hc)
    obtain rfl : k = 1 := Nat.le_antisymm hle hk
    exact ⟨_, (Option.some.inj hc).symm⟩
  · rcases (hnext { routingKey := "work" } rfl).2.2 with ⟨-, hh, -⟩ | ⟨cause, hs, -⟩
    · exact hh
    · cases hs

end System

end BrokeredRpc.Client
