import BrokeredRpc.Proofs.Client.Tally

/-!
# Clients whose events and looks are indivisible

A listener that is done with an event before anything else happens, and a caller
that withdraws with the look at which its wait is over, leave less to chance than
`System.step` allows. `System.act` makes an event what `Client.receive` does and a
look what `Client.look` does, at once; what the transport answers and how acts
follow one another is still up to the acts. Every run of acts is a run of steps
(`acts_steps`).

What an event tells a call is `Event.tells?`: the outcome of a reply to it, or the
cause that ends the subscription, and nothing if the event is a reply to another
call. From its registration on, a call that is under way has been told exactly
what its slot holds (`Engages`), and one act brings it on or lets it return
(`Engages.act`).
-/
namespace BrokeredRpc

/-- What an event of the subscription `tag` tells the call `id`. -/
def Event.tells? (id tag : String) : Event → Option Outcome
  | .delivery d =>
    if d.properties.correlationId = some id then some (.ofReply d.properties d.body) else none
  | .shutdown cause => some (.shutdown cause)
  | .cancelled => some (.shutdown (.consumerCancelled tag))

theorem Replies.value_slot_fillAll (outcome : Outcome) (k : String) (names : List String) :
    ∀ r : Replies, ((r.fillAll names outcome).slot k).value =
      if k ∈ names then some ((r.slot k).value.getD outcome) else (r.slot k).value := by
  induction names with
  | nil => exact fun _ => rfl
  | cons name rest ih =>
    intro r
    refine (ih (r.fill name outcome).2).trans ?_
    rw [value_slot_fill]
    by_cases hk : name = k
    · subst hk
      simp
    · simp [hk, Ne.symm hk]

theorem Replies.registry_fillAll (outcome : Outcome) (names : List String) :
    ∀ r : Replies, (r.fillAll names outcome).registry = r.registry := by
  induction names with
  | nil => exact fun _ => rfl
  | cons name rest ih => exact fun r => ih (r.fill name outcome).2

theorem Replies.registry_endWith (r : Replies) (cause : Shutdown) :
    (r.endWith cause).registry = (r.registry.shutdown cause).2 :=
  Replies.registry_fillAll _ _ _

theorem Replies.value_slot_endWith (r : Replies) (cause : Shutdown) (k : String) :
    ((r.endWith cause).slot k).value =
      if k ∈ r.registry.drain.1 then some ((r.slot k).value.getD (.shutdown cause))
      else (r.slot k).value :=
  Replies.value_slot_fillAll _ k _ _

namespace Client

/-! ## What an event does to one call -/

section Receive

variable {c : Client} {id tag : String} {event : Event} {outcome : Outcome}

theorem receive_of_filled (hv : (c.replies.slot id).value = some outcome) :
    ((c.receive tag event).replies.slot id).value = some outcome := by
  have hfill : ∀ (r : Replies) (name : String) (o : Outcome), (r.slot id).value = some outcome →
      ((r.fill name o).2.slot id).value = some outcome := by
    intro r name o hr
    rw [Replies.value_slot_fill]
    split
    · next he => rw [he, hr]; rfl
    · exact hr
  have hend : ∀ cause, ((c.replies.endWith cause).slot id).value = some outcome := by
    intro cause
    rw [Replies.value_slot_endWith, hv]
    split <;> rfl
  cases event with
  | shutdown cause => exact hend cause
  | cancelled => exact hend (.consumerCancelled tag)
  | delivery d =>
    rw [receive, Replies.handle, Replies.deliver]
    split
    · exact hv
    · next other _ =>
      have hkept : ((c.replies.take other).2.slot id).value = some outcome := hv
      split
      · next name r he => rw [he] at hkept; exact hfill r name _ hkept
      · next r he => rw [he] at hkept; exact hkept

theorem receive_of_untold (h : c.Numbered) (ht : event.tells? id tag = none) :
    (c.receive tag event).replies.registry.pending.get? id =
        c.replies.registry.pending.get? id ∧
      ((c.receive tag event).replies.slot id).value = (c.replies.slot id).value := by
  cases event with
  | shutdown => cases ht
  | cancelled => cases ht
  | delivery d =>
    rw [receive, Replies.handle, Replies.deliver]
    split
    · exact ⟨rfl, rfl⟩
    · next other hother =>
      have hne : other ≠ id := by
        rintro rfl
        simp [Event.tells?, hother] at ht
      have hpending := Replies.get?_pending_take c.replies other id
      rw [if_neg hne] at hpending
      have htake : (c.replies.take other).1 = c.replies.registry.pending.get? other := rfl
      have hslot : ((c.replies.take other).2.slot id).value = (c.replies.slot id).value := rfl
      split
      · next name r he =>
        rw [he] at hpending htake hslot
        obtain ⟨rfl, -⟩ := h.pending other name htake.symm
        exact ⟨hpending, (Replies.value_slot_fill ..).trans ((if_neg hne).trans hslot)⟩
      · next r he =>
        rw [he] at hpending hslot
        exact ⟨hpending, hslot⟩

theorem receive_of_told (hp : c.replies.registry.pending.get? id = some id)
    (hv : (c.replies.slot id).value = none) (ht : event.tells? id tag = some outcome) :
    ((c.receive tag event).replies.slot id).value = some outcome := by
  have hend : ∀ cause, ((c.replies.endWith cause).slot id).value = some (.shutdown cause) := by
    intro cause
    rw [Replies.value_slot_endWith, if_pos (Registry.mem_drain.2 ⟨id, hp⟩), hv]
    rfl
  cases event with
  | shutdown cause => cases ht; exact hend cause
  | cancelled => cases ht; exact hend _
  | delivery d =>
    rw [Event.tells?] at ht
    split at ht
    · next hid =>
      cases ht
      have htake : c.replies.take id = (some id, (c.replies.take id).2) := Prod.ext hp rfl
      rw [receive, Replies.handle, Replies.deliver, hid]
      dsimp only
      rw [htake]
      refine (Replies.value_slot_fill ..).trans ?_
      rw [if_pos rfl, Replies.slot_take, hv]
      rfl
    · cases ht

theorem receive_of_absent (hp : c.replies.registry.pending.get? id = none) :
    (c.receive tag event).replies.registry.pending.get? id = none := by
  have hend : ∀ cause, (c.replies.endWith cause).registry.pending = ∅ := fun cause => by
    rw [Replies.registry_endWith]
    rfl
  cases event with
  | shutdown cause => exact congrArg (·.get? id) (hend cause)
  | cancelled => exact congrArg (·.get? id) (hend (.consumerCancelled tag))
  | delivery d =>
    rw [receive, Replies.handle, Replies.deliver]
    split
    · exact hp
    · next other _ =>
      have hkept := Replies.get?_pending_take c.replies other id
      rw [hp, ite_self] at hkept
      split
      · next name r he => rw [he] at hkept; exact hkept
      · next r he => rw [he] at hkept; exact hkept

/-- **A late reply is dropped**: one to a call that is not registered changes nothing. -/
theorem receive_of_late (hp : c.replies.registry.pending.get? id = none) {d : Delivery}
    (hid : d.properties.correlationId = some id) : c.receive tag (.delivery d) = c := by
  rw [receive, Replies.handle, Replies.deliver, hid]
  dsimp only
  rw [Replies.take_of_absent hp]

end Receive

/-! ## Acts -/

/-- What happens to a client, one thing at a time. -/
inductive Act
  | start (op : Operation)
  /-- The transport answers the operation under way. -/
  | answer (answer : Except TransportError String)
  | event (tag : String) (event : Event)
  | look (id : String)
  | tick (nanos : Nat)

namespace System

def act (s : System) : Act → System
  | .start op => s.start op
  | .answer a => s.answer a
  | .event tag event => { s with client := s.client.receive tag event }
  | .look id =>
    match s.calls.get? id with
    | some (.waiting since) =>
      match s.client.look id since s.now with
      | (some result, client) => { s with client, calls := s.calls.insert id (.returned result) }
      | (none, client) => { s with client }
    | _ => s
  | .tick nanos => { s with now := s.now + nanos }

def acts (s : System) (l : List Act) : System := l.foldl act s

theorem acts_append (s : System) (l more : List Act) : s.acts (l ++ more) = (s.acts l).acts more :=
  List.foldl_append

variable {s s' : System} {id : String} {o : Option Outcome}

/-! ### What acts keep -/

theorem client_of_start (s : System) (op : Operation) :
    (s.start op).client = s.client ∨ (s.start op).client = (s.client.start op).1 := by
  unfold start
  split
  · exact Or.inl rfl
  refine Or.inr ?_
  split
  · next he => rw [he]
  · next he => rw [he]
  · next he =>
    rw [he]
    split <;> rfl
  · next he => rw [he]
  · next he => rw [he]

theorem client_of_answer (s : System) (a : Except TransportError String) :
    (s.answer a).client = s.client ∨
      ∃ (stage : Stage) (answer : Except TransportError stage.Grant),
        (s.answer a).client = (s.client.resume stage answer).1 := by
  unfold answer
  split
  · exact Or.inl rfl
  · next id m _ =>
    refine Or.inr ⟨.publishing id m, a.map (Stage.grant (.publishing id m)), ?_⟩
    split <;> next he => exact (congrArg Prod.fst he).symm
  · next stage _ _ =>
    refine Or.inr ⟨stage, a.map stage.grant, ?_⟩
    split <;> next he => exact (congrArg Prod.fst he).symm

/-- Ids are used once. -/
structure Orderly (s : System) : Prop where
  calls : s.Numbered
  replies : s.client.Numbered

theorem Orderly.fresh (timeout : Timeout) : (System.fresh timeout).Orderly :=
  ⟨.fresh timeout, .fresh timeout⟩

theorem Orderly.act (h : s.Orderly) (a : Act) : (s.act a).Orderly := by
  cases a with
  | start op =>
    refine ⟨numbered_moves h.calls (start_moves s op), ?_⟩
    rcases client_of_start s op with he | he <;> rw [System.act, he]
    · exact h.replies
    · exact h.replies.start op
  | answer a =>
    refine ⟨numbered_moves h.calls (answer_moves s a), ?_⟩
    rcases client_of_answer s a with he | ⟨stage, answer, he⟩ <;> rw [System.act, he]
    · exact h.replies
    · exact h.replies.resume stage answer
  | event tag event =>
    exact ⟨h.calls.of_same rfl (fun _ _ hs => hs) rfl fun _ hm => hm,
      h.replies.receive tag event⟩
  | look id =>
    simp only [System.act]
    split
    · next since hc =>
      have hlook := h.replies.look id since s.now
      have hlast : (s.client.look id since s.now).2.lastId = s.client.lastId := by
        rcases look_snd s.client id since s.now with he | he <;> rw [he]
        rfl
      split
      · next result client he =>
        rw [he] at hlook hlast
        exact ⟨h.calls.of_call hc hlast (h.calls.not_publishing hc nofun) rfl fun _ hm => hm, hlook⟩
      · next client he =>
        rw [he] at hlook hlast
        exact ⟨h.calls.of_same hlast (fun _ _ hs => hs) rfl fun _ hm => hm, hlook⟩
    · exact h
  | tick nanos => exact ⟨h.calls.of_same rfl (fun _ _ hs => hs) rfl fun _ hm => hm, h.replies⟩

theorem Orderly.acts (h : s.Orderly) (l : List Act) : (s.acts l).Orderly := by
  induction l generalizing s with
  | nil => exact h
  | cons a rest ih => exact ih (h.act a)

theorem timeout_act (s : System) (a : Act) : (s.act a).client.timeout = s.client.timeout := by
  cases a with
  | start op =>
    rcases client_of_start s op with he | he <;> rw [System.act, he]
    rcases start_fst s.client op with he | he <;> rw [he]
    rfl
  | answer a =>
    rcases client_of_answer s a with he | ⟨stage, answer, he⟩ <;> rw [System.act, he]
    unfold resume
    split <;> rfl
  | event tag event => rfl
  | look id =>
    simp only [act]
    split
    · next since hc =>
      have hlook : (s.client.look id since s.now).2.timeout = s.client.timeout := by
        rcases look_snd s.client id since s.now with he | he <;> rw [he]
        rfl
      split <;> next he => rw [he] at hlook; exact hlook
    · rfl
  | tick nanos => rfl

theorem timeout_acts (l : List Act) :
    ∀ s : System, (s.acts l).client.timeout = s.client.timeout := by
  induction l with
  | nil => exact fun _ => rfl
  | cons a rest ih => exact fun s => (ih (s.act a)).trans (timeout_act s a)

/-! ### Other calls -/

/-- What a client holds for one call. -/
structure Same (id : String) (s s' : System) : Prop where
  call : s'.calls.get? id = s.calls.get? id
  value : s'.value? id = s.value? id
  pending : s'.pending? id = s.pending? id

theorem Same.refl (id : String) (s : System) : Same id s s := ⟨rfl, rfl, rfl⟩

/-- The beginning of an operation concerns no call that has an id already. -/
theorem same_start (hu : s.Used id) (op : Operation) : Same id s (s.start op) := by
  have hne : s.nextId ≠ id := by
    rintro rfl
    exact not_used_nextId s hu
  unfold start
  split
  · exact .refl id s
  rcases start_cases s op with ⟨progress, h, hp, -⟩ | ⟨m, hs, h⟩ | ⟨cause, hc, h⟩ <;> rw [h]
  · cases progress with
    | asking stage =>
      cases stage
      case publishing id' m => exact absurd rfl (hp id' m)
      all_goals exact ⟨rfl, rfl, rfl⟩
    | failed e =>
      dsimp only
      rw [if_pos rfl]
      exact .refl id s
    | done => exact .refl id s
    | waiting id' => exact .refl id s
  · refine ⟨?_, value?_enroll s id, (pending?_enroll hs id).trans (if_neg hne)⟩
    exact (Table.get?_insert _ _ _ _).trans (if_neg hne)
  · have hlast : s.enroll.client.lastId ≠ s.client.lastId := Nat.succ_ne_self _
    dsimp only
    rw [if_neg hlast]
    refine ⟨?_, value?_enroll s id, congrArg (·.pending.get? id) (registry_enroll hc)⟩
    exact (Table.get?_insert _ _ _ _).trans (if_neg hne)

theorem answer_cases (s : System) (a : Except TransportError String) :
    (∃ id m, s.stage = some (.publishing id m) ∧
      (((∃ name, a = .ok name) ∧
          s.answer a = { s with stage := none, calls := s.calls.insert id (.waiting s.now) }) ∨
        ∃ e, a = .error e ∧ s.answer a =
          { s.withReplies (s.client.replies.take id).2 with
            stage := none
            calls := s.calls.insert id (.returned (.error (.ofRefusal e)))
            history := s.history ++ [.unpublished id (.ofRefusal e)] })) ∨
    ((s.answer a).calls = s.calls ∧ (s.answer a).client.replies = s.client.replies) := by
  by_cases hs : ∃ id m, s.stage = some (.publishing id m)
  · obtain ⟨id, m, hs⟩ := hs
    refine Or.inl ⟨id, m, hs, ?_⟩
    cases a with
    | ok name =>
      refine Or.inl ⟨⟨name, rfl⟩, ?_⟩
      simp only [answer, hs]
      rfl
    | error e => exact Or.inr ⟨e, rfl, answer_refused hs e⟩
  · have hs' : ∀ id m, s.stage ≠ some (.publishing id m) := fun id m he => hs ⟨id, m, he⟩
    refine Or.inr ⟨calls_answer_other hs' a, ?_⟩
    unfold answer
    split
    · rfl
    · next id m he => exact absurd he (hs' id m)
    · next stage _ he =>
      cases stage with
      | publishing id m => exact absurd he (hs' id m)
      | discarding queue failure => rfl
      | cancelling queue tag =>
        cases a with
        | ok name => rfl
        | error e => cases e <;> rfl
      | _ => cases a <;> rfl

theorem same_answer (hn : ∀ m, s.stage ≠ some (.publishing id m))
    (a : Except TransportError String) : Same id s (s.answer a) := by
  rcases answer_cases s a with ⟨other, m, hs, ⟨-, he⟩ | ⟨e, -, he⟩⟩ | ⟨hc, hr⟩
  · have hne : other ≠ id := by
      rintro rfl
      exact hn m hs
    rw [he]
    exact ⟨(Table.get?_insert _ _ _ _).trans (if_neg hne), rfl, rfl⟩
  · have hne : other ≠ id := by
      rintro rfl
      exact hn m hs
    rw [he]
    refine ⟨(Table.get?_insert _ _ _ _).trans (if_neg hne), rfl, ?_⟩
    exact pending?_take_other (Ne.symm hne)
  · exact ⟨by rw [hc], by rw [value?, value?, hr], by rw [pending?, pending?, hr]⟩

theorem same_look {other : String} (hne : other ≠ id) : Same id s (s.act (.look other)) := by
  simp only [act]
  split
  · next since _ =>
    have hreplies : ∀ c : Client, c = s.client ∨ c = s.client.withdraw other →
        (c.replies.slot id).value = s.value? id ∧
          c.replies.registry.pending.get? id = s.pending? id := by
      rintro c (rfl | rfl)
      · exact ⟨rfl, rfl⟩
      · exact ⟨rfl, (Replies.get?_pending_take _ _ _).trans (if_neg hne)⟩
    have hlook := look_snd s.client other since s.now
    split <;> next c he =>
      rw [he] at hlook
      obtain ⟨hv, hp⟩ := hreplies c hlook
      first
        | exact ⟨(Table.get?_insert _ _ _ _).trans (if_neg hne), hv, hp⟩
        | exact ⟨rfl, hv, hp⟩
  · exact .refl id s

theorem returned_act (h : s.Orderly) {result : Except CallError Bytes}
    (hr : s.calls.get? id = some (.returned result)) (a : Act) :
    (s.act a).calls.get? id = some (.returned result) := by
  cases a with
  | start op => exact (same_start (h.calls.called id _ hr) op).call.trans hr
  | answer a =>
    refine (same_answer (fun m hs => ?_) a).call.trans hr
    have := h.calls.publishing id m hs
    rw [hr] at this; cases this
  | event tag event => exact hr
  | look other =>
    by_cases he : other = id
    · subst he
      simp only [act, hr]
    · exact (same_look he).call.trans hr
  | tick nanos => exact hr

theorem returned_acts {result : Except CallError Bytes} (l : List Act) :
    ∀ {s : System}, s.Orderly → s.calls.get? id = some (.returned result) →
      (s.acts l).calls.get? id = some (.returned result) := by
  induction l with
  | nil => exact fun _ hr => hr
  | cons a rest ih => exact fun h hr => ih (h.act a) (returned_act h hr a)

end System

/-! ## A call under way -/

/-- What an act tells the call `id`. -/
def Act.tells? (id : String) : Act → Option Outcome
  | .event tag e => e.tells? id tag
  | _ => none

/-- The first thing that acts tell the call `id`. -/
def told? (id : String) (l : List Act) : Option Outcome := l.findSome? (Act.tells? id)

theorem told?_cons (id : String) (a : Act) (rest : List Act) :
    told? id (a :: rest) = (a.tells? id).or (told? id rest) := by
  rw [told?, List.findSome?_cons]
  cases a.tells? id <;> rfl

namespace System

variable {s s' : System} {id : String} {told : Option Outcome}

/-- The call is under way. Its slot holds what it has been told, and until it is told something
it is registered. -/
structure Engages (s : System) (id : String) (told : Option Outcome) : Prop where
  call : s.calls.get? id = some .publishing ∨ ∃ since, s.calls.get? id = some (.waiting since)
  value : s.value? id = told
  filed : told = none → s.pending? id = some id

/-- How an act lets a call return that has been told as much. -/
inductive Concludes (s : System) (id : String) (told : Option Outcome) :
    Act → Except CallError Bytes → Prop
  | refused {m : Message} {e : TransportError} (hs : s.stage = some (.publishing id m)) :
      Concludes s id told (.answer (.error e)) (.error (.ofRefusal e))
  | resolved {since : Nat} {outcome : Outcome} (hc : s.calls.get? id = some (.waiting since))
      (ht : told = some outcome) : Concludes s id told (.look id) outcome.toResult
  | expired {since : Nat} {duration : Duration} (hc : s.calls.get? id = some (.waiting since))
      (ht : told = none) (hd : s.client.timeout = .after duration)
      (ho : s.client.timeout.isOver since s.now = true) :
      Concludes s id told (.look id) (.error (.timeout id duration))

namespace Engages

theorem same (h : s.Engages id told) (hs : Same id s s') : s'.Engages id told :=
  ⟨by rw [hs.call]; exact h.call, hs.value.trans h.value, fun ht => hs.pending.trans (h.filed ht)⟩

theorem used (h : s.Engages id told) (ho : s.Orderly) : s.Used id := by
  rcases h.call with hc | ⟨since, hc⟩ <;> exact ho.calls.called id _ hc

theorem of_start (ho : s.Orderly) {m : Message} (ha : s.admits (.start (.calling m)) = true)
    (hu : s.sealedBy? = none) : (s.act (.start (.calling m))).Engages s.nextId none := by
  have hs := start_of_admits ha
  rw [hu] at hs
  rw [act, show s.start (.calling m) = s.step (.start (.calling m)) from rfl, hs]
  refine ⟨Or.inl (Table.get?_insert_self _ _ _), ?_, fun _ => ?_⟩
  · exact (value?_enroll s s.nextId).trans ho.replies.next_free.2
  · exact (pending?_enroll hu s.nextId).trans (if_pos rfl)

theorem event (h : s.Engages id told) (ho : s.Orderly) (tag : String) (e : Event) :
    (s.act (.event tag e)).Engages id (told.or (e.tells? id tag)) := by
  cases told with
  | some outcome =>
    exact ⟨h.call, receive_of_filled h.value, nofun⟩
  | none =>
    cases ht : e.tells? id tag with
    | none =>
      obtain ⟨hp, hv⟩ := receive_of_untold ho.replies ht
      exact ⟨h.call, hv.trans h.value, fun _ => hp.trans (h.filed rfl)⟩
    | some outcome => exact ⟨h.call, receive_of_told (h.filed rfl) h.value ht, nofun⟩

/-- The caller looks at its own slot: it goes on waiting, or it returns. -/
theorem look (h : s.Engages id told) :
    s.act (.look id) = s ∨ ∃ result, s.Concludes id told (.look id) result ∧
      (s.act (.look id)).calls.get? id = some (.returned result) := by
  rcases h.call with hc | ⟨since, hc⟩
  · refine Or.inl ?_
    simp only [act, hc]
  have hvalue := h.value
  cases told with
  | some outcome =>
    refine Or.inr ⟨_, .resolved hc rfl, ?_⟩
    simp only [act, hc, look_of_filled hvalue, Table.get?_insert_self]
  | none =>
    rcases Slot.look_of_empty hvalue s.client.timeout since s.now with hl | ⟨d, hd, hover, hl⟩
    · refine Or.inl ?_
      simp only [act, hc, Client.look, hl]
    · have htake : s.client.replies.take id = (some id, (s.client.replies.take id).2) :=
        Prod.ext (h.filed rfl) rfl
      refine Or.inr ⟨_, .expired hc rfl hd hover, ?_⟩
      simp only [act, hc, Client.look, hl]
      rw [htake]
      exact Table.get?_insert_self _ _ _

theorem untold {a : Act} (h : s.Engages id told) (ha : a.tells? id = none) :
    s.Engages id (told.or (a.tells? id)) := by
  rwa [ha, Option.or_none]

/-- **One act** brings a call that is under way on, or lets it return. -/
theorem act (h : s.Engages id told) (ho : s.Orderly) (a : Act) :
    (s.act a).Engages id (told.or (a.tells? id)) ∨
      ∃ result, s.Concludes id told a result ∧
        (s.act a).calls.get? id = some (.returned result) := by
  cases a with
  | start op => exact Or.inl (untold (h.same (same_start (h.used ho) op)) rfl)
  | answer a =>
    by_cases hs : ∃ m, s.stage = some (.publishing id m)
    · obtain ⟨m, hs⟩ := hs
      rcases answer_cases s a with ⟨id', m', hs', ⟨-, he⟩ | ⟨e, rfl, he⟩⟩ | ⟨hc, hr⟩
      · rw [hs] at hs'; cases hs'
        refine Or.inl (untold ?_ rfl)
        show (s.answer a).Engages id told
        rw [he]
        exact ⟨Or.inr ⟨s.now, Table.get?_insert_self _ _ _⟩, h.value, h.filed⟩
      · rw [hs] at hs'; cases hs'
        refine Or.inr ⟨_, .refused hs, ?_⟩
        show (s.answer _).calls.get? id = _
        rw [he]
        exact Table.get?_insert_self _ _ _
      · have hsame : Same id s (s.answer a) :=
          ⟨by rw [hc], by rw [value?, value?, hr], by rw [pending?, pending?, hr]⟩
        exact Or.inl (untold (h.same hsame) rfl)
    · exact Or.inl (untold (h.same (same_answer (fun m he => hs ⟨m, he⟩) a)) rfl)
  | event tag e => exact Or.inl (h.event ho tag e)
  | look other =>
    by_cases he : other = id
    · subst he
      rcases h.look with hl | hl
      · exact Or.inl (untold (hl.symm ▸ h) rfl)
      · exact Or.inr hl
    · exact Or.inl (untold (h.same (same_look he)) rfl)
  | tick nanos => exact Or.inl (untold (h.same ⟨rfl, rfl, rfl⟩) rfl)

/-- **A run.** The call is under way at its end, or one act of it has let the call return. -/
theorem acts (l : List Act) : ∀ {s : System} {told : Option Outcome}, s.Engages id told →
    s.Orderly → (s.acts l).Engages id (told.or (told? id l)) ∨
      ∃ before a rest result, l = before ++ a :: rest ∧
        (s.acts before).Engages id (told.or (told? id before)) ∧
        (s.acts before).Concludes id (told.or (told? id before)) a result ∧
        (s.acts l).calls.get? id = some (.returned result) := by
  induction l with
  | nil => exact fun h _ => Or.inl (by rwa [told?, List.findSome?_nil, Option.or_none])
  | cons a rest ih =>
    intro s told h ho
    rcases h.act ho a with hon | ⟨result, hc, hr⟩
    · rcases ih hon (ho.act a) with hend | ⟨before, a', more, result, rfl, hb, hc, hr⟩
      · rw [Option.or_assoc, ← told?_cons] at hend
        exact Or.inl hend
      · rw [Option.or_assoc, ← told?_cons] at hb hc
        exact Or.inr ⟨a :: before, a', more, result, rfl, hb, hc, hr⟩
    · have hnil : told.or (told? id []) = told := Option.or_none
      refine Or.inr ⟨[], a, rest, result, rfl, ?_, ?_, returned_acts rest (ho.act a) hr⟩
      · rw [hnil]; exact h
      · rw [hnil]; exact hc

end Engages

/-! ## Acts are steps in a row -/

/-- A system without its history, which decides nothing. -/
def bare (s : System) : System := { s with history := [] }

theorem bare_eq_iff : s'.bare = s.bare ↔ s'.client = s.client ∧ s'.now = s.now ∧
    s'.stage = s.stage ∧ s'.listener = s.listener ∧ s'.calls = s.calls := by
  cases s
  cases s'
  simp [bare]

theorem bare_start (s : System) (op : Operation) : (s.start op).bare = (s.bare.start op).bare := by
  cases hs : s.stage with
  | some stage => simp only [start, bare, hs]
  | none =>
    cases hc : s.client.start op with
    | mk client progress =>
      simp only [start, bare, hs, hc]
      cases progress with
      | asking stage => cases stage <;> rfl
      | failed e => dsimp only; split <;> rfl
      | done => rfl
      | waiting id => rfl

theorem bare_answer (s : System) (a : Except TransportError String) :
    (s.answer a).bare = (s.bare.answer a).bare := by
  cases hs : s.stage with
  | none => simp only [answer, bare, hs]
  | some stage =>
    cases stage <;> simp only [answer, bare, hs] <;> split <;> rfl

/-- What an act does has nothing to do with the history. -/
theorem bare_act (s : System) (a : Act) : (s.act a).bare = (s.bare.act a).bare := by
  cases a with
  | start op => exact bare_start s op
  | answer a => exact bare_answer s a
  | event tag e => rfl
  | look id =>
    simp only [act, bare]
    split
    · split <;> rfl
    · rfl
  | tick nanos => rfl

/-- A caller that waits for an empty slot is registered, as long as the listener holds nothing. -/
theorem pending_of_waiting (ha : s.Accounted) (hl : s.listener = .idle) {since : Nat}
    (hc : s.calls.get? id = some (.waiting since)) (hv : s.value? id = none) :
    (s.pending? id).isSome := by
  rcases ha.placed id (ha.active id _ hc nofun) with hp | hh | hset
  · exact hp
  · rw [hl] at hh
    exact absurd hh List.not_mem_nil
  · obtain ⟨outcome, ho⟩ := hset.value hc nofun
    rw [hv] at ho; cases ho

/-- A look that is done at once is one step, or two, or none. -/
theorem look_steps (ha : s.Accounted) (hl : s.listener = .idle) (id : String) :
    ∃ labels, (s.run labels).listener = .idle ∧ (s.run labels).bare = (s.act (.look id)).bare := by
  by_cases hc : ∃ since, s.calls.get? id = some (.waiting since)
  · obtain ⟨since, hc⟩ := hc
    cases hv : s.value? id with
    | some outcome =>
      refine ⟨[.look id], ?_, ?_⟩
      · exact (listener_look s id).trans hl
      · show (s.look id).bare = _
        rw [look_of_value hv (Or.inl ⟨since, hc⟩)]
        simp only [act, hc, look_of_filled (show (s.client.replies.slot id).value = _ from hv)]
    | none =>
      obtain ⟨slot, hp⟩ := Option.isSome_iff_exists.1 (pending_of_waiting ha hl hc hv)
      rcases Slot.look_of_empty hv s.client.timeout since s.now with hlook | ⟨d, -, -, hlook⟩
      · refine ⟨[], hl, ?_⟩
        simp only [act, hc, Client.look, hlook]
        rfl
      · have hfirst : s.look id = { s with calls := s.calls.insert id (.withdrawing d) } := by
          simp only [look, hc, hlook]
        have htake : s.client.replies.take id = (some slot, (s.client.replies.take id).2) :=
          Prod.ext hp rfl
        refine ⟨[.look id, .look id], ?_, ?_⟩
        · exact (listener_look _ id).trans ((listener_look s id).trans hl)
        · show ((s.look id).look id).bare = _
          rw [hfirst, look_withdrawn (s := { s with calls := s.calls.insert id (.withdrawing d) })
            (Table.get?_insert_self _ _ _) hp]
          simp only [act, hc, Client.look, hlook]
          rw [htake]
          refine bare_eq_iff.2 ⟨rfl, rfl, rfl, rfl, Table.ext_get? fun k => ?_⟩
          simp only [Table.get?_insert]
          split <;> rfl
  · refine ⟨[], hl, congrArg bare ?_⟩
    show s = s.act (.look id)
    simp only [act]
    split
    · next since he => exact absurd ⟨since, he⟩ hc
    · rfl

theorem now_receive (s : System) (tag : String) (event : Event) :
    (s.receive tag event).now = s.now := by
  unfold receive
  split
  · split
    · unfold reply
      split
      · rfl
      · split <;> rfl
    · rfl
    · rfl
  · rfl

theorem frame_run_listen (n : Nat) : ∀ s : System,
    (s.run (.replicate n .listen)).stage = s.stage ∧
      (s.run (.replicate n .listen)).now = s.now := by
  induction n with
  | zero => exact fun _ => ⟨rfl, rfl⟩
  | succ n ih =>
    intro s
    have hnow : s.listen.now = s.now := by
      unfold listen
      split <;> rfl
    obtain ⟨hs, hn⟩ := ih s.listen
    exact ⟨hs.trans s.frame_listen.2, hn.trans hnow⟩

/-- **Acts are steps in a row**, apart from the history. -/
theorem act_steps (ha : s.Accounted) (hl : s.listener = .idle) (a : Act) :
    ∃ labels, (s.run labels).listener = .idle ∧ (s.run labels).bare = (s.act a).bare := by
  cases a with
  | start op => exact ⟨[.start op], (listener_start s op).trans hl, rfl⟩
  | answer a => exact ⟨[.answer a], (listener_answer s a).trans hl, rfl⟩
  | event tag e =>
    obtain ⟨n, hidle, hclient, hcalls⟩ := run_event hl tag e
    obtain ⟨hs, hn⟩ := frame_run_listen n (s.receive tag e)
    refine ⟨_, hidle, bare_eq_iff.2 ⟨hclient, ?_, ?_, hidle.trans hl.symm, hcalls⟩⟩
    · exact hn.trans (now_receive s tag e)
    · exact hs.trans (frame_receive s tag e).2
  | look id => exact look_steps ha hl id
  | tick nanos => exact ⟨[.tick nanos], hl, rfl⟩

/-- **Every run of acts is a run of steps**, apart from the history. -/
theorem acts_steps (timeout : Timeout) (l : List Act) :
    ∃ labels, ((fresh timeout).run labels).listener = .idle ∧
      ((fresh timeout).run labels).bare = ((fresh timeout).acts l).bare := by
  have hrun : ∀ (l : List Act) (labels : List Label) (s : System),
      ((fresh timeout).run labels).listener = .idle →
      ((fresh timeout).run labels).bare = s.bare →
      ∃ labels, ((fresh timeout).run labels).listener = .idle ∧
        ((fresh timeout).run labels).bare = (s.acts l).bare := by
    intro l
    induction l with
    | nil => exact fun labels s hidle hbare => ⟨labels, hidle, hbare⟩
    | cons a rest ih =>
      intro labels s hidle hbare
      obtain ⟨more, hidle', hbare'⟩ := act_steps (run_accounted timeout labels).1 hidle a
      refine ih (labels ++ more) (s.act a) ?_ ?_
      · rw [run_append]; exact hidle'
      · rw [run_append, hbare', bare_act, hbare, ← bare_act]
  exact hrun l [] (fresh timeout) rfl rfl

end System

end Client

end BrokeredRpc
