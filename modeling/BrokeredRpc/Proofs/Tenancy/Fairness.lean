import BrokeredRpc.Proofs.Tenancy.Shutdown

/-!
# Calls return after a shutdown

A run that goes on for ever is fair to a call if the threads that have to do
with it get their turns again and again (`Fair`): the delivery thread of the
client, the request under way, and the caller that waits. When the channel has
been shut down, that is all it takes for the call to return.

A property that holds at some point of the run (`Sometime`) leads to another one
if it lasts until a step that recurs, and that step brings the other one about
(`Sometime.leads`). In this way the delivery thread works off the inbox
(`Sometime.delivered`), and with the last event all that is left for the call is
to look.

* `Severed.returns`: every call returns in every fair run.
-/
namespace BrokeredRpc.Tenancy

variable {s s' : System} {i : Nat} {t t' : Tenant} {cause : Shutdown} {labels : Nat → Label}
  {P Q : Tenant → Prop}

/-! ## Runs that go on for ever -/

/-- The state after the first steps of a run that goes on for ever. -/
def System.trace (s : System) (labels : Nat → Label) : Nat → System
  | 0 => s
  | n + 1 => (s.trace labels n).step (labels n)

theorem System.trace_eq_run (s : System) (labels : Nat → Label) (n : Nat) :
    s.trace labels n = s.run ((List.range n).map labels) := by
  induction n with
  | zero => rfl
  | succ n ih =>
    rw [List.range_succ, List.map_append, System.run_append, ← ih]
    rfl

/-- The label comes again and again. -/
def Recurs (labels : Nat → Label) (label : Label) : Prop := ∀ n, ∃ m, n ≤ m ∧ labels m = label

/-- All that has to do with a call gets its turn again and again. -/
structure Fair (labels : Nat → Label) (i : Nat) (id : String) : Prop where
  turn : Recurs labels (.move i .turn)
  ask : Recurs labels (.ask i)
  answer : Recurs labels (.move i .answer)
  look : Recurs labels (.move i (.look id))

/-- At some point of the run the client has a property. -/
def Sometime (s : System) (labels : Nat → Label) (i : Nat) (cause : Shutdown)
    (P : Tenant → Prop) : Prop :=
  ∃ n t, Severed (s.trace labels n) i t cause ∧ P t

namespace Sometime

/-- What lasts until a label comes that brings about something else, leads to that. -/
theorem leads {label : Label} (h : Sometime s labels i cause P) (hfair : Recurs labels label)
    (hstep : ∀ {s s' : System} {t t' : Tenant}, Severed s i t cause → Severed s' i t' cause →
      Advances cause t t' → P t → P t' ∨ Q t')
    (hgoal : ∀ {s : System} {t t' : Tenant}, Severed s i t cause →
      Severed (s.step label) i t' cause → P t → Q t') : Sometime s labels i cause Q := by
  obtain ⟨n, t, h, hp⟩ := h
  obtain ⟨m, hm, hlabel⟩ := hfair n
  have hwait : ∀ d, Sometime s labels i cause Q ∨
      ∃ u, Severed (s.trace labels (n + d)) i u cause ∧ P u := by
    intro d
    induction d with
    | zero => exact Or.inr ⟨t, h, hp⟩
    | succ d ih =>
      rcases ih with ih | ⟨u, hu, hpu⟩
      · exact Or.inl ih
      · obtain ⟨u', hu', ha⟩ := hu.step (labels (n + d))
        rcases hstep hu hu' ha hpu with hpu' | hq
        · exact Or.inr ⟨u', hu', hpu'⟩
        · exact Or.inl ⟨n + d + 1, u', hu', hq⟩
  rcases hwait (m - n) with hq | ⟨u, hu, hpu⟩
  · exact hq
  · rw [Nat.add_sub_cancel' hm] at hu
    obtain ⟨u', hu', -⟩ := hu.step (labels m)
    exact ⟨m + 1, u', hu', hgoal hu (hlabel ▸ hu') hpu⟩

theorem lasting (h : Sometime s labels i cause P) (ht : Severed s i t cause) (hq : Q t)
    (hstep : ∀ {s : System} {t t' : Tenant}, Severed s i t cause → Advances cause t t' →
      Q t → Q t') : Sometime s labels i cause fun t => P t ∧ Q t := by
  obtain ⟨n, u, hu, hp⟩ := h
  obtain ⟨u', hu', hq'⟩ := Severed.run (P := Q) hstep ((List.range n).map labels) ht hq
  rw [← System.trace_eq_run] at hu'
  obtain rfl := Option.some.inj (hu.tenant.symm.trans hu'.tenant)
  exact ⟨n, u, hu, hp, hq'⟩

end Sometime

/-! ## The delivery thread -/

/-- Where the delivery thread is. -/
def At (listener : Client.Listener) (inbox : List Event) (t : Tenant) : Prop :=
  t.client.listener = listener ∧ t.inbox = inbox

/-- The delivery thread stays where it is until it gets its turn. -/
theorem Advances.delivery (ha : Advances cause t t') :
    At t.client.listener t.inbox t' ∨ t' = t.move .turn := by
  cases ha with
  | stayed => exact Or.inl ⟨rfl, rfl⟩
  | refused => exact Or.inl ⟨rfl, rfl⟩
  | moved m =>
    cases m with
    | start op => exact Or.inl ⟨t.client.listener_start op, rfl⟩
    | answer =>
      refine Or.inl ?_
      simp only [Tenant.move]
      split
      · next a _ => exact ⟨t.client.listener_answer a, rfl⟩
      · exact ⟨rfl, rfl⟩
    | turn => exact Or.inr rfl
    | look id => exact Or.inl ⟨t.client.listener_look id, rfl⟩
    | tick nanos => exact Or.inl ⟨rfl, rfl⟩

theorem At.turn {listener : Client.Listener} {inbox : List Event} (hat : At listener inbox t)
    (hl : listener ≠ .idle) : t.move .turn = { t with client := t.client.listen } := by
  rcases t.turn_cases with ⟨_, _, _, hidle, -⟩ | he
  · exact absurd (hat.1.symm.trans hidle) hl
  · exact he

theorem Tenant.turn_of_idle (hl : t.client.listener = .idle) {tag : String}
    (ht : t.tag? = some tag) {event : Event} {rest : List Event} (hi : t.inbox = event :: rest) :
    (t.move .turn).inbox = rest := by
  simp only [move, hl, ht, hi]

namespace Sometime

variable {listener : Client.Listener} {inbox : List Event}

theorem turn (h : Sometime s labels i cause (At listener inbox))
    (hfair : Recurs labels (.move i .turn))
    (hturn : ∀ {s : System} {t : Tenant}, Severed s i t cause → At listener inbox t →
      Q (t.move .turn)) : Sometime s labels i cause Q := by
  refine h.leads hfair (fun hs _ ha hp => ?_) fun hs hs' hp => ?_
  · obtain ⟨rfl, rfl⟩ := hp
    rcases ha.delivery with hat | rfl
    · exact Or.inl hat
    · exact Or.inr (hturn hs ⟨rfl, rfl⟩)
  · obtain rfl := Option.some.inj (hs'.tenant.symm.trans (hs.move .turn).tenant)
    exact hturn hs hp

theorem fills (hfair : Recurs labels (.move i .turn)) {cause' : Shutdown} :
    ∀ {slots : List String}, Sometime s labels i cause (At (.failing slots cause') inbox) →
      Sometime s labels i cause (At .idle inbox) := by
  intro slots
  induction slots with
  | nil =>
    refine fun h => h.turn hfair fun _ hat => ?_
    rw [hat.turn fun h => by cases h]
    refine ⟨?_, hat.2⟩
    simp only [Client.System.listen, hat.1]
  | cons slot rest ih =>
    refine fun h => ih (h.turn hfair fun _ hat => ?_)
    rw [hat.turn fun h => by cases h]
    refine ⟨?_, hat.2⟩
    simp only [Client.System.listen, hat.1]

theorem idle (hfair : Recurs labels (.move i .turn))
    (h : Sometime s labels i cause (·.inbox = inbox)) :
    Sometime s labels i cause (At .idle inbox) := by
  obtain ⟨n, t, ht, hi⟩ := h
  cases hl : t.client.listener with
  | idle => exact ⟨n, t, ht, hl, hi⟩
  | answering number slot outcome =>
    have hat : Sometime s labels i cause (At (.answering number slot outcome) inbox) :=
      ⟨n, t, ht, hl, hi⟩
    refine hat.turn hfair fun _ hat => ?_
    rw [hat.turn fun h => by cases h]
    refine ⟨?_, hat.2⟩
    simp only [Client.System.listen, hat.1]
  | draining cause' =>
    have hat : Sometime s labels i cause (At (.draining cause') inbox) := ⟨n, t, ht, hl, hi⟩
    obtain ⟨m, u, hu, slots, hfailing⟩ := hat.turn hfair
      (Q := fun u => ∃ slots, At (.failing slots cause') inbox u) fun {_ u} _ hat => by
        rw [hat.turn fun h => by cases h]
        refine ⟨u.client.client.replies.registry.drain.1, ?_, hat.2⟩
        simp only [Client.System.listen, hat.1]
    exact fills hfair ⟨m, u, hu, hfailing⟩
  | failing slots cause' => exact fills hfair ⟨n, t, ht, hl, hi⟩

theorem delivered (hfair : Recurs labels (.move i .turn)) :
    ∀ {inbox : List Event}, Sometime s labels i cause (·.inbox = inbox) →
      Sometime s labels i cause (At .idle []) := by
  intro inbox
  induction inbox with
  | nil => exact idle hfair
  | cons event rest ih =>
    refine fun h => ih ((idle hfair h).turn hfair fun hs hat => ?_)
    obtain ⟨tag, -, ht, -⟩ := hs.ended
    exact Tenant.turn_of_idle hat.1 ht hat.2

end Sometime

/-- The end of the subscription has been dealt with. -/
def Over (t : Tenant) : Prop := ∃ cause, .ended cause ∈ t.client.history

theorem Severed.dealt (h : Severed s i t cause) (hat : At .idle [] t) : Over t := by
  obtain ⟨taken, hstream, hmarks⟩ := h.housed.heard
  obtain ⟨deliveries, he⟩ := h.stream
  obtain ⟨-, -, hcaused, -⟩ := h.housed.invariants
  rw [hat.2, List.append_nil, he] at hstream
  have hlast : .sealed cause ∈ t.client.history := by
    refine (Client.mem_eventMarks.1 ?_).1
    rw [hmarks, ← hstream]
    exact List.mem_map_of_mem (List.mem_append_right _ List.mem_cons_self)
  rcases hcaused.dealt cause hlast with hover | ⟨cause', hl | ⟨slots, hl⟩⟩
  · exact hover
  · rw [hat.1] at hl; cases hl
  · rw [hat.1] at hl; cases hl

/-! ## The call -/

section Calls

variable {id : String} {call : Client.Call}

theorem Over.advances (h : Over t) (ha : Advances cause t t') : Over t' :=
  h.imp fun _ hm => Client.System.mem_history_moves ha.moves hm

theorem Severed.value (h : Severed s i t cause) (ho : Over t)
    (hc : t.client.calls.get? id = some call) (hr : ∀ result, call ≠ .returned result) :
    t.client.pending? id = none ∧ ∃ outcome, t.client.value? id = some outcome := by
  obtain ⟨-, ⟨haccounted, hsealing⟩, -⟩ := h.housed.invariants
  obtain ⟨cause', he⟩ := ho
  obtain ⟨⟨all, hd⟩, -⟩ := hsealing.ended cause' he
  exact ⟨(hsealing.drained all cause' hd).2 id,
    (haccounted.settled hsealing he (haccounted.active id call hc hr)).value hc hr⟩

/-- How far a call has come, when the end of the subscription has been dealt with. -/
def Reaches (id : String) (t : Tenant) (calls : Client.Call → Prop) : Prop :=
  Over t ∧ ∃ call, t.client.calls.get? id = some call ∧ calls call

theorem Severed.call_advances (h : Severed s i t cause) (ha : Advances cause t t') (ho : Over t)
    (hc : t.client.calls.get? id = some call) :
    Reaches id t' fun call' => call' = call ∨ Client.System.Goes call call' :=
  ⟨ho.advances ha, Client.System.call_moves h.housed.invariants.1.1 ha.moves hc⟩

theorem Severed.look (h : Severed s i t cause) (ho : Over t)
    (hc : t.client.calls.get? id = some call) (hp : call ≠ .publishing) :
    Reaches id (t.move (.look id)) fun call =>
      call = .resolving ∨ ∃ result, call = .returned result := by
  have ha : Advances cause t (t.move (.look id)) := .moved (.look id)
  refine ⟨ho.advances ha, ?_⟩
  show ∃ call, (t.client.look id).calls.get? id = some call ∧ _
  have hvalue := h.value ho hc
  cases call with
  | publishing => exact absurd rfl hp
  | waiting since =>
    obtain ⟨-, outcome, hv⟩ := hvalue fun _ h => by cases h
    rw [Client.System.look_of_value hv (Or.inl ⟨since, hc⟩)]
    exact ⟨_, Table.get?_insert_self _ _ _, Or.inr ⟨_, rfl⟩⟩
  | withdrawing waited =>
    rw [Client.System.look_of_outrun hc (hvalue fun _ h => by cases h).1]
    exact ⟨_, Table.get?_insert_self _ _ _, Or.inl rfl⟩
  | resolving =>
    obtain ⟨-, outcome, hv⟩ := hvalue fun _ h => by cases h
    rw [Client.System.look_of_value hv (Or.inr hc)]
    exact ⟨_, Table.get?_insert_self _ _ _, Or.inr ⟨_, rfl⟩⟩
  | returned result =>
    rw [Client.System.look_of_returned hc]
    exact ⟨_, hc, Or.inr ⟨result, rfl⟩⟩

theorem Severed.look_resolving (h : Severed s i t cause) (ho : Over t)
    (hc : t.client.calls.get? id = some .resolving) :
    ∃ result, (t.move (.look id)).client.calls.get? id = some (.returned result) := by
  obtain ⟨-, outcome, hv⟩ := h.value ho hc fun _ h => by cases h
  show ∃ result, (t.client.look id).calls.get? id = some (.returned result)
  rw [Client.System.look_of_value hv (Or.inr hc)]
  exact ⟨_, Table.get?_insert_self _ _ _⟩

namespace Sometime

theorem answered (hfair : Fair labels i id)
    (h : Sometime s labels i cause (Reaches id · (· = .publishing))) :
    Sometime s labels i cause fun t =>
      Reaches id t (· ≠ .publishing) ∨ Reaches id t (· = .publishing) ∧ t.held ≠ none := by
  refine h.leads hfair.ask (fun hs _ ha hp => ?_) fun {s t t'} hs hs' hp => ?_
  · obtain ⟨ho, call, hc, rfl⟩ := hp
    obtain ⟨ho', call', hc', rfl | hgoes⟩ := hs.call_advances ha ho hc
    · exact Or.inl ⟨ho', _, hc', rfl⟩
    · exact Or.inr (Or.inl ⟨ho', call', hc', hgoes.ne_publishing⟩)
  · obtain ⟨ho, call, hc, rfl⟩ := hp
    obtain ⟨-, -, -, hengaged⟩ := hs.housed.invariants
    obtain ⟨m, hstage⟩ := hengaged.publishing id hc
    obtain ⟨u, hu, hcases⟩ := hs.ask
    obtain rfl := Option.some.inj (hs'.tenant.symm.trans hu.tenant)
    refine Or.inr ?_
    rcases hcases with ⟨rfl, hheld⟩ | ⟨_, -, -, rfl⟩
    · exact ⟨⟨ho, _, hc, rfl⟩, hheld _ hstage⟩
    · exact ⟨⟨ho, _, hc, rfl⟩, fun h => by cases h⟩

theorem published (hfair : Fair labels i id)
    (h : Sometime s labels i cause fun t => Reaches id t (· = .publishing) ∧ t.held ≠ none) :
    Sometime s labels i cause (Reaches id · (· ≠ .publishing)) := by
  -- A call whose request is answered publishes until it takes the answer, and no longer.
  have hmove : ∀ {s : System} {t : Tenant}, Severed s i t cause → t.held ≠ none →
      ∀ m, t.client.stage = some (.publishing id m) →
        (t.move .answer).client.stage = none := by
    intro s t hs hheld m hstage
    cases ha : t.held with
    | none => exact absurd ha hheld
    | some a =>
      simp only [Tenant.move, ha, Client.System.step]
      rw [(Client.System.client_answer hstage a).2]
      cases a with
      | ok name => rfl
      | error e => cases e <;> rfl
  have hover : ∀ {s s' : System} {t t' : Tenant}, Severed s i t cause → Severed s' i t' cause →
      Advances cause t t' → Reaches id t (· = .publishing) →
      (Reaches id t' (· = .publishing) ∧ ∃ m m', t.client.stage = some (.publishing id m) ∧
        t'.client.stage = some (.publishing id m')) ∨ Reaches id t' (· ≠ .publishing) := by
    rintro s s' t t' hs hs' ha ⟨ho, call, hc, rfl⟩
    obtain ⟨ho', call', hc', rfl | hgoes⟩ := hs.call_advances ha ho hc
    · obtain ⟨-, -, -, hengaged⟩ := hs.housed.invariants
      obtain ⟨-, -, -, hengaged'⟩ := hs'.housed.invariants
      obtain ⟨m, hm⟩ := hengaged.publishing id hc
      obtain ⟨m', hm'⟩ := hengaged'.publishing id hc'
      exact Or.inl ⟨⟨ho', _, hc', rfl⟩, m, m', hm, hm'⟩
    · exact Or.inr ⟨ho', call', hc', hgoes.ne_publishing⟩
  refine h.leads hfair.answer (fun {s s' t t'} hs hs' ha hp => ?_) fun {s t t'} hs hs' hp => ?_
  · obtain ⟨hp, hheld⟩ := hp
    obtain ⟨hp', m, m', hm, hm'⟩ | hp' := hover hs hs' ha hp
    case inr => exact Or.inr hp'
    refine Or.inl ⟨hp', ?_⟩
    cases ha with
    | stayed => exact hheld
    | refused _ hh => exact absurd hh hheld
    | moved mv =>
      by_cases he : mv = .answer
      · subst he
        rw [hmove hs hheld m hm] at hm'; cases hm'
      · rw [(Tenant.move_of_stage hm fun h => absurd h he).2]
        exact hheld
  · obtain ⟨hp, hheld⟩ := hp
    obtain rfl := Option.some.inj (hs'.tenant.symm.trans (hs.move .answer).tenant)
    rcases hover hs hs' (.moved .answer) hp with ⟨-, m, m', hm, hm'⟩ | hp'
    · rw [hmove hs hheld m hm] at hm'; cases hm'
    · exact hp'

/-- Two looks are all that a call takes from then on. -/
theorem returned (hfair : Fair labels i id)
    (h : Sometime s labels i cause (Reaches id · (· ≠ .publishing))) :
    Sometime s labels i cause fun t =>
      ∃ result, t.client.calls.get? id = some (.returned result) := by
  have hlooked : Sometime s labels i cause fun t =>
      Reaches id t fun call => call = .resolving ∨ ∃ result, call = .returned result := by
    refine h.leads hfair.look (fun hs _ ha hp => ?_) fun hs hs' hp => ?_
    · obtain ⟨ho, call, hc, hp⟩ := hp
      obtain ⟨ho', call', hc', rfl | hgoes⟩ := hs.call_advances ha ho hc
      · exact Or.inl ⟨ho', _, hc', hp⟩
      · exact Or.inl ⟨ho', call', hc', hgoes.ne_publishing⟩
    · obtain ⟨ho, call, hc, hp⟩ := hp
      obtain rfl := Option.some.inj (hs'.tenant.symm.trans (hs.move (.look id)).tenant)
      exact hs.look ho hc hp
  obtain ⟨n, t, ht, ho, call, hc, rfl | ⟨result, rfl⟩⟩ := hlooked
  · have hresolving : Sometime s labels i cause (Reaches id · (· = .resolving)) :=
      ⟨n, t, ht, ho, _, hc, rfl⟩
    refine hresolving.leads hfair.look (fun hs _ ha hp => ?_) fun hs hs' hp => ?_
    · obtain ⟨ho, call, hc, rfl⟩ := hp
      obtain ⟨ho', call', hc', rfl | hgoes⟩ := hs.call_advances ha ho hc
      · exact Or.inl ⟨ho', _, hc', rfl⟩
      · cases hgoes
        exact Or.inr ⟨_, hc'⟩
    · obtain ⟨ho, call, hc, rfl⟩ := hp
      obtain rfl := Option.some.inj (hs'.tenant.symm.trans (hs.move (.look id)).tenant)
      exact hs.look_resolving ho hc
  · exact ⟨n, t, ht, result, hc⟩

end Sometime

/-- **Calls return.** When the channel of a client has been shut down, every call on it returns at
some point of every run that is fair to the call. -/
theorem Severed.returns (h : Severed s i t cause) (hfair : Fair labels i id)
    (hc : (t.client.calls.get? id).isSome) :
    Sometime s labels i cause fun t =>
      ∃ result, t.client.calls.get? id = some (.returned result) := by
  have hstart : Sometime s labels i cause (·.inbox = t.inbox) := ⟨0, t, h, rfl⟩
  obtain ⟨n, u, hu, hat, hcalled⟩ := (Sometime.delivered hfair.turn hstart).lasting h
    (Q := fun t => (t.client.calls.get? id).isSome) hc fun hs ha hcall => by
      obtain ⟨call, hc⟩ := Option.isSome_iff_exists.1 hcall
      obtain ⟨call', hc', -⟩ := Client.System.call_moves hs.housed.invariants.1.1 ha.moves hc
      exact Option.isSome_of_eq_some hc'
  have hover := hu.dealt hat
  obtain ⟨call, hcall⟩ := Option.isSome_iff_exists.1 hcalled
  by_cases hp : call = .publishing
  · obtain ⟨m, v, hv, hpub | hpub⟩ := Sometime.answered hfair ⟨n, u, hu, hover, call, hcall, hp⟩
    · exact Sometime.returned hfair ⟨m, v, hv, hpub⟩
    · exact Sometime.returned hfair (Sometime.published hfair ⟨m, v, hv, hpub⟩)
  · exact Sometime.returned hfair ⟨n, u, hu, hover, call, hcall, hp⟩

end Calls

end BrokeredRpc.Tenancy
