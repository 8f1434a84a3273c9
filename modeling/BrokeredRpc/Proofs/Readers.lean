import BrokeredRpc.WaitingRoom
import Mathlib.Data.List.Induction

/-!
# A slot among threads

Any number of threads write one slot, read it and wait on it. What is indivisible is one
critical section: a write, a read, and of a call that waits its first look and the look after
each wakeup. A sleeper may be woken at any time and for no reason, and be told that its
deadline has passed at any time from the deadline on. `Shared` is a waiting room in which
`step` takes one such step; `history` lists what each step answered, with the time, oldest
first. It decides nothing.

* `Recorded.run`: the slot and the waits are what the history says, and each answer follows
  from those before it;
* `run_readers_agree`: one write wins, all readers see it from then on, and a wait gives up
  only at its deadline and without a write before it;
* `run_sweep`: what a `WaitingRoom` does is one of the interleavings.
-/
namespace BrokeredRpc.Slot

variable {α : Type}

/-! ## States -/

/-- Whose turn it is: a thread writes, reads or begins to wait, a sleeper is woken or told that
its deadline has passed, or time goes by. -/
inductive Label (α : Type)
  | set (value : α)
  | tryGet
  | isSet
  | get (thread : String) (timeout : Timeout)
  | wake (thread : String)
  | expire (thread : String)
  | pass (nanos : Nat)

/-- What a step has answered. -/
inductive Mark (α : Type)
  | set (value : α) (written : Bool)
  | found (value? : Option α)
  | told (filled : Bool)
  | began (thread : String) (timeout : Timeout)
  | slept (thread : String)
  | returned (thread : String) (result : Except SlotTimeout α)
  deriving DecidableEq

structure Entry (α : Type) where
  time : Nat
  mark : Mark α
  deriving DecidableEq

structure Shared (α : Type) where
  room : WaitingRoom α := {}
  history : List (Entry α) := []

/-- The value that a step tried to write. -/
def Mark.value? : Mark α → Option α
  | set value _ => some value
  | found _ | told _ | began .. | slept _ | returned .. => none

/-- The value of the first write. -/
def firstSet? (past : List (Entry α)) : Option α := past.findSome? (·.mark.value?)

/-- What a step makes of the wait of a thread. -/
def Entry.after (thread : String) (wait? : Option (Wait α)) (e : Entry α) : Option (Wait α) :=
  match e.mark with
  | .began other timeout => if other = thread then some (.pending timeout e.time) else wait?
  | .returned other result => if other = thread then some (.ended result) else wait?
  | .set .. | .found _ | .told _ | .slept _ => wait?

/-- The wait of a thread, as the history tells it. -/
def wait? (thread : String) (past : List (Entry α)) : Option (Wait α) :=
  past.foldl (Entry.after thread) none

theorem firstSet?_concat (past : List (Entry α)) (e : Entry α) :
    firstSet? (past ++ [e]) = (firstSet? past).or e.mark.value? := by
  unfold firstSet?
  simp [List.findSome?_append]

theorem wait?_concat (thread : String) (past : List (Entry α)) (e : Entry α) :
    wait? thread (past ++ [e]) = e.after thread (wait? thread past) := by
  unfold wait?
  simp

/-- How an answer follows from the answers before it: everything shows the first write, and a
wait gives up with its own duration, when it is over. -/
def Entry.Follows (past : List (Entry α)) (e : Entry α) : Prop :=
  match e.mark with
  | .set _ written => written = (firstSet? past).isNone
  | .found value? => value? = firstSet? past
  | .told filled => filled = (firstSet? past).isSome
  | .began thread _ => ∀ timeout since, wait? thread past ≠ some (.pending timeout since)
  | .slept _ => firstSet? past = none
  | .returned thread result => ∃ timeout since,
    wait? thread past = some (.pending timeout since) ∧
      match result with
      | .ok value => firstSet? past = some value
      | .error expired => firstSet? past = none ∧ timeout = .after expired.waited ∧
        timeout.isOver since e.time = true

/-! ## Agreement -/

/-- Whether the step was a write that took effect. -/
def Mark.wins : Mark α → Bool
  | set _ written => written
  | found _ | told _ | began .. | slept _ | returned .. => false

/-- The value that a step has answered. -/
def Mark.read? : Mark α → Option α
  | found value? => value?
  | returned _ (.ok value) => some value
  | returned _ (.error _) | set .. | told _ | began .. | slept _ => none

/-- The answer tells that the value is in the slot. Nobody goes to sleep any more. -/
def Mark.Shows (value : α) : Mark α → Prop
  | set _ written => written = false
  | found value? => value? = some value
  | told filled => filled = true
  | began .. => True
  | slept _ => False
  | returned _ result => result = .ok value

/-- The answers of a slot agree with each other. -/
structure Agrees (history : List (Entry α)) : Prop where
  one : history.countP (·.mark.wins) ≤ 1
  /-- The first write wins. -/
  first : ∀ past t value written, past ++ [⟨t, .set value written⟩] <+: history →
    (written = true ↔ ∀ e ∈ past, e.mark.value? = none)
  /-- From the winning write on, everybody sees its value. -/
  later : ∀ past e, past ++ [e] <+: history → ∀ t value, ⟨t, .set value true⟩ ∈ past →
    e.mark.Shows value
  /-- A value that is seen has been written by the winning write before. -/
  source : ∀ past e, past ++ [e] <+: history → ∀ value, e.mark.read? = some value →
    ∃ t, ⟨t, .set value true⟩ ∈ past
  /-- A wait gives up with the duration that was asked for, at its deadline or later, with no
  write before; and no write at all comes before the deadline. -/
  timeout : ∀ past t thread expired,
    past ++ [⟨t, .returned thread (.error expired)⟩] <+: history →
      ∃ since deadline, wait? thread past = some (.pending (.after expired.waited) since) ∧
        (Timeout.after expired.waited).deadline? since = some deadline ∧ deadline ≤ t ∧
        (∀ e ∈ past, e.mark.value? = none) ∧
        ∀ e ∈ history, e.mark.value?.isSome → deadline ≤ e.time
  /-- A wait without a deadline, or with one beyond the clock, does not give up. -/
  unlimited : ∀ past t thread result timeout since,
    past ++ [⟨t, .returned thread result⟩] <+: history →
      wait? thread past = some (.pending timeout since) → timeout.deadline? since = none →
        ∃ value, result = .ok value

namespace Entry.Follows

variable {past : List (Entry α)} {e : Entry α} {value : α}

theorem shows (h : e.Follows past) (hfirst : firstSet? past = some value) :
    e.mark.Shows value := by
  obtain ⟨t, mark⟩ := e
  cases mark with
  | set other written => exact h.trans (by rw [hfirst]; rfl)
  | found value? => exact h.trans hfirst
  | told filled => exact h.trans (by rw [hfirst]; rfl)
  | began thread timeout => trivial
  | slept thread =>
    have hnone : firstSet? past = none := h
    rw [hfirst] at hnone
    cases hnone
  | returned thread result =>
    obtain ⟨timeout, since, -, hresult⟩ := h
    rw [hfirst] at hresult
    cases result with
    | ok other =>
      cases hresult
      rfl
    | error expired => cases hresult.1

theorem source (h : e.Follows past) (hread : e.mark.read? = some value) :
    firstSet? past = some value := by
  obtain ⟨t, mark⟩ := e
  cases mark with
  | found value? => exact (Eq.symm h).trans hread
  | returned thread result =>
    obtain ⟨timeout, since, -, hresult⟩ := h
    cases result with
    | ok other =>
      cases hread
      exact hresult
    | error expired => cases hread
  | _ => cases hread

end Entry.Follows

namespace Shared

/-! ## Steps -/

def note (s : Shared α) (mark : Mark α) : Shared α :=
  { s with history := s.history ++ [⟨s.room.now, mark⟩] }

/-- The thread begins to wait. -/
def start (s : Shared α) (thread : String) (timeout : Timeout) : Shared α :=
  { s with room.waits := s.room.waits.insert thread (.pending timeout s.room.now) }.note
    (.began thread timeout)

/-- The thread returns from its call. -/
def finish (s : Shared α) (thread : String) (result : Except SlotTimeout α) : Shared α :=
  { s with room.waits := s.room.waits.insert thread (.ended result) }.note
    (.returned thread result)

/-- A look at the slot by a thread that has been woken. It does not look at the clock. -/
def wake (s : Shared α) (thread : String) : Shared α :=
  match s.room.waits.get? thread with
  | some (.pending _ since) =>
    match s.room.slot.look .infinite since s.room.now with
    | some result => s.finish thread result
    | none => s.note (.slept thread)
  | some (.ended _) | none => s

/-- The last look at the slot by a thread whose deadline has passed. -/
def expire (s : Shared α) (thread : String) : Shared α :=
  match s.room.waits.get? thread with
  | some (.pending timeout since) =>
    if timeout.isOver since s.room.now then
      match s.room.slot.look timeout since s.room.now with
      | some result => s.finish thread result
      | none => s.note (.slept thread)
    else s
  | some (.ended _) | none => s

/-- One step. A thread that waits begins nothing else, and only a thread that waits can be woken
or told the time. -/
def step (s : Shared α) : Label α → Shared α
  | .set value =>
    let (written, slot) := s.room.slot.set value
    { s with room.slot := slot }.note (.set value written)
  | .tryGet => s.note (.found s.room.slot.tryGet)
  | .isSet => s.note (.told s.room.slot.isSet)
  | .get thread timeout =>
    match s.room.waits.get? thread with
    | some (.pending ..) => s
    | some (.ended _) | none => (s.start thread timeout).wake thread
  | .wake thread => s.wake thread
  | .expire thread => s.expire thread
  | .pass nanos => { s with room.now := s.room.now + nanos }

def run (s : Shared α) (labels : List (Label α)) : Shared α := labels.foldl step s

theorem run_cons (s : Shared α) (label : Label α) (rest : List (Label α)) :
    s.run (label :: rest) = (s.step label).run rest := rfl

/-! ## What the history tells -/

/-- Each answer follows from those before it, and the room is what the history says. -/
structure Recorded (s : Shared α) : Prop where
  follows : ∀ past e, past ++ [e] <+: s.history → e.Follows past
  value : s.room.slot.value = firstSet? s.history
  waits : ∀ thread, s.room.waits.get? thread = wait? thread s.history
  elapsed : ∀ e ∈ s.history, e.time ≤ s.room.now
  ordered : s.history.Pairwise (·.time ≤ ·.time)

namespace Recorded

variable {s : Shared α} {thread : String} {timeout : Timeout} {since : Nat}

theorem fresh : ({} : Shared α).Recorded where
  follows past e h := by simp at h
  value := rfl
  waits _ := rfl
  elapsed _ he := absurd he List.not_mem_nil
  ordered := .nil

theorem note (h : s.Recorded) {room : WaitingRoom α} {mark : Mark α}
    (hnow : room.now = s.room.now) (hfollows : Entry.Follows s.history ⟨s.room.now, mark⟩)
    (hvalue : room.slot.value = s.room.slot.value.or mark.value?)
    (hwaits : ∀ thread, room.waits.get? thread =
      Entry.after thread (s.room.waits.get? thread) ⟨s.room.now, mark⟩) :
    Recorded ⟨room, s.history ++ [⟨s.room.now, mark⟩]⟩ where
  follows past e hp := by
    rcases List.prefix_concat_iff.1 hp with he | hp
    · obtain ⟨rfl, hlast⟩ := List.append_inj' he rfl
      cases hlast
      exact hfollows
    · exact h.follows past e hp
  value := by rw [hvalue, h.value, firstSet?_concat]
  waits thread := by rw [hwaits, h.waits, wait?_concat]
  elapsed e he := by
    show e.time ≤ room.now
    rw [hnow]
    rcases List.mem_append.1 he with he | he
    · exact h.elapsed e he
    · exact Nat.le_of_eq (congrArg Entry.time (List.mem_singleton.1 he))
  ordered := by
    rw [List.pairwise_append]
    refine ⟨h.ordered, List.pairwise_singleton _ _, ?_⟩
    intro e he e' he'
    rw [List.mem_singleton.1 he']
    exact h.elapsed e he

theorem reading (h : s.Recorded) {mark : Mark α}
    (hfollows : Entry.Follows s.history ⟨s.room.now, mark⟩) (hvalue : mark.value? = none)
    (hwaits : ∀ thread wait?, Entry.after thread wait? ⟨s.room.now, mark⟩ = wait?) :
    (s.note mark).Recorded := by
  refine h.note rfl hfollows ?_ fun thread => (hwaits thread _).symm
  rw [hvalue, Option.or_none]

theorem set (h : s.Recorded) (value : α) : (s.step (.set value)).Recorded := by
  refine h.note rfl ?_ ?_ fun _ => rfl
  · show (s.room.slot.set value).1 = (firstSet? s.history).isNone
    rw [← h.value]
    unfold Slot.set
    cases s.room.slot.value <;> rfl
  · show (s.room.slot.set value).2.value = _
    rw [value_set]
    cases s.room.slot.value <;> rfl

theorem pass (h : s.Recorded) (nanos : Nat) : (s.step (.pass nanos)).Recorded where
  follows := h.follows
  value := h.value
  waits := h.waits
  elapsed e he := Nat.le_add_right_of_le (h.elapsed e he)
  ordered := h.ordered

theorem start (h : s.Recorded)
    (hidle : ∀ timeout since, s.room.waits.get? thread ≠ some (.pending timeout since)) :
    (s.start thread timeout).Recorded := by
  refine h.note rfl ?_ (Option.or_none).symm fun other => Table.get?_insert _ _ _ _
  intro timeout since
  rw [← h.waits]
  exact hidle timeout since

theorem slept (h : s.Recorded) (hempty : s.room.slot.value = none) :
    (s.note (.slept thread)).Recorded :=
  h.reading (h.value.symm.trans hempty) rfl fun _ _ => rfl

theorem found (h : s.Recorded) (hw : s.room.waits.get? thread = some (.pending timeout since))
    {value : α} (hvalue : s.room.slot.value = some value) :
    (s.finish thread (.ok value)).Recorded := by
  refine h.note rfl ?_ (Option.or_none).symm fun other => Table.get?_insert _ _ _ _
  exact ⟨timeout, since, (h.waits thread).symm.trans hw, h.value.symm.trans hvalue⟩

theorem gaveUp (h : s.Recorded) {duration : Duration}
    (hw : s.room.waits.get? thread = some (.pending (.after duration) since))
    (hempty : s.room.slot.value = none)
    (hover : (Timeout.after duration).isOver since s.room.now = true) :
    (s.finish thread (.error ⟨duration⟩)).Recorded := by
  refine h.note rfl ?_ (Option.or_none).symm fun other => Table.get?_insert _ _ _ _
  exact ⟨.after duration, since, (h.waits thread).symm.trans hw, h.value.symm.trans hempty, rfl,
    hover⟩

theorem wake (h : s.Recorded) (thread : String) : (s.wake thread).Recorded := by
  unfold Shared.wake
  split
  · next timeout since hw =>
    cases hvalue : s.room.slot.value with
    | some value =>
      rw [look_of_set hvalue]
      exact h.found hw hvalue
    | none =>
      rw [(look_infinite_eq_none_iff _ _ _).2 hvalue]
      exact h.slept hvalue
  · exact h
  · exact h

theorem expire (h : s.Recorded) (thread : String) : (s.expire thread).Recorded := by
  unfold Shared.expire
  split
  · next timeout since hw =>
    split
    · next hover =>
      cases hvalue : s.room.slot.value with
      | some value =>
        rw [look_of_set hvalue]
        exact h.found hw hvalue
      | none =>
        rcases look_of_empty hvalue timeout since s.room.now with hl | ⟨duration, rfl, -, hl⟩
        · rw [hl]
          exact h.slept hvalue
        · rw [hl]
          exact h.gaveUp hw hvalue hover
    · exact h
  · exact h
  · exact h

theorem step (h : s.Recorded) (label : Label α) : (s.step label).Recorded := by
  cases label with
  | set value => exact h.set value
  | tryGet => exact h.reading h.value rfl fun _ _ => rfl
  | isSet => exact h.reading (congrArg Option.isSome h.value) rfl fun _ _ => rfl
  | get thread timeout =>
    unfold Shared.step
    dsimp only
    split
    · exact h
    · next hw => exact (h.start (by rw [hw]; simp)).wake thread
    · next hw => exact (h.start (by rw [hw]; simp)).wake thread
  | wake thread => exact h.wake thread
  | expire thread => exact h.expire thread
  | pass nanos => exact h.pass nanos

theorem run (h : s.Recorded) (labels : List (Label α)) : (s.run labels).Recorded := by
  induction labels generalizing s with
  | nil => exact h
  | cons label rest ih => exact ih (h.step label)

end Recorded

/-! ## What all readers see -/

variable {s : Shared α}

/-- The first write is the one that was told so. -/
theorem Recorded.firstSet?_iff (h : s.Recorded) {past : List (Entry α)}
    (hp : past <+: s.history) {value : α} :
    firstSet? past = some value ↔ ∃ t, ⟨t, .set value true⟩ ∈ past := by
  -- A write that is found in the past follows from what comes before it there.
  have hset : ∀ {before rest : List (Entry α)} {t : Nat} {v : α} {written : Bool},
      past = before ++ ⟨t, .set v written⟩ :: rest → written = (firstSet? before).isNone := by
    intro before rest t v written he
    refine h.follows before ⟨t, .set v written⟩ (List.IsPrefix.trans ⟨rest, ?_⟩ hp)
    rw [he, List.append_assoc, List.singleton_append]
  constructor
  · intro hfirst
    obtain ⟨before, ⟨t, mark⟩, rest, he, hmark, hbefore⟩ := List.findSome?_eq_some_iff.1 hfirst
    cases mark with
    | set v written =>
      cases hmark
      have hnone : firstSet? before = none := List.findSome?_eq_none_iff.2 hbefore
      have hw := hset he
      rw [hnone] at hw
      subst hw
      exact ⟨t, he ▸ List.mem_append_right _ List.mem_cons_self⟩
    | _ => cases hmark
  · rintro ⟨t, hm⟩
    obtain ⟨before, rest, he⟩ := List.append_of_mem hm
    have hnone : firstSet? before = none := Option.isNone_iff_eq_none.1 (hset he).symm
    rw [he, firstSet?, List.findSome?_append, ← firstSet?, hnone]
    rfl

theorem Recorded.countP_wins (h : s.Recorded) {past : List (Entry α)}
    (hp : past <+: s.history) :
    past.countP (·.mark.wins) = if (firstSet? past).isSome then 1 else 0 := by
  induction past using List.reverseRecOn with
  | nil => rfl
  | append_singleton past e ih =>
    have hfollows := h.follows past e hp
    rw [List.countP_append, ih ((List.prefix_append _ _).trans hp), firstSet?_concat]
    obtain ⟨t, mark⟩ := e
    cases mark with
    | set value written =>
      cases hfollows
      cases firstSet? past <;> rfl
    | _ =>
      cases firstSet? past <;> rfl

/-- A timeout comes at the deadline or later, and before every write. -/
theorem Recorded.deadline_le (h : s.Recorded) {past : List (Entry α)} {t : Nat} {thread : String}
    {expired : SlotTimeout}
    (hp : past ++ [⟨t, .returned thread (.error expired)⟩] <+: s.history) :
    ∃ since deadline, wait? thread past = some (.pending (.after expired.waited) since) ∧
      (Timeout.after expired.waited).deadline? since = some deadline ∧ deadline ≤ t ∧
      (∀ e ∈ past, e.mark.value? = none) ∧
      ∀ e ∈ s.history, e.mark.value?.isSome → deadline ≤ e.time := by
  obtain ⟨timeout, since, hwait, hnone, rfl, hover⟩ := h.follows past _ hp
  obtain ⟨deadline, hd, hle⟩ := (Option.any_eq_true _ _).1 hover
  have hbefore : ∀ e ∈ past, e.mark.value? = none := List.findSome?_eq_none_iff.1 hnone
  have hreached : deadline ≤ t := of_decide_eq_true hle
  refine ⟨since, deadline, hwait, hd, hreached, hbefore, ?_⟩
  obtain ⟨rest, hrest⟩ := hp
  have hordered := h.ordered
  rw [← hrest] at hordered ⊢
  have hafter : ∀ e ∈ rest, t ≤ e.time := by
    intro e he
    exact (List.pairwise_append.1 hordered).2.2 _ List.mem_concat_self e he
  intro e he hset
  -- A write comes before the return, or is the return, or comes after it.
  simp only [List.mem_append, List.mem_singleton] at he
  rcases he with (he | rfl) | he
  · rw [hbefore e he] at hset
    cases hset
  · cases hset
  · exact Nat.le_trans hreached (hafter e he)

theorem Recorded.wake_returns (h : s.Recorded) {thread : String} {timeout : Timeout} {since : Nat}
    (hw : s.room.waits.get? thread = some (.pending timeout since)) {value : α}
    (hfirst : firstSet? s.history = some value) :
    (s.wake thread).history = s.history ++ [⟨s.room.now, .returned thread (.ok value)⟩] := by
  have hvalue : s.room.slot.value = some value := h.value.trans hfirst
  simp only [Shared.wake, hw, look_of_set hvalue]
  rfl

theorem expire_returns {thread : String} {timeout : Timeout} {since : Nat}
    (hw : s.room.waits.get? thread = some (.pending timeout since))
    (hover : timeout.isOver since s.room.now = true) :
    ∃ result, (s.expire thread).history =
      s.history ++ [⟨s.room.now, .returned thread result⟩] := by
  cases hvalue : s.room.slot.value with
  | some value =>
    refine ⟨.ok value, ?_⟩
    simp only [expire, hw, hover, look_of_set hvalue]
    rfl
  | none =>
    cases timeout with
    | infinite => cases hover
    | after duration =>
      refine ⟨.error ⟨duration⟩, ?_⟩
      simp only [expire, hw, hover, look, hvalue]
      rfl

/-- **All readers agree**, whatever the threads do and in whatever order. A thread that waits
returns when it is woken after the first write, and when its deadline has passed. -/
theorem run_readers_agree (labels : List (Label α)) :
    Agrees (run {} labels).history ∧
      ∀ thread timeout since,
        (run {} labels).room.waits.get? thread = some (.pending timeout since) →
          (∀ value, firstSet? (run {} labels).history = some value →
            ((run {} labels).step (.wake thread)).history = (run {} labels).history ++
              [⟨(run {} labels).room.now, .returned thread (.ok value)⟩]) ∧
          (timeout.isOver since (run {} labels).room.now = true →
            ∃ result, ((run {} labels).step (.expire thread)).history =
              (run {} labels).history ++
                [⟨(run {} labels).room.now, .returned thread result⟩]) := by
  have h : (run {} labels).Recorded := Recorded.fresh.run labels
  generalize run {} labels = s at h
  refine ⟨?_, fun thread timeout since hw => ⟨fun value => h.wake_returns hw, expire_returns hw⟩⟩
  refine { one := ?one, first := ?first, later := ?later, source := ?source,
           timeout := ?timeout, unlimited := ?unlimited }
  case one =>
    rw [h.countP_wins List.prefix_rfl]
    split <;> omega
  case first =>
    intro past t value written hp
    have hfollows : written = (firstSet? past).isNone := h.follows past _ hp
    rw [hfollows, Option.isNone_iff_eq_none]
    exact List.findSome?_eq_none_iff
  case later =>
    intro past e hp t value hm
    have hfirst := (h.firstSet?_iff ((List.prefix_append _ _).trans hp)).2 ⟨t, hm⟩
    exact (h.follows past e hp).shows hfirst
  case source =>
    intro past e hp value hread
    have hfirst := (h.follows past e hp).source hread
    exact (h.firstSet?_iff ((List.prefix_append _ _).trans hp)).1 hfirst
  case timeout =>
    intro past t thread expired hp
    exact h.deadline_le hp
  case unlimited =>
    intro past t thread result timeout since hp hwait hnever
    cases result with
    | ok value => exact ⟨value, rfl⟩
    | error expired =>
      obtain ⟨since', deadline, hwait', hd, -⟩ := h.deadline_le hp
      rw [hwait] at hwait'
      cases hwait'
      rw [hnever] at hd
      cases hd

/-- Three threads wait, two of them for five milliseconds. One is woken for no reason. At the
deadline a write comes, just after one of them is told the time and just before the other is. -/
def photoFinish : List (Label Nat) :=
  [.get "a" (.after (Duration.ofMillis 5)), .get "b" .infinite,
    .get "c" (.after (Duration.ofMillis 5)), .wake "a", .pass 5_000_000, .expire "a", .set 7,
    .expire "c", .wake "b", .set 8, .tryGet]

theorem run_readers_agree_photoFinish :
    (run {} photoFinish).history.map (·.mark) =
      [.began "a" (.after (Duration.ofMillis 5)), .slept "a", .began "b" .infinite, .slept "b",
        .began "c" (.after (Duration.ofMillis 5)), .slept "c", .slept "a",
        .returned "a" (.error ⟨Duration.ofMillis 5⟩), .set 7 true, .returned "c" (.ok 7),
        .returned "b" (.ok 7), .set 8 false, .found (some 7)] ∧
      ∀ e ∈ (run {} photoFinish).history, e.mark.value?.isSome → 5_000_000 ≤ e.time := by
  refine ⟨by decide, ?_⟩
  obtain ⟨since, deadline, hwait, hd, -, -, hwrites⟩ := (run_readers_agree photoFinish).1.timeout
    ((run {} photoFinish).history.take 7) 5_000_000 "a" ⟨Duration.ofMillis 5⟩ (by decide)
  have hsince : since = 0 := by
    have hcall : wait? "a" ((run {} photoFinish).history.take 7) =
      some (.pending (.after (Duration.ofMillis 5)) 0) := rfl
    rw [hcall] at hwait
    cases hwait
    rfl
  subst hsince
  have hdeadline : deadline = 5_000_000 := by
    have hfive : (Timeout.after (Duration.ofMillis 5)).deadline? 0 = some 5_000_000 := by decide
    exact Option.some.inj (hd.symm.trans hfive)
  rw [← hdeadline]
  exact hwrites

/-! ## The waiting room as an interleaving -/

/-- Each of the threads is woken and then, if its deadline has passed, told so. -/
def sweep (threads : List String) : List (Label α) :=
  threads.flatMap fun thread => [.wake thread, .expire thread]

/-- The waits of some threads have looked at the slot, and nothing else has changed. -/
structure Looked (s : Shared α) (threads : List String) (s' : Shared α) : Prop where
  now : s'.room.now = s.room.now
  slot : s'.room.slot = s.room.slot
  waits : ∀ thread, s'.room.waits.get? thread =
    if thread ∈ threads then (s.room.waits.get? thread).map s.room.lookOnce
    else s.room.waits.get? thread

theorem lookOnce_of_some {room : WaitingRoom α} {timeout : Timeout} {since : Nat}
    {result : Except SlotTimeout α} (h : room.slot.look timeout since room.now = some result) :
    room.lookOnce (.pending timeout since) = .ended result := by
  simp only [WaitingRoom.lookOnce, h]

theorem lookOnce_of_none {room : WaitingRoom α} {timeout : Timeout} {since : Nat}
    (h : room.slot.look timeout since room.now = none) :
    room.lookOnce (.pending timeout since) = .pending timeout since := by
  simp only [WaitingRoom.lookOnce, h]

/-- A second look at the same slot and the same time finds nothing new. -/
theorem lookOnce_lookOnce (room : WaitingRoom α) (w : Wait α) :
    room.lookOnce (room.lookOnce w) = room.lookOnce w := by
  cases w with
  | ended result => rfl
  | pending timeout since =>
    cases h : room.slot.look timeout since room.now with
    | some result =>
      rw [lookOnce_of_some h]
      rfl
    | none => rw [lookOnce_of_none h, lookOnce_of_none h]

theorem Looked.trans {s' s'' : Shared α} {threads more : List String} (h : s.Looked threads s')
    (h' : s'.Looked more s'') : s.Looked (threads ++ more) s'' where
  now := h'.now.trans h.now
  slot := h'.slot.trans h.slot
  waits thread := by
    have hsame : s'.room.lookOnce = s.room.lookOnce := by
      funext w
      unfold WaitingRoom.lookOnce
      rw [h.slot, h.now]
    rw [h'.waits, h.waits, hsame]
    by_cases ht : thread ∈ threads <;> by_cases hm : thread ∈ more <;>
      simp [ht, hm, Function.comp_def, lookOnce_lookOnce]

theorem Looked.of_insert {s' : Shared α} {thread : String} {w : Wait α}
    (hw : s.room.waits.get? thread = some w)
    (h : s'.room = { s.room with waits := s.room.waits.insert thread (s.room.lookOnce w) }) :
    s.Looked [thread] s' where
  now := by rw [h]
  slot := by rw [h]
  waits other := by
    rw [h, Table.get?_insert]
    by_cases ht : thread = other
    · subst ht
      simp [hw]
    · simp [ht, Ne.symm ht]

theorem Looked.of_same {s' : Shared α} {thread : String}
    (hw : ∀ w, s.room.waits.get? thread = some w → s.room.lookOnce w = w)
    (h : s'.room = s.room) : s.Looked [thread] s' where
  now := by rw [h]
  slot := by rw [h]
  waits other := by
    rw [h]
    by_cases ht : other = thread
    · subst ht
      cases hg : s.room.waits.get? other with
      | none => simp
      | some w => simp [hw w hg]
    · simp [ht]

theorem wake_expire_of_idle {thread : String}
    (h : ∀ timeout since, s.room.waits.get? thread ≠ some (.pending timeout since)) :
    (s.wake thread).expire thread = s := by
  have hwake : s.wake thread = s := by
    unfold wake
    split
    · next hw => exact absurd hw (h _ _)
    · rfl
    · rfl
  rw [hwake]
  unfold expire
  split
  · next hw => exact absurd hw (h _ _)
  · rfl
  · rfl

theorem looked_of_idle {thread : String}
    (h : ∀ timeout since, s.room.waits.get? thread ≠ some (.pending timeout since)) :
    s.Looked [thread] ((s.wake thread).expire thread) := by
  rw [wake_expire_of_idle h]
  refine .of_same ?_ rfl
  intro w hw
  cases w with
  | pending timeout since => exact absurd hw (h timeout since)
  | ended result => rfl

/-- To be woken and then told the time is one look. -/
theorem looked_wake_expire (s : Shared α) (thread : String) :
    s.Looked [thread] ((s.wake thread).expire thread) := by
  cases hw : s.room.waits.get? thread with
  | none => exact looked_of_idle (by simp [hw])
  | some w =>
    cases w with
    | ended result => exact looked_of_idle (by simp [hw])
    | pending timeout since =>
      cases hvalue : s.room.slot.value with
      | some value =>
        have hwake : s.wake thread = s.finish thread (.ok value) := by
          simp only [wake, hw, look_of_set hvalue]
        have hexpire : (s.finish thread (.ok value)).expire thread =
            s.finish thread (.ok value) := by
          simp [expire, finish, note]
        rw [hwake, hexpire]
        apply Looked.of_insert hw
        rw [lookOnce_of_some (look_of_set hvalue timeout since s.room.now)]
        rfl
      | none =>
        have hwake : s.wake thread = s.note (.slept thread) := by
          simp only [wake, hw, (look_infinite_eq_none_iff _ _ _).2 hvalue]
        rw [hwake]
        rcases look_of_empty hvalue timeout since s.room.now with hl | ⟨duration, rfl, hover, hl⟩
        · refine .of_same ?_ ?_
          · intro w hpending
            rw [hw] at hpending
            cases hpending
            exact lookOnce_of_none hl
          · simp only [expire, note, hw, hl]
            split <;> rfl
        · apply Looked.of_insert hw
          rw [lookOnce_of_some hl]
          simp [expire, note, hw, hover, hl, finish]

theorem looked_sweep (threads : List String) :
    ∀ s : Shared α, s.Looked threads (s.run (sweep threads)) := by
  induction threads with
  | nil => exact fun s => ⟨rfl, rfl, fun thread => by simp [sweep, run]⟩
  | cons thread rest ih => exact fun s => (looked_wake_expire s thread).trans (ih _)

/-- When every thread that waits has looked, that is a look of the whole room. -/
theorem Looked.room_eq {s' : Shared α} {threads : List String} (h : s.Looked threads s')
    (hall : ∀ thread ∈ s.room.waits.keys, thread ∈ threads) : s'.room = s.room.lookAll := by
  have hwaits : s'.room.waits = s.room.lookAll.waits := by
    apply Table.ext_get?
    intro thread
    rw [h.waits, WaitingRoom.lookAll, Table.get?_mapValues]
    split
    · rfl
    · next ht =>
      cases hw : s.room.waits.get? thread with
      | none => rfl
      | some w =>
        refine absurd (hall thread ?_) ht
        rw [Table.mem_keys_iff, hw]
        rfl
  have hroom : s'.room = ⟨s'.room.now, s'.room.slot, s'.room.waits⟩ := rfl
  rw [hroom, h.now, h.slot, hwaits]
  rfl

/-- **The waiting room is one of the interleavings**: it wakes everybody after each step, in
whatever order. -/
theorem run_sweep (s : Shared α) {threads : List String}
    (hall : ∀ thread ∈ s.room.waits.keys, thread ∈ threads) :
    (∀ value, (s.run (.set value :: sweep threads)).room = (s.room.set value).2) ∧
      (∀ instant, (s.run (.pass (instant - s.room.now) :: sweep threads)).room =
        s.room.advance instant) ∧
      ∀ thread timeout,
        (∀ t since, s.room.waits.get? thread ≠ some (.pending t since)) →
          (s.run (.get thread timeout :: .expire thread :: sweep threads)).room =
            s.room.startGet thread timeout := by
  refine ⟨?_, ?_, ?_⟩
  · intro value
    exact (looked_sweep threads _).room_eq hall
  · intro instant
    have hroom := (looked_sweep threads (s.step (.pass (instant - s.room.now)))).room_eq hall
    refine hroom.trans ?_
    have hnow : s.room.now + (instant - s.room.now) = max s.room.now instant := by omega
    unfold WaitingRoom.advance
    rw [← hnow]
    rfl
  · intro thread timeout hidle
    have hget : s.step (.get thread timeout) = (s.start thread timeout).wake thread := by
      unfold step
      dsimp only
      split
      · next hw => exact absurd hw (hidle _ _)
      · rfl
      · rfl
    rw [run_cons, hget]
    refine ((looked_wake_expire _ thread).trans (looked_sweep threads _)).room_eq ?_
    intro other ho
    replace ho : other ∈ (s.room.waits.insert thread _).keys := ho
    rw [Table.mem_keys_iff, Table.get?_insert] at ho
    split at ho
    · next he => simp [he]
    · exact List.mem_append_right _ (hall other (Table.mem_keys_iff.2 ho))

end Shared

end BrokeredRpc.Slot
