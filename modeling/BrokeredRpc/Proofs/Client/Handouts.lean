import BrokeredRpc.Registry
import Mathlib.Data.List.Nodup
import Mathlib.Data.List.Perm.Basic

/-!
# A registry among threads

Any number of threads work on one registry. What is indivisible is one critical
section: an insert, a take, the seal that begins a shutdown, the drain that ends
it. Between a thread's seal and its drain the others go on, with shutdowns of
their own if they like. `Shared` is such a registry with the threads that owe it
a drain, `step` makes one step of whoever is told to go on, and `history` lists
what each step answered, oldest first. It decides nothing.

* `step_moves`: what one step can do, once and for all;
* `Recorded.run`: how each answer follows from the answers before it, and what
  the history tells about the registry;
* `Balanced.run`: at any moment the slots handed out and those still filed are
  the slots that were accepted, if no id is used twice;
* `Kept.run`: what was accepted under an id is filed there until it is given
  away, so a take finds it;
* `run_hands_out_once`: after a final drain, each slot accepted has been handed
  out by one step and no other slot has.
-/
namespace BrokeredRpc

/-! ## The entries of a table -/

namespace Table

variable {α : Type}

theorem nodup_toList (t : Table α) : t.toList.Nodup := t.nodup_keys.of_map Prod.fst

/-- Tables that list the same entries, in whatever order. -/
theorem perm_toList {l : List (String × α)} (t : Table α) (hl : l.Nodup)
    (hmem : ∀ k v, t.get? k = some v ↔ (k, v) ∈ l) : t.toList.Perm l :=
  (List.perm_ext_iff_of_nodup t.nodup_toList hl).2 fun ⟨k, v⟩ => mem_toList_iff.trans (hmem k v)

theorem perm_toList_insert {t : Table α} {key : String} (hfree : t.get? key = none) (value : α) :
    (t.insert key value).toList.Perm ((key, value) :: t.toList) := by
  have hnew : (key, value) ∉ t.toList := by
    rw [mem_toList_iff, hfree]
    exact nofun
  refine perm_toList _ (List.nodup_cons.2 ⟨hnew, t.nodup_toList⟩) fun k v => ?_
  rw [get?_insert, List.mem_cons, mem_toList_iff, Prod.mk.injEq]
  by_cases hk : key = k
  · subst hk
    rw [if_pos rfl, hfree]
    simp [eq_comm]
  · rw [if_neg hk]
    simp [Ne.symm hk]

theorem perm_toList_erase {t : Table α} {key : String} {value : α}
    (hfiled : t.get? key = some value) :
    t.toList.Perm ((key, value) :: (t.erase key).toList) := by
  have hgone : (key, value) ∉ (t.erase key).toList := by
    rw [mem_toList_iff, get?_erase_self]
    exact nofun
  refine perm_toList _ (List.nodup_cons.2 ⟨hgone, (t.erase key).nodup_toList⟩) fun k v => ?_
  rw [List.mem_cons, mem_toList_iff, Prod.mk.injEq, get?_erase]
  by_cases hk : key = k
  · subst hk
    rw [if_pos rfl, hfiled]
    simp [eq_comm]
  · rw [if_neg hk]
    simp [Ne.symm hk]

end Table

namespace Registry

/-! ## States -/

/-- What a thread asks of the registry. -/
inductive Request
  | insert (id slot : String)
  | take (id : String)
  | shutdown (cause : Shutdown)

/-- Whose turn it is: a thread begins a request, or goes on with the shutdown that it began. -/
inductive Label
  | start (thread : Nat) (request : Request)
  | resume (thread : Nat)

/-- What a step has answered. -/
inductive Mark
  | inserted (id slot : String)
  | refused (id : String) (cause : Shutdown)
  | taken (id : String) (found : Option String)
  | sealed (cause : Shutdown)
  | drained (slots : List String)
  deriving DecidableEq

structure Shared where
  registry : Registry := {}
  /-- The threads that have sealed the registry and not drained it yet. -/
  draining : List Nat := []
  history : List Mark := []

/-- The id under which a request files a slot. -/
def Label.id? : Label → Option String
  | .start _ (.insert id _) => some id
  | .start _ (.take _) | .start _ (.shutdown _) | .resume _ => none

namespace Mark

/-- The id and the slot that the registry accepted. -/
def entry? : Mark → Option (String × String)
  | inserted id slot => some (id, slot)
  | refused .. | taken .. | sealed _ | drained _ => none

/-- The slots that a step gave away. -/
def handsOut : Mark → List String
  | taken _ found => found.toList
  | drained slots => slots
  | inserted .. | refused .. | sealed _ => []

def cause? : Mark → Option Shutdown
  | sealed cause => some cause
  | inserted .. | refused .. | taken .. | drained _ => none

/-- The step gave away what was filed under the id. -/
def Clears (id : String) : Mark → Prop
  | taken id' found => id' = id ∧ found.isSome
  | drained _ => True
  | inserted .. | refused .. | sealed _ => False

instance (id : String) : DecidablePred (Clears id)
  | taken id' found => inferInstanceAs (Decidable (id' = id ∧ found.isSome))
  | drained _ => .isTrue trivial
  | inserted .. | refused .. | sealed _ => .isFalse nofun

end Mark

/-- The slots accepted, each with its id. -/
def accepted (h : List Mark) : List (String × String) := h.filterMap Mark.entry?

/-- The slots given away. -/
def handedOut (h : List Mark) : List String := h.flatMap Mark.handsOut

/-- The cause of the first seal. -/
def firstCause? (h : List Mark) : Option Shutdown := h.findSome? Mark.cause?

/-- How an answer follows from the answers before it: the registry accepts until the first seal
and from then on refuses with its cause, and a take finds what was accepted under its id. -/
def Mark.Follows (past : List Mark) : Mark → Prop
  | inserted .. => firstCause? past = none
  | refused _ cause => firstCause? past = some cause
  | taken id found => ∀ slot, found = some slot → .inserted id slot ∈ past
  | sealed _ | drained _ => True

namespace Shared

/-! ## Steps -/

def insert (s : Shared) (id slot : String) : Shared :=
  match s.registry.insert id slot with
  | .ok registry => { s with registry, history := s.history ++ [.inserted id slot] }
  | .error cause => { s with history := s.history ++ [.refused id cause] }

def take (s : Shared) (id : String) : Shared :=
  let (found, registry) := s.registry.take id
  { s with registry, history := s.history ++ [.taken id found] }

def sealWith (s : Shared) (cause : Shutdown) : Shared :=
  { s with registry := s.registry.sealWith cause, history := s.history ++ [.sealed cause] }

def drain (s : Shared) : Shared :=
  let (slots, registry) := s.registry.drain
  { s with registry, history := s.history ++ [.drained slots] }

/-- One step. A thread that owes a drain begins nothing else before, and one that owes none has
nothing to go on with. -/
def step (s : Shared) : Label → Shared
  | .start thread request =>
    if thread ∈ s.draining then s
    else
      match request with
      | .insert id slot => s.insert id slot
      | .take id => s.take id
      | .shutdown cause => { s.sealWith cause with draining := thread :: s.draining }
  | .resume thread =>
    if thread ∈ s.draining then { s.drain with draining := s.draining.erase thread } else s

def run (s : Shared) (labels : List Label) : Shared := labels.foldl step s

theorem run_cons (s : Shared) (label : Label) (rest : List Label) :
    s.run (label :: rest) = (s.step label).run rest := rfl

theorem run_append (s : Shared) (labels more : List Label) :
    s.run (labels ++ more) = (s.run labels).run more := List.foldl_append

/-- A seal and a drain with nothing in between are a shutdown. -/
theorem run_sealing {s : Shared} {thread : Nat} (hidle : thread ∉ s.draining)
    (cause : Shutdown) :
    s.run [.start thread (.shutdown cause), .resume thread] =
      { s with
        registry := (s.registry.shutdown cause).2
        history := s.history ++ [.sealed cause, .drained (s.registry.shutdown cause).1] } := by
  simp [run, step, hidle, sealWith, drain, Registry.shutdown]

/-- The ways in which a step changes a shared registry. -/
inductive Moves (s : Shared) : Label → Shared → Prop
  | stayed {label : Label} : Moves s label s
  | inserted {thread : Nat} {id slot : String} (hu : s.registry.sealedBy = none) :
      Moves s (.start thread (.insert id slot))
        { s with
          registry := { s.registry with pending := s.registry.pending.insert id slot }
          history := s.history ++ [.inserted id slot] }
  | refused {thread : Nat} {id slot : String} {cause : Shutdown}
      (hs : s.registry.sealedBy = some cause) :
      Moves s (.start thread (.insert id slot))
        { s with history := s.history ++ [.refused id cause] }
  | taken {thread : Nat} {id : String} : Moves s (.start thread (.take id)) (s.take id)
  | sealed {thread : Nat} {cause : Shutdown} :
      Moves s (.start thread (.shutdown cause))
        { s.sealWith cause with draining := thread :: s.draining }
  | drained {thread : Nat} (ht : thread ∈ s.draining) :
      Moves s (.resume thread) { s.drain with draining := s.draining.erase thread }

/-- **One step.** Whatever the label, a step does one of the things that `Moves` lists. -/
theorem step_moves (s : Shared) (label : Label) : Moves s label (s.step label) := by
  cases label with
  | start thread request =>
    rw [step.eq_def]
    dsimp only
    split
    · exact .stayed
    · cases request with
      | insert id slot =>
        dsimp only
        rw [insert]
        cases hs : s.registry.sealedBy with
        | none =>
          rw [insert_of_unsealed hs]
          exact .inserted hs
        | some cause =>
          rw [insert_of_sealed hs]
          exact .refused hs
      | take id => exact .taken
      | shutdown cause => exact .sealed
  | resume thread =>
    rw [step]
    split
    · next ht => exact .drained ht
    · exact .stayed

/-! ## The history -/

variable {s s' : Shared} {label : Label}

theorem accepted_append (h more : List Mark) : accepted (h ++ more) = accepted h ++ accepted more :=
  List.filterMap_append

theorem handedOut_append (h more : List Mark) :
    handedOut (h ++ more) = handedOut h ++ handedOut more := List.flatMap_append

theorem firstCause?_append (h : List Mark) (m : Mark) :
    firstCause? (h ++ [m]) = (firstCause? h).or m.cause? := by
  rw [firstCause?, List.findSome?_append]
  cases m <;> rfl

theorem mem_accepted {h : List Mark} {id slot : String} :
    (id, slot) ∈ accepted h ↔ .inserted id slot ∈ h := by
  rw [accepted, List.mem_filterMap]
  constructor
  · rintro ⟨m, hm, he⟩
    cases m with
    | inserted => cases he; exact hm
    | _ => cases he
  · exact fun hm => ⟨_, hm, rfl⟩

/-- The answers of a history, and one more. -/
theorem follows_append {h : List Mark} {m : Mark}
    (hf : ∀ past m' rest, h = past ++ m' :: rest → m'.Follows past) (hm : m.Follows h) :
    ∀ past m' rest, h ++ [m] = past ++ m' :: rest → m'.Follows past := by
  intro past m' rest he
  rcases List.eq_nil_or_concat rest with rfl | ⟨init, last, rfl⟩
  · obtain ⟨rfl, hlast⟩ := List.append_inj' he rfl
    obtain rfl := List.singleton_inj.1 hlast
    exact hm
  · have he' : h ++ [m] = (past ++ m' :: init) ++ [last] := by simpa using he
    exact hf past m' init (List.append_inj' he' rfl).1

/-- What the history tells about the registry. -/
structure Recorded (s : Shared) : Prop where
  follows : ∀ past m rest, s.history = past ++ m :: rest → m.Follows past
  filed : ∀ id slot, s.registry.pending.get? id = some slot → .inserted id slot ∈ s.history
  sealedBy : s.registry.sealedBy = firstCause? s.history
  /-- Whoever owes a drain has sealed the registry. -/
  owed : ∀ thread ∈ s.draining, s.registry.sealedBy ≠ none
  emptied : ∀ slots, .drained slots ∈ s.history →
    s.registry.sealedBy ≠ none ∧ s.registry.pending = ∅

namespace Recorded

theorem empty : Recorded {} where
  follows past m rest he := by simp at he
  filed _ _ h := by cases h
  sealedBy := rfl
  owed _ h := by cases h
  emptied _ h := by cases h

theorem insert (hr : s.Recorded) (hu : s.registry.sealedBy = none) (id slot : String) :
    Recorded { s with
      registry := { s.registry with pending := s.registry.pending.insert id slot }
      history := s.history ++ [.inserted id slot] } where
  follows := follows_append hr.follows (hr.sealedBy.symm.trans hu)
  filed k slot' hk := by
    rw [Table.get?_insert] at hk
    split at hk
    · next he => cases hk; cases he; exact List.mem_append_right _ List.mem_cons_self
    · exact List.mem_append_left _ (hr.filed k slot' hk)
  sealedBy := by
    rw [firstCause?_append, ← hr.sealedBy, hu]
    rfl
  owed := hr.owed
  emptied slots hm := by
    rcases List.mem_append.1 hm with hm | hm
    · exact absurd hu (hr.emptied slots hm).1
    · cases List.mem_singleton.1 hm

theorem refuse (hr : s.Recorded) {cause : Shutdown} (hs : s.registry.sealedBy = some cause)
    (id : String) : Recorded { s with history := s.history ++ [.refused id cause] } where
  follows := follows_append hr.follows (hr.sealedBy.symm.trans hs)
  filed k slot hk := List.mem_append_left _ (hr.filed k slot hk)
  sealedBy := by
    rw [firstCause?_append, ← hr.sealedBy, hs]
    rfl
  owed := hr.owed
  emptied slots hm := by
    rcases List.mem_append.1 hm with hm | hm
    · exact hr.emptied slots hm
    · cases List.mem_singleton.1 hm

theorem take (hr : s.Recorded) (id : String) : (s.take id).Recorded where
  follows := follows_append hr.follows (hr.filed id)
  filed k slot hk := by
    rw [Shared.take, get?_pending_take] at hk
    split at hk
    · cases hk
    · exact List.mem_append_left _ (hr.filed k slot hk)
  sealedBy := by
    rw [Shared.take, firstCause?_append, ← hr.sealedBy]
    exact (Option.or_none).symm
  owed := hr.owed
  emptied slots hm := by
    rcases List.mem_append.1 hm with hm | hm
    · obtain ⟨hs, he⟩ := hr.emptied slots hm
      refine ⟨hs, ?_⟩
      rw [Shared.take, Registry.take, he]
      exact Table.erase_of_absent (Table.get?_empty id)
    · cases List.mem_singleton.1 hm

theorem sealWith (hr : s.Recorded) (thread : Nat) (cause : Shutdown) :
    Recorded { s.sealWith cause with draining := thread :: s.draining } where
  follows := follows_append hr.follows trivial
  filed k slot hk := List.mem_append_left _ (hr.filed k slot hk)
  sealedBy := by
    rw [Shared.sealWith, firstCause?_append, ← hr.sealedBy, sealedBy_seal]
    cases s.registry.sealedBy <;> rfl
  owed _ _ := nofun
  emptied slots hm := by
    rcases List.mem_append.1 hm with hm | hm
    · exact ⟨nofun, (hr.emptied slots hm).2⟩
    · cases List.mem_singleton.1 hm

theorem drain (hr : s.Recorded) {thread : Nat} (ht : thread ∈ s.draining) :
    Recorded { s.drain with draining := s.draining.erase thread } where
  follows := follows_append hr.follows trivial
  filed _ _ hk := by cases hk
  sealedBy := by
    rw [Shared.drain, firstCause?_append, ← hr.sealedBy]
    exact (Option.or_none).symm
  owed _ _ := hr.owed thread ht
  emptied _ _ := ⟨hr.owed thread ht, rfl⟩

theorem moves (hr : s.Recorded) (hm : Moves s label s') : s'.Recorded := by
  cases hm with
  | stayed => exact hr
  | inserted hu => exact hr.insert hu _ _
  | refused hs => exact hr.refuse hs _
  | taken => exact hr.take _
  | sealed => exact hr.sealWith _ _
  | drained ht => exact hr.drain ht

theorem run {labels : List Label} : ∀ {s : Shared}, s.Recorded → (s.run labels).Recorded := by
  induction labels with
  | nil => exact fun hr => hr
  | cons label rest ih => exact fun hr => ih (hr.moves (step_moves _ label))

end Recorded

theorem history_moves (hm : Moves s label s') : s.history <+: s'.history := by
  cases hm with
  | stayed => exact List.prefix_rfl
  | _ => exact List.prefix_append _ _

theorem history_run (labels : List Label) :
    ∀ s : Shared, s.history <+: (s.run labels).history := by
  induction labels with
  | nil => exact fun _ => List.prefix_rfl
  | cons label rest ih => exact fun s => (history_moves (step_moves s label)).trans (ih _)

/-! ## What is handed out -/

open scoped List

/-- No id of these labels has been used, nor is one used twice among them. -/
def Fresh (s : Shared) (labels : List Label) : Prop :=
  ((accepted s.history).map Prod.fst ++ labels.filterMap Label.id?).Nodup

/-- Slots handed out and slots filed are the slots accepted. -/
def Balanced (s : Shared) : Prop :=
  (handedOut s.history ++ s.registry.drain.1).Perm ((accepted s.history).map Prod.snd)

theorem Fresh.absent {thread : Nat} {id slot : String} {rest : List Label}
    (hf : s.Fresh (.start thread (.insert id slot) :: rest)) (hr : s.Recorded) :
    s.registry.pending.get? id = none := by
  cases hp : s.registry.pending.get? id with
  | none => rfl
  | some slot =>
    have hused : id ∈ (accepted s.history).map Prod.fst :=
      List.mem_map_of_mem (f := Prod.fst) (mem_accepted.2 (hr.filed id slot hp))
    exact absurd rfl ((List.nodup_append.1 hf).2.2 id hused id List.mem_cons_self)

theorem accepted_append_mark {m : Mark} (hm : m.entry? = none) (h : List Mark) :
    accepted (h ++ [m]) = accepted h := by
  rw [accepted_append, accepted, accepted, List.filterMap_cons, hm, List.filterMap_nil,
    List.append_nil]

theorem handedOut_append_mark (h : List Mark) (m : Mark) :
    handedOut (h ++ [m]) = handedOut h ++ m.handsOut := by
  rw [handedOut_append]
  exact congrArg _ (List.append_nil _)

theorem Fresh.moves {rest : List Label} (hf : s.Fresh (label :: rest)) (hm : Moves s label s') :
    s'.Fresh rest := by
  have hskip : ((accepted s.history).map Prod.fst ++ rest.filterMap Label.id?).Nodup :=
    hf.sublist (((List.sublist_cons_self label rest).filterMap _).append_left _)
  cases hm with
  | stayed => exact hskip
  | inserted hu =>
    rw [Fresh, accepted_append, List.map_append, List.append_assoc]
    exact hf
  | refused hs => rw [Fresh, accepted_append_mark rfl]; exact hskip
  | taken => rw [Fresh, take, accepted_append_mark rfl]; exact hskip
  | sealed => rw [Fresh, sealWith, accepted_append_mark rfl]; exact hskip
  | drained ht => rw [Fresh, drain, accepted_append_mark rfl]; exact hskip

/-- What every step with a fresh id keeps is kept by a run in which no id is used twice. -/
theorem Fresh.run_induct {P : Shared → Prop}
    (hstep : ∀ {s s' : Shared} {label : Label} {rest : List Label}, P s → s.Recorded →
      s.Fresh (label :: rest) → Moves s label s' → P s') {labels : List Label} :
    ∀ {s : Shared}, s.Fresh labels → s.Recorded → P s →
      P (s.run labels) ∧ (s.run labels).Fresh [] := by
  induction labels with
  | nil => exact fun hf _ hp => ⟨hp, hf⟩
  | cons label rest ih =>
    intro s hf hr hp
    have hm := step_moves s label
    exact ih (hf.moves hm) (hr.moves hm) (hstep hp hr hf hm)

namespace Balanced

theorem empty : Balanced {} := .refl _

theorem insert (hb : s.Balanced) {id slot : String} (hfree : s.registry.pending.get? id = none) :
    Balanced { s with
      registry := { s.registry with pending := s.registry.pending.insert id slot }
      history := s.history ++ [.inserted id slot] } := by
  have hfiled : ((s.registry.pending.insert id slot).toList.map Prod.snd).Perm
      (slot :: s.registry.drain.1) :=
    (Table.perm_toList_insert hfree slot).map Prod.snd
  rw [Balanced, handedOut_append_mark, accepted_append, List.map_append, List.append_assoc]
  calc handedOut s.history ++ (s.registry.pending.insert id slot).toList.map Prod.snd
    _ ~ handedOut s.history ++ slot :: s.registry.drain.1 := hfiled.append_left _
    _ ~ slot :: (handedOut s.history ++ s.registry.drain.1) := List.perm_middle
    _ ~ slot :: (accepted s.history).map Prod.snd := hb.cons slot
    _ ~ (accepted s.history).map Prod.snd ++ [slot] := (List.perm_append_singleton slot _).symm

theorem take (hb : s.Balanced) (id : String) : (s.take id).Balanced := by
  have hkept : ((s.registry.pending.get? id).toList ++ (s.take id).registry.drain.1).Perm
      s.registry.drain.1 := by
    cases hp : s.registry.pending.get? id with
    | none =>
      simp only [Shared.take, Registry.take, Registry.drain, Table.erase_of_absent hp,
        Option.toList_none, List.nil_append]
      exact .refl _
    | some slot => exact ((Table.perm_toList_erase hp).map Prod.snd).symm
  have hin : accepted (s.take id).history = accepted s.history := accepted_append_mark rfl _
  have hout : handedOut (s.take id).history =
      handedOut s.history ++ (s.registry.pending.get? id).toList := handedOut_append_mark _ _
  rw [Balanced, hout, hin, List.append_assoc]
  exact (hkept.append_left _).trans hb

theorem drain (hb : s.Balanced) : s.drain.Balanced := by
  have hin : accepted s.drain.history = accepted s.history := accepted_append_mark rfl _
  have hout : handedOut s.drain.history = handedOut s.history ++ s.registry.drain.1 :=
    handedOut_append_mark _ _
  have hnone : s.drain.registry.drain.1 = [] := rfl
  rw [Balanced, hout, hin, hnone, List.append_nil]
  exact hb

theorem of_same (hb : s.Balanced) {m : Mark} (hp : s'.registry.pending = s.registry.pending)
    (hh : s'.history = s.history ++ [m]) (hout : m.handsOut = []) (hin : m.entry? = none) :
    s'.Balanced := by
  rw [Balanced, hh, handedOut_append_mark, hout, List.append_nil, accepted_append_mark hin,
    Registry.drain, hp]
  exact hb

theorem moves {rest : List Label} (hb : s.Balanced) (hr : s.Recorded)
    (hf : s.Fresh (label :: rest)) (hm : Moves s label s') : s'.Balanced := by
  cases hm with
  | stayed => exact hb
  | inserted hu => exact hb.insert (hf.absent hr)
  | refused hs => exact hb.of_same rfl rfl rfl rfl
  | taken => exact hb.take _
  | sealed => exact hb.of_same rfl rfl rfl rfl
  | drained ht => exact hb.drain

/-- **The balance is kept** by every interleaving in which no id is used twice. -/
theorem run {labels : List Label} (hb : s.Balanced) (hr : s.Recorded) (hf : s.Fresh labels) :
    (s.run labels).Balanced ∧ (s.run labels).Fresh [] :=
  hf.run_induct Balanced.moves hr hb

end Balanced

/-- What was accepted under an id is filed there until it is given away. -/
def Kept (s : Shared) : Prop :=
  ∀ id slot, .inserted id slot ∈ s.history → (∀ m ∈ s.history, ¬m.Clears id) →
    s.registry.pending.get? id = some slot

namespace Kept

theorem empty : Kept {} := fun _ _ h => by cases h

theorem insert (hk : s.Kept) {id : String} (hfree : s.registry.pending.get? id = none)
    (slot : String) :
    Kept { s with
      registry := { s.registry with pending := s.registry.pending.insert id slot }
      history := s.history ++ [.inserted id slot] } := by
  intro id' slot' hm hnot
  rw [Table.get?_insert]
  rcases List.mem_append.1 hm with hm | hm
  · have hfiled := hk id' slot' hm fun m hm => hnot m (List.mem_append_left _ hm)
    split
    · next he =>
      rw [← he, hfree] at hfiled
      cases hfiled
    · exact hfiled
  · cases List.mem_singleton.1 hm
    rw [if_pos rfl]

/-- A step that accepts nothing, and takes nothing off but what it gives away. -/
theorem of_fewer (hk : s.Kept) {m : Mark} (hh : s'.history = s.history ++ [m])
    (hin : m.entry? = none)
    (hp : ∀ id slot, s.registry.pending.get? id = some slot → ¬m.Clears id →
      s'.registry.pending.get? id = some slot) : s'.Kept := by
  intro id slot hm hnot
  rw [hh] at hm hnot
  rcases List.mem_append.1 hm with hm | hm
  · exact hp id slot (hk id slot hm fun m' hm' => hnot m' (List.mem_append_left _ hm'))
      (hnot m (List.mem_append_right _ List.mem_cons_self))
  · rw [← List.mem_singleton.1 hm] at hin
    cases hin

theorem take (hk : s.Kept) (id : String) : (s.take id).Kept := by
  refine hk.of_fewer (m := .taken id (s.registry.take id).1) rfl rfl fun id' slot hfiled hnot => ?_
  rw [Shared.take, get?_pending_take]
  split
  · next he =>
    subst he
    exact absurd ⟨rfl, Option.isSome_of_eq_some hfiled⟩ hnot
  · exact hfiled

theorem moves {rest : List Label} (hk : s.Kept) (hr : s.Recorded)
    (hf : s.Fresh (label :: rest)) (hm : Moves s label s') : s'.Kept := by
  cases hm with
  | stayed => exact hk
  | inserted hu => exact hk.insert (hf.absent hr) _
  | refused hs => exact hk.of_fewer rfl rfl fun _ _ hfiled _ => hfiled
  | taken => exact hk.take _
  | sealed => exact hk.of_fewer rfl rfl fun _ _ hfiled _ => hfiled
  | drained ht => exact hk.of_fewer rfl rfl fun _ _ _ hnot => absurd trivial hnot

theorem run {labels : List Label} (hk : s.Kept) (hr : s.Recorded) (hf : s.Fresh labels) :
    (s.run labels).Kept :=
  (hf.run_induct Kept.moves hr hk).1

end Kept

theorem step_take {thread : Nat} (hidle : thread ∉ s.draining) {id slot : String}
    (hfiled : s.registry.pending.get? id = some slot) :
    (s.step (.start thread (.take id))).history = s.history ++ [.taken id (some slot)] := by
  simp only [step, if_neg hidle, Shared.take, Registry.take, hfiled]

/-- What is given away once in all is given away by one step. -/
theorem countP_handsOut {slot : String} {h : List Mark} (hone : (handedOut h).count slot = 1) :
    h.countP (slot ∈ ·.handsOut) = 1 := by
  induction h with
  | nil => cases hone
  | cons m rest ih =>
    have hsplit : m.handsOut.count slot + (handedOut rest).count slot = 1 := by
      rw [← List.count_append]
      exact hone
    by_cases hm : slot ∈ m.handsOut
    · have hpos : 0 < m.handsOut.count slot := List.count_pos_iff.2 hm
      have hrest : slot ∉ handedOut rest := List.count_eq_zero.1 (by omega)
      have hnone : rest.countP (slot ∈ ·.handsOut) = 0 := by
        rw [List.countP_eq_zero]
        exact fun m' hm' hs => hrest (List.mem_flatMap.2 ⟨m', hm', of_decide_eq_true hs⟩)
      rw [List.countP_cons, hnone, if_pos (decide_eq_true hm)]
    · rw [List.count_eq_zero.2 hm, Nat.zero_add] at hsplit
      rw [List.countP_cons, ih hsplit, if_neg (by simpa using hm)]

end Shared

open Shared

/-- **Handed out once.** Threads insert, take and shut the registry down in any interleaving, no
two inserts under one id, and a drain follows at the end. Then the slots handed out are the slots
accepted; a slot accepted once is handed out by one step, and one never accepted by none. A take
finds what was accepted under its id, the only one accepted under it, and finds it whenever no take
under that id and no drain has come before. Every insert after the first seal is refused with the
cause of that seal, and none before. Once a shutdown has drained the registry it is empty for
good. -/
theorem run_hands_out_once (labels : List Label) (hids : (labels.filterMap Label.id?).Nodup) :
    let h := (Shared.run {} labels).drain.history
    (handedOut h).Perm ((accepted h).map Prod.snd) ∧
      (∀ slot, ((accepted h).map Prod.snd).count slot = 1 →
        h.countP (slot ∈ ·.handsOut) = 1) ∧
      (∀ slot, slot ∉ (accepted h).map Prod.snd → ∀ m ∈ h, slot ∉ m.handsOut) ∧
      (∀ past m rest, h = past ++ m :: rest → m.Follows past) ∧
      ((accepted h).map Prod.fst).Nodup ∧
      (∀ past more slots, .drained slots ∈ (Shared.run {} past).history →
        (Shared.run {} (past ++ more)).registry.pending = ∅) ∧
      ∀ past more thread id slot, labels = past ++ more →
        let s := Shared.run {} past
        thread ∉ s.draining → .inserted id slot ∈ s.history → (∀ m ∈ s.history, ¬m.Clears id) →
          (s.step (.start thread (.take id))).history = s.history ++ [.taken id (some slot)] := by
  intro h
  have hfresh : Fresh {} labels := hids
  obtain ⟨hbalanced, hused⟩ := Balanced.empty.run Recorded.empty hfresh
  have hrecorded : (Shared.run {} labels).Recorded := Recorded.empty.run
  have hout : (handedOut h).Perm ((accepted h).map Prod.snd) :=
    (List.append_nil (handedOut h)).symm ▸ hbalanced.drain
  have hids' : (accepted h).map Prod.fst = (accepted (Shared.run {} labels).history).map Prod.fst :=
    congrArg _ (accepted_append_mark rfl _)
  refine ⟨hout, fun slot hone => ?_, fun slot hnot m hm hs => ?_, ?_, ?_, ?_, ?_⟩
  · exact countP_handsOut ((hout.count_eq slot).trans hone)
  · exact hnot (hout.subset (List.mem_flatMap.2 ⟨m, hm, hs⟩))
  · exact follows_append hrecorded.follows trivial
  · rw [hids', ← List.append_nil (List.map Prod.fst _)]
    exact hused
  · intro past more slots hm
    have hlater : (Shared.run {} (past ++ more)).Recorded := Recorded.empty.run
    refine (hlater.emptied slots ?_).2
    rw [run_append]
    exact (history_run more _).subset hm
  · rintro past more thread id slot rfl s hidle hin hnot
    have hpast : Fresh {} past := by
      rw [List.filterMap_append] at hids
      exact (List.nodup_append.1 hids).1
    exact step_take hidle (Kept.empty.run Recorded.empty hpast id slot hin hnot)

/-- Two shutdowns overlap. One call takes its slot before the seals, and one between them and the
first drain, when another comes too late to file one. -/
def overlap : List Label :=
  [.start 1 (.insert "1" "a"), .start 2 (.insert "2" "b"), .start 5 (.insert "4" "d"),
    .start 5 (.take "4"), .start 3 (.shutdown (.connectionAborted "gone")),
    .start 4 (.shutdown (.channelClosed 1)), .start 1 (.take "2"), .start 2 (.insert "3" "c"),
    .resume 4, .resume 3]

theorem run_hands_out_once_overlap :
    (overlap.filterMap Label.id?).Nodup ∧
      (Shared.run {} overlap).drain.history =
        [.inserted "1" "a", .inserted "2" "b", .inserted "4" "d", .taken "4" (some "d"),
          .sealed (.connectionAborted "gone"), .sealed (.channelClosed 1), .taken "2" (some "b"),
          .refused "3" (.connectionAborted "gone"), .drained ["a"], .drained [], .drained []] ∧
      (Shared.run {} overlap).drain.history.countP ("b" ∈ ·.handsOut) = 1 ∧
      (∀ m ∈ (Shared.run {} overlap).drain.history, "c" ∉ m.handsOut) ∧
      -- The slot that the drain gets could have been taken before the seals.
      ((Shared.run {} (overlap.take 4)).step (.start 6 (.take "1"))).history =
        (Shared.run {} (overlap.take 4)).history ++ [.taken "1" (some "a")] := by
  have hids : (overlap.filterMap Label.id?).Nodup := by decide
  obtain ⟨-, hone, hnone, -, -, -, htake⟩ := run_hands_out_once overlap hids
  exact ⟨hids, by decide, hone "b" (by decide), hnone "c" (by decide),
    htake (overlap.take 4) (overlap.drop 4) 6 "1" "a" rfl (by decide) (by decide) (by decide)⟩

end Registry

end BrokeredRpc
