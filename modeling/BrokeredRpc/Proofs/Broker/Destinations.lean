import Mathlib.Data.Nat.Find
import BrokeredRpc.Proofs.Broker.Shutdowns
import BrokeredRpc.Proofs.Broker.Delivery
import BrokeredRpc.Proofs.Broker.Protection

/-!
# Exchanges remember what was bound

The list of bindings of an exchange is added to by one operation and thinned out
by every step that takes a queue away. `Rebinds` says what an operation can do to
the exchanges: nothing but dropping the bindings of queues that go (`Thins`),
adding an empty exchange, or adding one binding at the end. So the list is the
history of bindings, as far as it is still about queues that exist.

* `BoundAt`, `FirstBound`: at which points of a history a queue was bound, and
  has existed ever since;
* `run_declared`: an exchange exists if a declaration of it has been granted;
* `run_ordered`: the queues bound to an exchange under a key are those that have
  been bound since they were made, in the order in which that was first done.
-/
namespace BrokeredRpc.Broker

variable {b b' : Broker} {ops past : List Operation} {op : Operation} {x key name : String}

/-! ## The history -/

/-- The operation declares the exchange, on some channel, and is granted. -/
def Declares (x : String) (b : Broker) (op : Operation) : Prop :=
  ∃ c, op = .declareExchange c x ∧ (b.perform op).answer = .ok .nothing

/-- A declaration of the exchange has been granted. -/
def Declared (ops : List Operation) (x : String) : Prop := Happened ops (Declares x)

/-- The operation binds the queue to the exchange under the key, on some channel, and is
granted. -/
def Binds (x key name : String) (b : Broker) (op : Operation) : Prop :=
  ∃ c, op = .bind c name x key ∧ (b.perform op).answer = .ok .nothing

/-- Operation number `n` of the history has bound the queue, which has existed since. -/
def BoundAt (x key name : String) (ops : List Operation) (n : Nat) : Prop :=
  ∃ past op later, ops = past ++ op :: later ∧ past.length = n ∧
    Binds x key name (run {} past).1 op ∧
    Keeps name ((run {} past).1.perform op).broker later

/-- Operation number `n` was the first to bind the queue since it was made. -/
def FirstBound (x key name : String) (ops : List Operation) (n : Nat) : Prop :=
  BoundAt x key name ops n ∧ ∀ m < n, ¬BoundAt x key name ops m

theorem BoundAt.lt {n : Nat} (h : BoundAt x key name ops n) : n < ops.length := by
  obtain ⟨past, op, later, rfl, rfl, -⟩ := h
  rw [List.length_append, List.length_cons]
  omega

theorem FirstBound.unique {n m : Nat} (h : FirstBound x key name ops n)
    (h' : FirstBound x key name ops m) : n = m := by
  rcases Nat.lt_trichotomy n m with hlt | heq | hlt
  · exact absurd h.1 (h'.2 n hlt)
  · exact heq
  · exact absurd h'.1 (h.2 m hlt)

theorem BoundAt.first {n : Nat} (h : BoundAt x key name ops n) :
    ∃ m, FirstBound x key name ops m := by
  classical
  exact ⟨Nat.find ⟨n, h⟩, Nat.find_spec ⟨n, h⟩, fun m hm => Nat.find_min ⟨n, h⟩ hm⟩

theorem Binds.isSome (h : Binds x key name b op) :
    ((b.perform op).broker.queues.get? name).isSome := by
  obtain ⟨c, rfl, ha⟩ := h
  rcases perform_cases b (.bind c name x key) with ⟨e, hr⟩ | hg
  · rw [hr] at ha; cases ha
  generalize b.perform (.bind c name x key) = effect at hg
  cases hg with
  | bindingKept hc hq => exact Option.isSome_of_eq_some hq
  | bindingAdded hc hq => exact Option.isSome_of_eq_some hq

/-- One operation more: what was bound is bound as long as the queue stays, and the operation
itself may bind it. -/
theorem boundAt_concat {n : Nat} : BoundAt x key name (past ++ [op]) n ↔
    (BoundAt x key name past n ∧
      (((run {} past).1.perform op).broker.queues.get? name).isSome) ∨
    (n = past.length ∧ Binds x key name (run {} past).1 op) := by
  have hrun : ∀ (before : List Operation) (first : Operation) (later : List Operation),
      (((run {} before).1.perform first).broker.run later).1 =
        (run {} (before ++ first :: later)).1 := fun before first later => by
    rw [run_append]; rfl
  constructor
  · rintro ⟨before, first, later, he, rfl, hb, hk⟩
    rcases List.eq_nil_or_concat later with rfl | ⟨later, last, rfl⟩
    · obtain ⟨rfl, hop⟩ := List.append_inj' he rfl
      cases hop
      exact Or.inr ⟨rfl, hb⟩
    · rw [List.concat_eq_append] at he hk
      rw [← List.cons_append, ← List.append_assoc] at he
      obtain ⟨rfl, hop⟩ := List.append_inj' he rfl
      cases hop
      obtain ⟨hk, hs⟩ := keeps_concat.1 hk
      rw [hrun] at hs
      exact Or.inl ⟨⟨before, first, later, rfl, rfl, hb, hk⟩, hs⟩
  · rintro (⟨⟨before, first, later, rfl, rfl, hb, hk⟩, hs⟩ | ⟨rfl, hb⟩)
    · refine ⟨before, first, later ++ [op], List.append_assoc _ _ _, rfl, hb, ?_⟩
      rw [keeps_concat, hrun]
      exact ⟨hk, hs⟩
    · exact ⟨past, op, [], rfl, rfl, hb, trivial⟩

theorem FirstBound.concat {n : Nat} (h : FirstBound x key name past n)
    (hs : (((run {} past).1.perform op).broker.queues.get? name).isSome) :
    FirstBound x key name (past ++ [op]) n := by
  refine ⟨boundAt_concat.2 (Or.inl ⟨h.1, hs⟩), fun m hm hb => ?_⟩
  rcases boundAt_concat.1 hb with ⟨hb, -⟩ | ⟨rfl, -⟩
  · exact h.2 m hm hb
  · exact absurd h.1.lt (Nat.lt_asymm hm)

/-! ## What an operation does to exchanges -/

/-- The queues bound to an exchange under a key, in the order of the bindings. -/
def boundTo (b : Broker) (x key : String) : List String :=
  (((b.exchanges.get? x).getD []).filter (·.key == key)).map (·.queue)

theorem mem_boundTo : name ∈ b.boundTo x key ↔
    ∃ bindings, b.exchanges.get? x = some bindings ∧ Binding.mk key name ∈ bindings := by
  unfold boundTo
  cases b.exchanges.get? x with
  | none => simp
  | some bindings =>
    simp only [Option.getD_some, List.mem_map, List.mem_filter, beq_iff_eq, Option.some.injEq,
      exists_eq_left']
    constructor
    · rintro ⟨⟨key', queue⟩, ⟨hm, rfl⟩, rfl⟩
      exact hm
    · exact fun hm => ⟨_, ⟨hm, rfl⟩, rfl⟩

theorem route?_of_ne (hx : x ≠ defaultExchange) :
    b.route? x key = (b.exchanges.get? x).map fun _ => b.boundTo x key := by
  unfold route? boundTo
  rw [if_neg hx]
  cases b.exchanges.get? x <;> rfl

/-- No exchange comes or goes, and exactly the bindings go that name a queue that is not there. -/
def Thins (b b' : Broker) : Prop :=
  ∀ x, b'.exchanges.get? x = (b.exchanges.get? x).map fun bindings =>
    bindings.filter fun m => (b'.queues.get? m.queue).isSome

namespace Thins

theorem of_grows (hb : b.Bound) (hx : b'.exchanges = b.exchanges)
    (hq : ∀ name, (b.queues.get? name).isSome → (b'.queues.get? name).isSome) : Thins b b' := by
  intro x
  rw [hx]
  cases he : b.exchanges.get? x with
  | none => rfl
  | some bindings =>
    exact congrArg some
      (List.filter_eq_self.2 fun m hm => hq _ (hb.existing x bindings he m hm)).symm

theorem trim (hb : b.Bound) (ended removed : String → Bool) : Thins b (b.trim ended removed) := by
  intro x
  rw [get?_exchanges_trim]
  cases he : b.exchanges.get? x with
  | none => rfl
  | some bindings =>
    refine congrArg some (List.filter_congr fun m hm => ?_)
    obtain ⟨q, hq⟩ := Option.isSome_iff_exists.1 (hb.existing x bindings he m hm)
    rw [get?_queues_trim, hq]
    cases removed m.queue <;> rfl

theorem removeQueue (hb : b.Bound) (name : String) : Thins b (b.removeQueue name) := by
  rw [removeQueue_eq_trim]
  exact Thins.trim hb _ _

theorem isSome (h : Thins b b') (x : String) :
    (b'.exchanges.get? x).isSome = (b.exchanges.get? x).isSome := by
  rw [h x, Option.isSome_map]

theorem boundTo (h : Thins b b') (x key : String) :
    b'.boundTo x key = (b.boundTo x key).filter fun name => (b'.queues.get? name).isSome := by
  unfold Broker.boundTo
  rw [h x, List.filter_map, List.filter_filter]
  cases b.exchanges.get? x with
  | none => rfl
  | some bindings =>
    simp only [Option.map_some, Option.getD_some, List.filter_filter, Function.comp_apply]
    refine congrArg (List.map _) (List.filter_congr fun m _ => Bool.and_comm _ _)

end Thins

/-- What an operation means to the exchanges. -/
inductive Rebinds (b : Broker) (op : Operation) (b' : Broker) : Prop
  /-- Nothing new: an exchange that is declared and a binding that is made have been there. -/
  | nothing (hthin : Thins b b')
      (hx : ∀ x, Declares x b op → x = defaultExchange ∨ (b.exchanges.get? x).isSome)
      (hb : ∀ x key name, Binds x key name b op → name ∈ b.boundTo x key)
  | exchange {x : String} (hx : Declares x b op) (hd : x ≠ defaultExchange)
      (hnew : b.exchanges.get? x = none)
      (he : b' = { b with exchanges := b.exchanges.insert x [] })
  | binding {x key name : String} {bindings : List Binding} (hb : Binds x key name b op)
      (hx : b.exchanges.get? x = some bindings) (hm : Binding.mk key name ∉ bindings)
      (he : b' = { b with exchanges := b.exchanges.insert x (bindings ++ [⟨key, name⟩]) })

/-- The operations that may add to the exchanges. -/
def Operation.adds : Operation → Bool
  | .declareExchange .. | .bind .. => true
  | _ => false

theorem Rebinds.of_thins (hthin : Thins b b') (ha : op.adds = false) : Rebinds b op b' := by
  refine .nothing hthin (fun x hx => ?_) fun x key name hb => ?_
  · obtain ⟨c, rfl, -⟩ := hx
    cases ha
  · obtain ⟨c, rfl, -⟩ := hb
    cases ha

theorem rebinds_perform (hl : b.Linked) (hb : b.Bound) (hi : ∀ c ∈ op.channel?, b.Issued c) :
    Rebinds b op (b.perform op).broker := by
  rcases perform_cases b op with ⟨e, hr⟩ | hg
  · refine .nothing (.of_grows hb (by rw [hr]; rfl) fun name hs => by rw [hr]; exact hs)
      (fun x hx => ?_) fun x key name hm => ?_
    · obtain ⟨c, -, ha⟩ := hx
      rw [hr] at ha; cases ha
    · obtain ⟨c, -, ha⟩ := hm
      rw [hr] at ha; cases ha
  generalize he : b.perform op = effect at hg
  have hsame : ∀ {q : Queue} (other name : String), (b.queues.get? name).isSome →
      ((b.queues.insert other q).get? name).isSome := fun other name hs => by
    rw [Table.get?_insert]
    split
    · rfl
    · exact hs
  cases hg with
  | opened => exact .of_thins (.of_grows hb rfl fun _ hs => hs) rfl
  | exchangeKept hc hx =>
    refine .nothing (.of_grows hb rfl fun _ hs => hs) (fun x' hd => ?_) fun _ _ _ hm => ?_
    · obtain ⟨c, hop, -⟩ := hd
      cases hop
      exact hx
    · obtain ⟨c, hop, -⟩ := hm
      cases hop
  | @exchangeAdded c x hc hd hx => exact .exchange ⟨c, rfl, by rw [he]; rfl⟩ hd hx rfl
  | queueKept => exact .of_thins (.of_grows hb rfl fun _ hs => hs) rfl
  | queueAdded => exact .of_thins (.of_grows hb rfl (hsame _)) rfl
  | exclusiveAdded => exact .of_thins (.of_grows hb rfl (hsame _)) rfl
  | bindingKept hc hq hx hm =>
    refine .nothing (.of_grows hb rfl fun _ hs => hs) (fun x' hd => ?_) fun _ _ _ hm' => ?_
    · obtain ⟨c, hop, -⟩ := hd
      cases hop
    · obtain ⟨c, hop, -⟩ := hm'
      cases hop
      exact mem_boundTo.2 ⟨_, hx, hm⟩
  | @bindingAdded c name x key q bindings hc hq hx hm =>
    exact .binding ⟨c, rfl, by rw [he]; rfl⟩ hx hm rfl
  | subscribed => exact .of_thins (.of_grows hb rfl (hsame _)) rfl
  | @deletedBusy c name tag q hc hq ha ht =>
    have hcon : q.consumer = some tag := (Option.filter_eq_some_iff.1 ht).1
    refine .of_thins ?_ rfl
    simp only [grant, deleteBusy_eq_trim hl hq hcon]
    exact .trim hb _ _
  | deletedIdle => exact .of_thins (.removeQueue hb _) rfl
  | cancelled =>
    refine .of_thins ?_ rfl
    simp only [grant, endSubscription_eq_trim hl]
    exact .trim hb _ _
  | @published c m queues =>
    refine .of_thins (.of_grows hb ?_ fun name hs => ?_) rfl
    · exact forEach_induct (P := fun b' => b'.exchanges = b.exchanges) queues b
        (fun b' other _ h => (exchanges_enqueue b' other m).trans h) rfl
    · exact (agrees_enqueueAll b m queues).isSome_queue.trans hs
  | closed => exact .of_thins (shutsDown_shutdownChannel hl hb _ (hi _ rfl)).bindings rfl
  | aborted => exact .of_thins (shutsDown_shutdownChannel hl hb _ (hi _ rfl)).bindings rfl
  | lost => exact .of_thins (shutsDown_abortConnection hl hb _).bindings rfl

theorem Rebinds.isSome_iff (h : Rebinds b op b') (hx : x ≠ defaultExchange) :
    (b'.exchanges.get? x).isSome ↔ (b.exchanges.get? x).isSome ∨ Declares x b op := by
  cases h with
  | nothing hthin hdecl =>
    rw [hthin.isSome]
    exact (or_iff_left_of_imp fun hd => (hdecl x hd).resolve_left hx).symm
  | @exchange x' hd _ hnew he =>
    subst he
    simp only [Table.get?_insert]
    split
    · next he => exact iff_of_true rfl (Or.inr (he ▸ hd))
    · next hne =>
      refine (or_iff_left fun hd' => ?_).symm
      obtain ⟨c, rfl, -⟩ := hd
      obtain ⟨c', hop, -⟩ := hd'
      cases hop
      exact hne rfl
  | @binding x' key name bindings hb hx' _ he =>
    subst he
    have hno : ¬Declares x b op := by
      rintro ⟨c, rfl, -⟩
      obtain ⟨c', hop, -⟩ := hb
      cases hop
    simp only [Table.get?_insert]
    split
    · next he => exact iff_of_true rfl (Or.inl (he ▸ Option.isSome_of_eq_some hx'))
    · exact (or_iff_left hno).symm

/-- The queues bound to an exchange under a key: those that have been and still exist, and after
them the one that is bound now for the first time. -/
theorem Rebinds.boundTo (h : Rebinds b op b') (hb : b.Bound) (x key : String) :
    (b'.boundTo x key = (b.boundTo x key).filter (fun name => (b'.queues.get? name).isSome) ∧
      ∀ name, Binds x key name b op → name ∈ b.boundTo x key) ∨
    ∃ name, Binds x key name b op ∧ name ∉ b.boundTo x key ∧ b'.queues = b.queues ∧
      b'.boundTo x key = b.boundTo x key ++ [name] := by
  have hall : ∀ b' : Broker, b'.queues = b.queues →
      (b.boundTo x key).filter (fun name => (b'.queues.get? name).isSome) = b.boundTo x key := by
    intro b' hq
    refine List.filter_eq_self.2 fun name hm => ?_
    obtain ⟨bindings, hx, hm⟩ := mem_boundTo.1 hm
    rw [hq]
    exact hb.existing x bindings hx _ hm
  cases h with
  | nothing hthin _ hbound => exact Or.inl ⟨hthin.boundTo x key, hbound x key⟩
  | @exchange x' hd _ hnew he =>
    subst he
    refine Or.inl ⟨?_, fun name hm => ?_⟩
    · rw [hall _ rfl]
      simp only [Broker.boundTo, Table.get?_insert]
      split
      · next he => rw [← he, hnew]; rfl
      · rfl
    · obtain ⟨c, rfl, -⟩ := hd
      obtain ⟨c', hop, -⟩ := hm
      cases hop
  | @binding x' key' name' bindings hbinds hx hm he =>
    subst he
    by_cases hxk : x' = x ∧ key' = key
    · obtain ⟨rfl, rfl⟩ := hxk
      refine Or.inr ⟨name', hbinds, fun hmem => ?_, rfl, ?_⟩
      · obtain ⟨bindings', hx', hmem⟩ := mem_boundTo.1 hmem
        rw [hx] at hx'; cases hx'
        exact hm hmem
      · simp [Broker.boundTo, hx]
    · refine Or.inl ⟨?_, fun name hn => ?_⟩
      · rw [hall _ rfl]
        simp only [Broker.boundTo, Table.get?_insert]
        split
        · next he =>
          subst he
          have hkey : (key' == key) = false := beq_eq_false_iff_ne.2 fun he => hxk ⟨rfl, he⟩
          simp [hx, hkey]
        · rfl
      · obtain ⟨c, rfl, -⟩ := hbinds
        obtain ⟨c', hop, -⟩ := hn
        cases hop
        exact absurd ⟨rfl, rfl⟩ hxk

/-! ## Whole histories -/

/-- The queues that have been bound to the exchange under the key since they were made, in the
order in which that was first done. -/
structure Ordered (ops : List Operation) (x key : String) (queues : List String) : Prop where
  mem : ∀ name, name ∈ queues ↔ ∃ n, BoundAt x key name ops n
  sorted : queues.Pairwise fun name later => ∃ n m, FirstBound x key name ops n ∧
    FirstBound x key later ops m ∧ n < m

theorem Ordered.nodup {queues : List String} (h : Ordered ops x key queues) : queues.Nodup := by
  refine h.sorted.imp fun {name later} hlt he => ?_
  obtain ⟨n, m, hn, hm, hlt⟩ := hlt
  subst he
  rw [hn.unique hm] at hlt
  exact Nat.lt_irrefl _ hlt

/-- The history leaves no choice. -/
theorem Ordered.eq {queues queues' : List String} (h : Ordered ops x key queues)
    (h' : Ordered ops x key queues') : queues = queues' := by
  have hperm : queues.Perm queues' :=
    (List.perm_ext_iff_of_nodup h.nodup h'.nodup).2 fun name =>
      (h.mem name).trans (h'.mem name).symm
  refine hperm.eq_of_pairwise (fun name later _ _ hlt hlt' => ?_) h.sorted h'.sorted
  obtain ⟨n, m, hn, hm, hlt⟩ := hlt
  obtain ⟨m', n', hm', hn', hlt'⟩ := hlt'
  rw [hn.unique hn', hm.unique hm'] at hlt
  exact absurd hlt (Nat.lt_asymm hlt')

theorem Ordered.concat (h : Ordered past x key ((run {} past).1.boundTo x key))
    (hb : (run {} past).1.Bound)
    (hr : Rebinds (run {} past).1 op ((run {} past).1.perform op).broker) :
    Ordered (past ++ [op]) x key (((run {} past).1.perform op).broker.boundTo x key) := by
  rcases hr.boundTo hb x key with ⟨he, hold⟩ | ⟨new, hbinds, hnew, hqueues, he⟩
  · rw [he]
    refine ⟨fun name => ?_, ?_⟩
    · rw [List.mem_filter, h.mem]
      constructor
      · rintro ⟨⟨n, hn⟩, hs⟩
        exact ⟨n, boundAt_concat.2 (Or.inl ⟨hn, hs⟩)⟩
      · rintro ⟨n, hn⟩
        rcases boundAt_concat.1 hn with ⟨hn, hs⟩ | ⟨-, hbinds⟩
        · exact ⟨⟨n, hn⟩, hs⟩
        · exact ⟨(h.mem name).1 (hold name hbinds), hbinds.isSome⟩
    · refine List.Pairwise.imp_of_mem (fun {name later} hm hm' hlt => ?_) (h.sorted.filter _)
      obtain ⟨n, m, hn, hm₁, hlt⟩ := hlt
      exact ⟨n, m, hn.concat (List.mem_filter.1 hm).2, hm₁.concat (List.mem_filter.1 hm').2, hlt⟩
  · rw [he]
    have hstays : ∀ name ∈ (run {} past).1.boundTo x key,
        (((run {} past).1.perform op).broker.queues.get? name).isSome := by
      intro name hm
      obtain ⟨bindings, hx, hm⟩ := mem_boundTo.1 hm
      rw [hqueues]
      exact hb.existing x bindings hx _ hm
    have hfirst : FirstBound x key new (past ++ [op]) past.length := by
      refine ⟨boundAt_concat.2 (Or.inr ⟨rfl, hbinds⟩), fun m hm hbound => ?_⟩
      rcases boundAt_concat.1 hbound with ⟨hbound, -⟩ | ⟨rfl, -⟩
      · exact hnew ((h.mem new).2 ⟨m, hbound⟩)
      · exact Nat.lt_irrefl _ hm
    refine ⟨fun name => ?_, ?_⟩
    · rw [List.mem_append, List.mem_singleton]
      constructor
      · rintro (hm | rfl)
        · obtain ⟨n, hn⟩ := (h.mem name).1 hm
          exact ⟨n, boundAt_concat.2 (Or.inl ⟨hn, hstays name hm⟩)⟩
        · exact ⟨_, hfirst.1⟩
      · rintro ⟨n, hn⟩
        rcases boundAt_concat.1 hn with ⟨hn, -⟩ | ⟨-, hbinds'⟩
        · exact Or.inl ((h.mem name).2 ⟨n, hn⟩)
        · obtain ⟨c, rfl, -⟩ := hbinds
          obtain ⟨c', hop, -⟩ := hbinds'
          cases hop
          exact Or.inr rfl
    · refine List.pairwise_append.2
        ⟨?_, List.pairwise_singleton _ _, fun name hm later hlater => ?_⟩
      · refine List.Pairwise.imp_of_mem (fun {name later} hm hm' hlt => ?_) h.sorted
        obtain ⟨n, m, hn, hm₁, hlt⟩ := hlt
        exact ⟨n, m, hn.concat (hstays name hm), hm₁.concat (hstays later hm'), hlt⟩
      · rw [List.mem_singleton.1 hlater]
        obtain ⟨n, hn⟩ := (h.mem name).1 hm
        obtain ⟨n, hn⟩ := hn.first
        exact ⟨n, past.length, hn.concat (hstays name hm), hfirst, hn.1.lt⟩

/-- An exchange other than the default one exists if a declaration of it has been granted. -/
theorem run_declared (hi : OnIssued {} ops)
    (hnames : ∀ c n, .declareQueue c (generatedName n) ∉ ops)
    (hx : x ≠ defaultExchange) : ((run {} ops).1.exchanges.get? x).isSome ↔ Declared ops x := by
  refine history_induct
    (P := fun ops => (∀ c n, .declareQueue c (generatedName n) ∉ ops) →
      (((run {} ops).1.exchanges.get? x).isSome ↔ Declared ops x))
    (fun _ => iff_of_false nofun not_happened_nil) (fun past op hpast hop ih hp => ?_) hi hnames
  have hp' : ∀ c n, .declareQueue c (generatedName n) ∉ past := fun c n hm =>
    hp c n (List.mem_append_left _ hm)
  rw [run_concat, (rebinds_perform (run_linked hpast hp') (run_bound hpast) hop).isSome_iff hx,
    ih hp']
  exact happened_concat.symm

/-- **Bindings and their history.** -/
theorem run_ordered (hi : OnIssued {} ops) (hnames : ∀ c n, .declareQueue c (generatedName n) ∉ ops)
    (x key : String) : Ordered ops x key ((run {} ops).1.boundTo x key) := by
  refine history_induct
    (P := fun ops => (∀ c n, .declareQueue c (generatedName n) ∉ ops) →
      Ordered ops x key ((run {} ops).1.boundTo x key))
    (fun _ => ⟨fun name => iff_of_false List.not_mem_nil ?_, .nil⟩)
    (fun past op hpast hop ih hp => ?_) hi hnames
  · rintro ⟨n, hn⟩
    exact absurd hn.lt (Nat.not_lt_zero n)
  have hp' : ∀ c n, .declareQueue c (generatedName n) ∉ past := fun c n hm =>
    hp c n (List.mem_append_left _ hm)
  rw [run_concat]
  exact (ih hp').concat (run_bound hpast)
    (rebinds_perform (run_linked hpast hp') (run_bound hpast) hop)

end BrokeredRpc.Broker
