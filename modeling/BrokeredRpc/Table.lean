/-!
# Tables keyed by text

A `Table α` is a finite map from text to `α`. Its entries stand in strictly
increasing order of their keys (code point by code point), so a table has one
representation and two equal maps are equal values.

Results:
* `get?_insert`, `get?_erase`, `get?_filter`, `get?_mapValues`, `get?_modify`:
  every operation seen through lookup;
* `ext_get?`: tables that answer every lookup alike are equal;
* `mem_toList_iff`: the entries listed are exactly the ones that lookup finds;
* `get?_ofList_append`, `ofList_toList`: the table of a list, in which the last
  value of a key counts.
-/
namespace BrokeredRpc

/-! ## Entries in increasing order -/

/-- Keys strictly increase along the list. -/
def Increasing (entries : List (String × α)) : Prop :=
  entries.Pairwise fun a b => a.1 < b.1

/-- The value filed under `key`. -/
def valueAt (key : String) : List (String × α) → Option α
  | [] => none
  | (k, v) :: rest => if k = key then some v else valueAt key rest

/-- Files `value` under `key`, in its place, instead of what stood there. -/
def fileEntry (key : String) (value : α) : List (String × α) → List (String × α)
  | [] => [(key, value)]
  | (k, v) :: rest =>
    if key < k then (key, value) :: (k, v) :: rest
    else if key = k then (key, value) :: rest
    else (k, v) :: fileEntry key value rest

theorem mem_fileEntry {key : String} {value : α} {e : String × α} :
    ∀ {l : List (String × α)}, e ∈ fileEntry key value l → e = (key, value) ∨ e ∈ l
  | [], h => by simp [fileEntry] at h; exact Or.inl h
  | (k, v) :: rest, h => by
    unfold fileEntry at h
    split at h
    · simpa using h
    split at h
    · rcases List.mem_cons.1 h with h | h
      · exact Or.inl h
      · exact Or.inr (List.mem_cons_of_mem _ h)
    · rcases List.mem_cons.1 h with h | h
      · exact Or.inr (h ▸ List.mem_cons_self)
      · exact (mem_fileEntry h).imp id (List.mem_cons_of_mem _)

theorem lt_of_not_lt {a b : String} (h : ¬a < b) (hne : a ≠ b) : b < a :=
  Decidable.byContradiction fun h' =>
    hne (String.le_antisymm (String.not_lt.1 h') (String.not_lt.1 h))

theorem increasing_fileEntry (key : String) (value : α) :
    ∀ {l : List (String × α)}, Increasing l → Increasing (fileEntry key value l)
  | [], _ => by simp [fileEntry, Increasing]
  | (k, v) :: rest, h => by
    have hr : ∀ e ∈ rest, k < e.1 := fun _ he => List.rel_of_pairwise_cons h he
    have ht : Increasing rest := h.of_cons
    unfold fileEntry
    split
    · rename_i hlt
      refine List.Pairwise.cons (fun e he => ?_) h
      rcases List.mem_cons.1 he with rfl | he
      · exact hlt
      · exact String.lt_trans hlt (hr e he)
    split
    · rename_i heq; subst heq
      exact List.Pairwise.cons hr ht
    · rename_i hnlt hne
      refine List.Pairwise.cons (fun e he => ?_) (increasing_fileEntry key value ht)
      rcases mem_fileEntry he with rfl | he
      · exact lt_of_not_lt hnlt hne
      · exact hr e he

theorem valueAt_fileEntry (key : String) (value : α) (k : String) :
    ∀ l : List (String × α),
      valueAt k (fileEntry key value l) = if key = k then some value else valueAt k l
  | [] => by simp [fileEntry, valueAt]
  | (k', v) :: rest => by
    unfold fileEntry
    split
    · simp [valueAt]
    split
    · rename_i heq; subst heq
      by_cases hk : key = k <;> simp [valueAt, hk]
    · rename_i hne
      simp only [valueAt, valueAt_fileEntry key value k rest]
      by_cases hk : k' = k
      · subst hk; simp [hne]
      · simp [hk]

theorem valueAt_eq_none {k : String} :
    ∀ {l : List (String × α)}, (∀ e ∈ l, e.1 ≠ k) → valueAt k l = none
  | [], _ => rfl
  | (k', v) :: rest, h => by
    have h1 : k' ≠ k := h (k', v) List.mem_cons_self
    simp only [valueAt, h1, if_false]
    exact valueAt_eq_none fun e he => h e (List.mem_cons_of_mem _ he)

theorem valueAt_filter (p : String → α → Bool) (k : String) :
    ∀ {l : List (String × α)}, Increasing l →
      valueAt k (l.filter fun e => p e.1 e.2) = (valueAt k l).filter (p k)
  | [], _ => rfl
  | (k', v) :: rest, h => by
    have hr : ∀ e ∈ rest, k' < e.1 := fun _ he => List.rel_of_pairwise_cons h he
    have ih := valueAt_filter p k (l := rest) h.of_cons
    by_cases hk : k' = k
    · subst hk
      have hnone : valueAt k' (rest.filter fun e => p e.1 e.2) = none := by
        refine valueAt_eq_none fun e he heq => ?_
        exact String.lt_irrefl k' (by simpa [heq] using hr e (List.mem_filter.1 he).1)
      cases hp : p k' v <;> simp [valueAt, hp, hnone, Option.filter]
    · cases hp : p k' v <;> simp [valueAt, hp, hk, ih]

theorem valueAt_map (f : String → α → β) (k : String) :
    ∀ l : List (String × α),
      valueAt k (l.map fun e => (e.1, f e.1 e.2)) = (valueAt k l).map (f k)
  | [] => rfl
  | (k', v) :: rest => by
    by_cases hk : k' = k
    · subst hk; simp [valueAt]
    · simp [valueAt, hk, valueAt_map f k rest]

theorem mem_iff_valueAt {k : String} {v : α} :
    ∀ {l : List (String × α)}, Increasing l → ((k, v) ∈ l ↔ valueAt k l = some v)
  | [], _ => by simp [valueAt]
  | (k', v') :: rest, h => by
    have hr : ∀ e ∈ rest, k' < e.1 := fun _ he => List.rel_of_pairwise_cons h he
    by_cases hk : k' = k
    · subst hk
      simp only [List.mem_cons, Prod.mk.injEq, true_and, valueAt, if_true, Option.some.injEq]
      constructor
      · rintro (rfl | hm)
        · rfl
        · exact absurd (hr _ hm) (String.lt_irrefl k')
      · rintro rfl; exact Or.inl rfl
    · simp only [List.mem_cons, Prod.mk.injEq, Ne.symm hk, false_and, false_or, valueAt, hk,
        if_false]
      exact mem_iff_valueAt h.of_cons

theorem eq_of_valueAt_eq :
    ∀ {l l' : List (String × α)}, Increasing l → Increasing l' →
      (∀ k, valueAt k l = valueAt k l') → l = l'
  | [], [], _, _, _ => rfl
  | [], (k, v) :: _, _, _, h => by simpa [valueAt] using h k
  | (k, v) :: _, [], _, _, h => by simpa [valueAt] using h k
  | (k, v) :: l, (k', v') :: l', h, h', he => by
    have hr : ∀ e ∈ l, k < e.1 := fun _ he => List.rel_of_pairwise_cons h he
    have hr' : ∀ e ∈ l', k' < e.1 := fun _ he => List.rel_of_pairwise_cons h' he
    have hk : k = k' := by
      refine Decidable.byContradiction fun hne => ?_
      have m1 : (k, v) ∈ (k', v') :: l' := (mem_iff_valueAt h').2 (he k ▸ by simp [valueAt])
      have m2 : (k', v') ∈ (k, v) :: l := (mem_iff_valueAt h).2 (he k' ▸ by simp [valueAt])
      simp only [List.mem_cons, Prod.mk.injEq, hne, Ne.symm hne, false_and, false_or] at m1 m2
      exact String.lt_asymm (hr _ m2) (hr' _ m1)
    subst hk
    have hv : v = v' := by simpa [valueAt] using he k
    subst hv
    congr 1
    refine eq_of_valueAt_eq h.of_cons h'.of_cons fun j => ?_
    by_cases hj : k = j
    · subst hj
      rw [valueAt_eq_none fun e hm heq => String.lt_irrefl k (by simpa [heq] using hr e hm),
        valueAt_eq_none fun e hm heq => String.lt_irrefl k (by simpa [heq] using hr' e hm)]
    · simpa [valueAt, hj] using he j

/-! ## Tables -/

/-- A finite map from text, its entries in increasing order of their keys. -/
@[ext] structure Table (α : Type) where
  toList : List (String × α) := []
  increasing : Increasing toList := by exact List.Pairwise.nil

namespace Table

variable {α β : Type}

instance [DecidableEq α] : DecidableEq (Table α) := fun s t =>
  decidable_of_iff (s.toList = t.toList) Table.ext_iff.symm

def empty : Table α := {}

instance : EmptyCollection (Table α) := ⟨empty⟩
instance : Inhabited (Table α) := ⟨empty⟩

def get? (t : Table α) (key : String) : Option α := valueAt key t.toList

def contains (t : Table α) (key : String) : Bool := (t.get? key).isSome

def keys (t : Table α) : List String := t.toList.map Prod.fst

def size (t : Table α) : Nat := t.toList.length

def isEmpty (t : Table α) : Bool := t.toList.isEmpty

/-- Files `value` under `key`, instead of what stood there. -/
def insert (t : Table α) (key : String) (value : α) : Table α where
  toList := fileEntry key value t.toList
  increasing := increasing_fileEntry key value t.increasing

/-- Keeps the entries that satisfy `p`. -/
def filter (t : Table α) (p : String → α → Bool) : Table α where
  toList := t.toList.filter fun e => p e.1 e.2
  increasing := t.increasing.filter _

def erase (t : Table α) (key : String) : Table α := t.filter fun k _ => k != key

def mapValues (f : α → β) (t : Table α) : Table β where
  toList := t.toList.map fun e => (e.1, f e.2)
  increasing := by
    refine List.pairwise_map.2 (t.increasing.imp ?_)
    intro a b h; exact h

/-- Changes the value under `key`, if there is one. -/
def modify (t : Table α) (key : String) (f : α → α) : Table α :=
  match t.get? key with
  | some value => t.insert key (f value)
  | none => t

def ofList (entries : List (String × α)) : Table α :=
  entries.foldl (fun (t : Table α) e => t.insert e.1 e.2) ∅

@[simp] theorem get?_empty (k : String) : (∅ : Table α).get? k = none := rfl

theorem get?_insert (t : Table α) (key : String) (value : α) (k : String) :
    (t.insert key value).get? k = if key = k then some value else t.get? k :=
  valueAt_fileEntry key value k t.toList

@[simp] theorem get?_insert_self (t : Table α) (key : String) (value : α) :
    (t.insert key value).get? key = some value := by simp [get?_insert]

theorem get?_filter (t : Table α) (p : String → α → Bool) (k : String) :
    (t.filter p).get? k = (t.get? k).filter (p k) :=
  valueAt_filter p k t.increasing

theorem get?_erase (t : Table α) (key k : String) :
    (t.erase key).get? k = if key = k then none else t.get? k := by
  rw [erase, get?_filter]
  by_cases h : key = k
  · subst h; cases t.get? key <;> simp [Option.filter]
  · have h' : k ≠ key := Ne.symm h
    cases t.get? k <;> simp [Option.filter, h, h']

@[simp] theorem get?_erase_self (t : Table α) (key : String) : (t.erase key).get? key = none := by
  simp [get?_erase]

theorem get?_mapValues (f : α → β) (t : Table α) (k : String) :
    (t.mapValues f).get? k = (t.get? k).map f :=
  valueAt_map (fun _ => f) k t.toList

@[simp] theorem keys_mapValues (f : α → β) (t : Table α) : (t.mapValues f).keys = t.keys := by
  rw [keys, keys, mapValues, List.map_map]
  rfl

theorem get?_modify (t : Table α) (key : String) (f : α → α) (k : String) :
    (t.modify key f).get? k = if key = k then (t.get? k).map f else t.get? k := by
  unfold modify
  by_cases h : key = k
  · subst h
    cases hg : t.get? key <;> simp [hg]
  · cases t.get? key <;> simp [get?_insert, h]

theorem mem_toList_iff {t : Table α} {k : String} {v : α} :
    (k, v) ∈ t.toList ↔ t.get? k = some v :=
  mem_iff_valueAt t.increasing

theorem mem_keys_iff {t : Table α} {k : String} : k ∈ t.keys ↔ (t.get? k).isSome := by
  simp only [keys, List.mem_map, Prod.exists, Option.isSome_iff_exists]
  constructor
  · rintro ⟨k', v, hm, rfl⟩; exact ⟨v, mem_toList_iff.1 hm⟩
  · rintro ⟨v, hv⟩; exact ⟨k, v, mem_toList_iff.2 hv, rfl⟩

theorem nodup_keys (t : Table α) : t.keys.Nodup := by
  refine List.pairwise_map.2 (t.increasing.imp fun {a b} hlt he => ?_)
  rw [he] at hlt
  exact String.lt_irrefl _ hlt

/-- Tables that answer every lookup alike are equal. -/
theorem ext_get? {s t : Table α} (h : ∀ k, s.get? k = t.get? k) : s = t :=
  Table.ext (eq_of_valueAt_eq s.increasing t.increasing h)

theorem erase_of_absent {t : Table α} {key : String} (h : t.get? key = none) :
    t.erase key = t := by
  refine ext_get? fun k => ?_
  rw [get?_erase]
  split
  · next hk => rw [← hk, h]
  · rfl

theorem erase_comm (t : Table α) (key key' : String) :
    (t.erase key).erase key' = (t.erase key').erase key := by
  refine ext_get? fun k => ?_
  rw [get?_erase, get?_erase, get?_erase, get?_erase]
  split <;> split <;> rfl

/-- Which keys a table has does not depend on the value that was filed last. -/
theorem size_insert (t : Table α) (key : String) (value value' : α) :
    (t.insert key value).size = (t.insert key value').size := by
  have hkeys : ∀ value, (t.insert key value).keys =
      ((t.mapValues fun _ => ()).insert key ()).keys := by
    intro value
    rw [← keys_mapValues (fun _ => ())]
    refine congrArg keys (ext_get? fun k => ?_)
    rw [get?_mapValues, get?_insert, get?_insert, get?_mapValues]
    split <;> rfl
  simpa [keys, size] using congrArg List.length ((hkeys value).trans (hkeys value').symm)

/-! ## Tables of lists -/

/-- Of several values of a key the last one counts. -/
theorem get?_ofList_append (l l' : List (String × α)) (k : String) :
    (ofList (l ++ l')).get? k = ((ofList l').get? k).or ((ofList l).get? k) := by
  have hfold : ∀ (l : List (String × α)) (t : Table α),
      (l.foldl (fun (t : Table α) e => t.insert e.1 e.2) t).get? k =
        ((ofList l).get? k).or (t.get? k) := by
    intro l
    induction l with
    | nil => exact fun _ => rfl
    | cons e rest ih =>
      intro t
      rw [ofList, List.foldl_cons, List.foldl_cons, ih, ih, Option.or_assoc, get?_insert,
        get?_insert]
      split <;> rfl
  rw [ofList, List.foldl_append, hfold]
  rfl

theorem get?_ofList_cons (key : String) (value : α) (l : List (String × α)) (k : String) :
    (ofList ((key, value) :: l)).get? k =
      ((ofList l).get? k).or (if key = k then some value else none) := by
  refine (get?_ofList_append [(key, value)] l k).trans (congrArg _ ?_)
  exact get?_insert ∅ key value k

/-- Only the members of a key decide on its value. -/
theorem get?_ofList_filter (l : List (String × α)) (k : String) :
    (ofList (l.filter (·.1 == k))).get? k = (ofList l).get? k := by
  induction l with
  | nil => rfl
  | cons e rest ih =>
    obtain ⟨key, value⟩ := e
    by_cases hk : key = k
    · rw [List.filter_cons_of_pos (by simpa using hk), get?_ofList_cons, get?_ofList_cons, ih]
    · rw [List.filter_cons_of_neg (by simpa using hk), get?_ofList_cons, ih, if_neg hk,
        Option.or_none]

theorem get?_ofList_of_absent {l : List (String × α)} {k : String} (h : k ∉ l.map Prod.fst) :
    (ofList l).get? k = none := by
  rw [← get?_ofList_filter, List.filter_eq_nil_iff.2 fun e he hk => h ?_]
  · rfl
  · exact List.mem_map.2 ⟨e, he, by simpa using hk⟩

theorem mem_keys_ofList {l : List (String × α)} {k : String} :
    k ∈ (ofList l).keys ↔ k ∈ l.map Prod.fst := by
  refine ⟨fun hm => Decidable.byContradiction fun hnot => ?_, fun hm => ?_⟩
  · rw [mem_keys_iff, get?_ofList_of_absent hnot] at hm
    cases hm
  · obtain ⟨⟨_, value⟩, he, rfl⟩ := List.mem_map.1 hm
    obtain ⟨pre, post, rfl⟩ := List.append_of_mem he
    rw [mem_keys_iff, get?_ofList_append, get?_ofList_cons, if_pos rfl]
    cases (ofList post).get? _ <;> rfl

/-- What stands under a key that occurs once is its value. -/
theorem get?_ofList_of_mem {l : List (String × α)} (hn : (l.map Prod.fst).Nodup) {k : String}
    {value : α} (h : (k, value) ∈ l) : (ofList l).get? k = some value := by
  obtain ⟨pre, post, rfl⟩ := List.append_of_mem h
  rw [List.map_append, List.map_cons] at hn
  have hpost : k ∉ post.map Prod.fst := (List.nodup_cons.1 (List.nodup_append.1 hn).2.1).1
  rw [get?_ofList_append, get?_ofList_cons, get?_ofList_of_absent hpost, if_pos rfl]
  rfl

@[simp] theorem ofList_toList (t : Table α) : ofList t.toList = t := by
  refine ext_get? fun k => ?_
  cases h : t.get? k with
  | some value => exact get?_ofList_of_mem t.nodup_keys (mem_toList_iff.2 h)
  | none =>
    refine get?_ofList_of_absent fun hm => ?_
    rw [show t.toList.map Prod.fst = t.keys from rfl, mem_keys_iff, h] at hm
    cases hm

end Table

end BrokeredRpc
