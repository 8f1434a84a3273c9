import BrokeredRpc.Draft
import Mathlib.Data.List.Induction

/-!
# The last write wins

An edit writes to one target, a field or the header of a key. Whatever is edited, what
stands at a target in the end is what was written to it last, or what stood there before
if nothing was (`read_edit`). So a list of edits means no more than its last writes: two
lists with the same ones do the same to all properties, and the properties made from
nothing show what they are (`ofEdits_eq_iff`).

A draft keeps copies of properties at some of its steps; these stay as they were
(`saved_run`).

* `edit_last_write_wins`: fields, headers, equality, order and copies together.
-/
namespace BrokeredRpc

namespace Properties

/-! ## Targets -/

/-- What an edit writes to. -/
inductive Target
  | field (field : Field)
  | header (key : String)
  deriving DecidableEq, Repr

namespace Edit

def target : Edit → Target
  | field f _ => .field f
  | header key _ => .header key

def value : Edit → String
  | field _ value | header _ value => value

end Edit

/-- What stands at a target. -/
def read (p : Properties) : Target → Option String
  | .field f => p.get f
  | .header key => p.header key

theorem ext_read {p q : Properties} (h : ∀ t, p.read t = q.read t) : p = q :=
  ext_get (fun f => h (.field f)) fun key => h (.header key)

theorem read_apply (p : Properties) (e : Edit) (t : Target) :
    (p.apply e).read t = if e.target = t then some e.value else p.read t := by
  cases e with
  | field f value =>
    cases t with
    | field g => simp [apply, read, get_set, Edit.target, Edit.value]
    | header key => simp [apply, read, header, Edit.target]
  | header k value =>
    cases t with
    | field g => simp [apply, read, Edit.target]
    | header key => simp [apply, read, header_setHeader, Edit.target, Edit.value]

theorem apply_comm (p : Properties) {e e' : Edit} (h : e.target ≠ e'.target) :
    (p.apply e).apply e' = (p.apply e').apply e := by
  apply ext_read
  intro t
  simp only [read_apply]
  by_cases ht : e.target = t
  · have ht' : e'.target ≠ t := fun he => h (ht.trans he.symm)
    simp [ht, ht']
  · simp [ht]

/-! ## Last writes -/

/-- The value that was written to a target last. -/
def lastWrite (edits : List Edit) (t : Target) : Option String :=
  (edits.filter fun e => e.target = t).getLast?.map Edit.value

theorem lastWrite_concat (edits : List Edit) (e : Edit) (t : Target) :
    lastWrite (edits ++ [e]) t = if e.target = t then some e.value else lastWrite edits t := by
  unfold lastWrite
  by_cases h : e.target = t <;> simp [h]

theorem isSome_lastWrite {edits : List Edit} {t : Target} :
    (lastWrite edits t).isSome ↔ ∃ e ∈ edits, e.target = t := by
  unfold lastWrite
  simp

theorem edit_concat (p : Properties) (edits : List Edit) (e : Edit) :
    p.edit (edits ++ [e]) = (p.edit edits).apply e := by
  unfold edit
  simp

/-- **The last write wins**, at every target. -/
theorem read_edit (p : Properties) (edits : List Edit) (t : Target) :
    (p.edit edits).read t = (lastWrite edits t).or (p.read t) := by
  induction edits using List.reverseRecOn with
  | nil => rfl
  | append_singleton edits e ih =>
    rw [edit_concat, read_apply, lastWrite_concat, ih]
    split <;> rfl

theorem edit_congr {edits others : List Edit} (h : ∀ t, lastWrite edits t = lastWrite others t)
    (p : Properties) : p.edit edits = p.edit others := by
  apply ext_read
  intro t
  rw [read_edit, read_edit, h]

theorem read_ofEdits (edits : List Edit) (t : Target) :
    (ofEdits edits).read t = lastWrite edits t := by
  have hnone : ({} : Properties).read t = none := by
    cases t with
    | field f => cases f <;> rfl
    | header key => rfl
  rw [ofEdits, read_edit, hnone, Option.or_none]

/-- Properties made from nothing show the last writes. -/
theorem ofEdits_eq_iff {edits others : List Edit} :
    ofEdits edits = ofEdits others ↔ ∀ t, lastWrite edits t = lastWrite others t := by
  constructor
  · intro h t
    rw [← read_ofEdits, h, read_ofEdits]
  · intro h
    exact edit_congr h {}

theorem mem_keys_edit {p : Properties} {edits : List Edit} {key : String} :
    key ∈ (p.edit edits).headers.keys ↔
      key ∈ p.headers.keys ∨ ∃ value, .header key value ∈ edits := by
  have hwritten : (∃ e ∈ edits, e.target = .header key) ↔ ∃ value, .header key value ∈ edits := by
    constructor
    · rintro ⟨e, he, ht⟩
      cases e with
      | field f value => cases ht
      | header k value =>
        cases ht
        exact ⟨value, he⟩
    · rintro ⟨value, he⟩
      exact ⟨_, he, rfl⟩
  have hread : (p.edit edits).headers.get? key =
      (lastWrite edits (.header key)).or (p.headers.get? key) := read_edit p edits (.header key)
  rw [Table.mem_keys_iff, Table.mem_keys_iff, hread, Option.isSome_or, Bool.or_eq_true,
    isSome_lastWrite, hwritten, or_comm]

end Properties

/-! ## Copies -/

namespace Draft

theorem run_append (d : Draft) (steps more : List Step) :
    d.run (steps ++ more) = (d.run steps).run more := List.foldl_append

theorem saved_apply (d : Draft) (step : Step) : d.saved <+: (d.apply step).saved := by
  cases step with
  | edit e => exact List.prefix_rfl
  | save => exact List.prefix_append _ _
  | restore => exact List.prefix_rfl

theorem saved_run (steps : List Step) : ∀ d : Draft, d.saved <+: (d.run steps).saved := by
  induction steps with
  | nil =>
    intro d
    exact List.prefix_rfl
  | cons step rest ih =>
    intro d
    exact (saved_apply d step).trans (ih (d.apply step))

end Draft

open Properties

/-- **The last write wins.** Edits leave in each field and under each key what they wrote there
last, or what stood there; no other key appears, and the keys increase. So edits with the same
last writes do the same to all properties, and edits of empty properties give the same ones only
if they have the same last writes. Edits with different targets may change places. The copies that
a draft has made stay as they were made, whatever steps follow. -/
theorem edit_last_write_wins (p : Properties) (edits others : List Edit) :
    (∀ f, (p.edit edits).get f = (lastWrite edits (.field f)).or (p.get f)) ∧
      (∀ key, (p.edit edits).header key = (lastWrite edits (.header key)).or (p.header key)) ∧
      (∀ key, key ∈ (p.edit edits).headers.keys ↔
        key ∈ p.headers.keys ∨ ∃ value, .header key value ∈ edits) ∧
      (p.edit edits).headers.keys.Pairwise (· < ·) ∧
      ((∀ t, lastWrite edits t = lastWrite others t) ↔
        ∀ q : Properties, q.edit edits = q.edit others) ∧
      (ofEdits edits = ofEdits others ↔ ∀ t, lastWrite edits t = lastWrite others t) ∧
      (∀ e e' : Edit, e.target ≠ e'.target → (p.apply e).apply e' = (p.apply e').apply e) ∧
      ∀ (d : Draft) (before after : List Draft.Step),
        (d.run before).saved ++ [(d.run before).current] <+:
          (d.run (before ++ .save :: after)).saved := by
  refine ⟨fun f => read_edit p edits (.field f), fun key => read_edit p edits (.header key),
    fun key => mem_keys_edit, ?_, ⟨edit_congr, fun h => ofEdits_eq_iff.1 (h {})⟩, ofEdits_eq_iff,
    fun e e' h => apply_comm p h, fun d before after => ?_⟩
  · exact List.pairwise_map.2 (p.edit edits).headers.increasing
  · rw [Draft.run_append]
    exact Draft.saved_run after ((d.run before).apply .save)

/-- Three writes to one header and a field in between: only the last ones are seen. -/
example : ofEdits [.header "k" "1", .field .appId "x", .header "k" "2", .header "k" "3"] =
    ofEdits [.header "k" "3", .field .appId "x"] := by decide

end BrokeredRpc
