/-!
# Logs

A log is a list that grows at its end, one entry at a time and each in constant
time: it keeps its entries newest first, and counts them. `toList` is what it
means, the entries in the order in which they came; a log has one
representation, so two logs with the same entries are equal (`ext_toList`).
-/
namespace BrokeredRpc

structure Log (α : Type) where
  newestFirst : List α := []
  size : Nat := newestFirst.length
  size_eq : size = newestFirst.length := by rfl
  deriving DecidableEq

namespace Log

variable {α : Type}

instance : EmptyCollection (Log α) := ⟨{}⟩

instance : Inhabited (Log α) := ⟨∅⟩

/-- The entries, oldest first. -/
def toList (l : Log α) : List α := l.newestFirst.reverse

def ofList (entries : List α) : Log α := { newestFirst := entries.reverse }

def push (l : Log α) (entry : α) : Log α where
  newestFirst := entry :: l.newestFirst
  size := l.size + 1
  size_eq := by rw [l.size_eq, List.length_cons]

/-- The log with more entries at its end. -/
def append (l : Log α) (entries : List α) : Log α := entries.foldl push l

@[simp] theorem toList_empty : (∅ : Log α).toList = [] := rfl

@[simp] theorem toList_push (l : Log α) (entry : α) :
    (l.push entry).toList = l.toList ++ [entry] := List.reverse_cons

@[simp] theorem toList_append (l : Log α) (entries : List α) :
    (l.append entries).toList = l.toList ++ entries := by
  induction entries generalizing l with
  | nil => exact (List.append_nil _).symm
  | cons entry rest ih =>
    have h := ih (l.push entry)
    rwa [toList_push, List.append_assoc] at h

@[simp] theorem toList_ofList (entries : List α) : (ofList entries).toList = entries :=
  List.reverse_reverse entries

@[simp] theorem length_toList (l : Log α) : l.toList.length = l.size :=
  List.length_reverse.trans l.size_eq.symm

theorem ext_toList {l m : Log α} (h : l.toList = m.toList) : l = m := by
  obtain ⟨entries, _, rfl⟩ := l
  obtain ⟨others, _, rfl⟩ := m
  obtain rfl := List.reverse_inj.1 h
  rfl

end Log

end BrokeredRpc
