import BrokeredRpc.Broker.Operation
import BrokeredRpc.Client

/-!
# Names made of counters

A broker names queues and tags, and a client its calls, by writing counters in
decimal, behind a fixed text or alone. Different counters give different names:
a decimal text is read back to its number (`decimal_inj`), and the point between
the two numbers of a tag is no digit, so a tag splits in one way only.

Results: `generatedName_inj`, `tagName_inj`, `idOf_inj`.
-/
namespace BrokeredRpc

theorem decimal_inj {m n : Nat} (h : (toString m).toList = (toString n).toList) : m = n := by
  simp only [Nat.toString_eq_repr, Nat.toList_repr] at h
  have := congrArg (fun digits => Nat.ofDigitChars 10 digits 0) h
  simpa only [Nat.ofDigitChars_toDigits (show 1 < 10 by decide) (Nat.le_refl 10)] using this

theorem point_notMem_decimal (n : Nat) : '.' ∉ (toString n).toList := by
  intro h
  rw [Nat.toString_eq_repr, Nat.toList_repr] at h
  have := Nat.isDigit_of_mem_toDigits (by decide) (Nat.le_refl 10) h
  exact absurd this (by decide)

theorem takeWhile_point {digits rest : List Char} (h : '.' ∉ digits) :
    (digits ++ '.' :: rest).takeWhile (· != '.') = digits := by
  have hpos : ∀ c ∈ digits, (c != '.') = true := by
    intro c hc
    rw [bne_iff_ne]
    rintro rfl
    exact h hc
  rw [List.takeWhile_append_of_pos hpos, List.takeWhile_cons_of_neg (by decide), List.append_nil]

namespace Broker

theorem generatedName_inj {m n : Nat} : generatedName m = generatedName n ↔ m = n := by
  refine ⟨fun h => ?_, fun h => h ▸ rfl⟩
  unfold generatedName at h
  rw [String.append_right_inj] at h
  exact decimal_inj (congrArg String.toList h)

theorem tagName_inj {c d m n : Nat} : tagName c m = tagName d n ↔ c = d ∧ m = n := by
  refine ⟨fun h => ?_, fun h => by rw [h.1, h.2]⟩
  unfold tagName at h
  rw [String.append_assoc, String.append_assoc, String.append_assoc, String.append_assoc,
    String.append_right_inj] at h
  have hl := congrArg String.toList h
  simp only [String.toList_append, show ".".toList = ['.'] from rfl, List.singleton_append] at hl
  have hc : c = d := by
    have := congrArg (List.takeWhile (· != '.')) hl
    rw [takeWhile_point (point_notMem_decimal c), takeWhile_point (point_notMem_decimal d)] at this
    exact decimal_inj this
  subst hc
  exact ⟨rfl, decimal_inj (List.cons.inj (List.append_cancel_left hl)).2⟩

/-- A name that begins otherwise is none that the broker generates. -/
theorem generatedName_ne {n : Nat} {name : String}
    (h : name.toList.take 8 ≠ ['a', 'm', 'q', '.', 'g', 'e', 'n', '-']) :
    name ≠ generatedName n := by
  rintro rfl
  refine h ?_
  rw [generatedName, String.toList_append]
  rfl

end Broker

theorem Client.idOf_inj {m n : Nat} : idOf m = idOf n ↔ m = n :=
  ⟨fun h => decimal_inj (congrArg String.toList h), fun h => h ▸ rfl⟩

end BrokeredRpc
