import Mathlib.Algebra.Group.Nat.Defs
import Std.Data.String.ToNat
import GuardedData.Proofs.Heap.Graph

/-!
# The two forms of a key

`key.Spells i` says that the name form of the key is the decimal numeral of the
index `i`, which fits into 64 bits. That is exactly when `i` is the index form
(`Key.toIndex?_eq_some_iff`), so that a name and an index with the same name
form address the same slots.
-/

namespace GuardedData

theorem toList_toString_nat (n : Nat) : (toString n).toList = Nat.toDigits 10 n := by
  rw [Nat.toString_eq_repr, Nat.toList_repr]

theorem numberOfDigits_toDigits (n : Nat) : numberOfDigits (Nat.toDigits 10 n) = n := by
  have h := Nat.ofDigitChars_ten_toDigits (n := n)
  rw [Nat.ofDigitChars_eq_foldl] at h
  simpa only [numberOfDigits, digitValue, Nat.mul_comm] using h

theorem length_toString_le {n : Nat} (hn : n < 2 ^ 64) : (toString n).length ≤ 20 := by
  have h : n < 10 ^ 20 := Nat.lt_of_lt_of_le hn (by decide)
  rw [Nat.toString_eq_repr, Nat.length_repr_le_iff (by decide)]
  exact h

theorem canonicalIndex?_eq_some {s : String} {i : Nat} :
    canonicalIndex? s = some i ↔ i < 2 ^ 64 ∧ s = toString i := by
  unfold canonicalIndex?
  constructor
  · intro e
    split at e
    · cases e
    · simp only [Option.ite_none_right_eq_some, Option.some.injEq] at e
      obtain ⟨⟨hs, hlt⟩, rfl⟩ := e
      exact ⟨hlt, hs.symm⟩
  · rintro ⟨hlt, rfl⟩
    have hlen : ¬ 20 < (toString i).length := Nat.not_lt.mpr (length_toString_le hlt)
    rw [if_neg hlen, toList_toString_nat, numberOfDigits_toDigits]
    exact if_pos ⟨rfl, hlt⟩

namespace Key

/-- The name form of the key is the numeral of an index of 64 bits. -/
def Spells (key : Key) (i : Nat) : Prop := i < 2 ^ 64 ∧ key.toName = toString i

theorem toIndex?_eq_some_iff {key : Key} {i : Nat} : key.toIndex? = some i ↔ key.Spells i := by
  cases key with
  | name s => exact canonicalIndex?_eq_some
  | index j =>
    have hj : j.toNat < 2 ^ 64 := j.toNat_lt
    simp only [toIndex?, Spells, toName, Option.some.injEq, Nat.toString_eq_repr, Nat.repr_inj]
    constructor
    · rintro rfl
      exact ⟨hj, rfl⟩
    · exact fun h => h.2

theorem toIndex?_eq_none_iff {key : Key} : key.toIndex? = none ↔ ∀ i, ¬ key.Spells i := by
  simp only [← toIndex?_eq_some_iff, Option.eq_none_iff_forall_ne_some, ne_eq]

end Key

end GuardedData
