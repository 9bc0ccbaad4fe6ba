import Mathlib.Algebra.Group.Int.Defs
import GuardedData.Json.Basic
import GuardedData.Proofs.Decimal.Binary64
import GuardedData.Proofs.Keyed

/-!
# Generic documents

In a `Generic` document no object repeats a name, and every number is an integer
of 64 bits or a finite binary64 number. `normalize` makes binary64 numbers of all
numbers and sorts the members of every object by name.
-/

namespace GuardedData

/-- An integer of 64 bits, with a sign or without one, or a finite binary64 number. -/
def Number.Generic : Number → Prop
  | .int n => -2 ^ 63 ≤ n ∧ n < 2 ^ 64
  | .float x => x.isFinite = true

theorem Number.toFloat_natCast (n : Nat) : (Number.int n).toFloat = Float.ofNat n := by
  rw [toFloat, if_neg (Int.not_lt.mpr (Int.natCast_nonneg n)), Int.natAbs_natCast]

theorem Number.Generic.isFinite {n : Number} (hn : n.Generic) : n.toFloat.isFinite = true := by
  cases n with
  | float x => exact hn
  | int n =>
    have hle : n.natAbs < 2 ^ 64 := by
      obtain ⟨hlo, hhi⟩ := hn
      omega
    have hx := (Binary64.small_ofNat hle).isFinite
    rw [toFloat]
    split
    · exact Binary64.isFinite_neg hx
    · exact hx

namespace Json

/-- No object repeats a name, and every number is one of 64 bits. -/
inductive Generic : Json → Prop where
  | null : Generic .null
  | bool (b : Bool) : Generic (.bool b)
  | number {n : Number} : n.Generic → Generic (.number n)
  | string (s : String) : Generic (.string s)
  | array {items : List Json} : (∀ j ∈ items, Generic j) → Generic (.array items)
  | object {members : Keyed Json} : Keyed.Distinct members →
      (∀ k j, (k, j) ∈ members → Generic j) → Generic (.object members)

mutual

/-- The document with binary64 numbers only, and with the members of objects sorted by name. -/
def normalize : Json → Json
  | .number n => .number (.float n.toFloat)
  | .array items => .array (normalizeItems items)
  | .object members => .object ((normalizeMembers members).mergeSort fun p q => p.1 ≤ q.1)
  | .null => .null
  | .bool b => .bool b
  | .string s => .string s

def normalizeItems : List Json → List Json
  | [] => []
  | j :: rest => normalize j :: normalizeItems rest

def normalizeMembers : List (String × Json) → List (String × Json)
  | [] => []
  | (k, j) :: rest => (k, normalize j) :: normalizeMembers rest

end

theorem normalizeItems_eq (items : List Json) : normalizeItems items = items.map normalize := by
  induction items with
  | nil => rfl
  | cons j rest ih => rw [normalizeItems, ih, List.map_cons]

theorem normalizeMembers_eq (members : List (String × Json)) :
    normalizeMembers members = members.map fun p => (p.1, normalize p.2) := by
  induction members with
  | nil => rfl
  | cons p rest ih => rw [normalizeMembers, ih, List.map_cons]

end Json

end GuardedData
