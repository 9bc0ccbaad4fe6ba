import GuardedData.Decimal.Digits
import GuardedData.Heap.Basic

/-!
# Keys and slots

A key addresses a slot of an object or an array. Each key has a name form, and
an index form if the name is a canonical decimal index: objects are addressed
by the first, arrays by the second.
-/

namespace GuardedData

/-- The address of a field or an element. -/
inductive Key where
  | name (s : String)
  | index (i : UInt64)
  deriving DecidableEq, Repr

/-- The index that a name spells: decimal digits without a sign or a leading zero, below
`2 ^ 64`. -/
def canonicalIndex? (s : String) : Option Nat :=
  if 20 < s.length then none
  else
    let n := numberOfDigits s.toList
    if toString n = s ∧ n < Nat.pow 2 64 then some n else none

namespace Key

def toName : Key → String
  | name s => s
  | index i => toString i.toNat

def toIndex? : Key → Option Nat
  | name s => canonicalIndex? s
  | index i => some i.toNat

def render : Key → String
  | name s => s
  | index i => "[" ++ toString i.toNat ++ "]"

end Key

namespace Heap

/-- The value in a slot; absence where there is none. -/
def slot (h : Heap) (target : Handle) (key : Key) : Value :=
  match target with
  | .object r => h.field (.object r) key.toName
  | .array r =>
    match key.toIndex? with
    | some i => h.index (.array r) i
    | none => .undefined

/-- Stores a value in a slot. The slot just past the end of an array is new; a key that
addresses nothing changes nothing. -/
def setSlot (h : Heap) (target : Handle) (key : Key) (v : Value) : Heap :=
  match target with
  | .object r => h.setObject r ((h.object r).insert key.toName v)
  | .array r =>
    match key.toIndex? with
    | some i =>
      if i < (h.array r).length then h.setArray r ((h.array r).set i v)
      else h.setArray r (h.array r ++ [v])
    | none => h

/-- The keys of the slots that hold something. -/
def slotKeys (h : Heap) : Handle → List Key
  | .object r => (h.object r).keys.map .name
  | .array r => (List.range (h.array r).length).map fun i => .index (UInt64.ofNat i)

end Heap

end GuardedData
