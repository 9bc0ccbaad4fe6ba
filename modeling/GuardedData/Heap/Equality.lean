import GuardedData.Heap.Basic

/-!
# Equality of values

Two values are equal when they have the same structure. Numbers are compared
as numbers, so that a NaN differs from itself; functions, and handles in the
first place, are compared by identity, so that a handle equals itself whatever
its contents are.
-/

namespace GuardedData

namespace Value

mutual

/-- Equality of values, given that of handles. -/
def eqWith (handles : Handle → Handle → Bool) : Value → Value → Bool
  | .undefined, .undefined => true
  | .null, .null => true
  | .bool a, .bool b => a == b
  | .number a, .number b => a == b
  | .bigint a, .bigint b => a == b
  | .string a, .string b => a == b
  | .symbol a, .symbol b => a == b
  | .date a, .date b => a == b
  | .function a, .function b => a.body == b.body
  | .map a, .map b => eqEntriesWith handles a b
  | .set a, .set b => eqItemsWith handles a b
  | .bytes a, .bytes b => a == b
  | .typedArray a, .typedArray b => a.beq b
  | .object a, .object b => handles (.object a) (.object b)
  | .array a, .array b => handles (.array a) (.array b)
  | _, _ => false

def eqItemsWith (handles : Handle → Handle → Bool) : List Value → List Value → Bool
  | [], [] => true
  | a :: as, b :: bs => eqWith handles a b && eqItemsWith handles as bs
  | _, _ => false

def eqEntriesWith (handles : Handle → Handle → Bool) :
    List (Value × Value) → List (Value × Value) → Bool
  | [], [] => true
  | (k, a) :: as, (l, b) :: bs =>
    eqWith handles k l && eqWith handles a b && eqEntriesWith handles as bs
  | _, _ => false

end

end Value

namespace Heap

/-- Same length, and related items in the same places. -/
def pairwise {α : Type} (eq : α → α → Bool) : List α → List α → Bool
  | [], [] => true
  | a :: as, b :: bs => eq a b && pairwise eq as bs
  | _, _ => false

/-- Equality of handles, given that of the values they hold. -/
def eqHandles (h : Heap) (eq : Value → Value → Bool) : Handle → Handle → Bool
  | .object a, .object b =>
    a == b ||
      pairwise (fun p q => p.1 == q.1 && eq p.2 q.2) (h.object a).toList (h.object b).toList
  | .array a, .array b => a == b || pairwise eq (h.array a) (h.array b)
  | _, _ => false

/-- Equality of values that looks through at most so many handles. -/
def eqUpTo (h : Heap) : Nat → Value → Value → Bool
  | 0 => Value.eqWith (· == ·)
  | n + 1 => Value.eqWith (h.eqHandles (h.eqUpTo n))

/-- Equality of values. Without cycles no path meets more handles than there are cells. -/
def eq (h : Heap) (a b : Value) : Bool := h.eqUpTo h.depth a b

end Heap

end GuardedData
