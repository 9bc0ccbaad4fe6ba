import Std.Data.ExtTreeMap
import GuardedData.Value.Basic

/-!
# Heaps

A heap holds the contents of objects and arrays and the bodies of functions,
each under a serial number that is never used again. Every object and array
also lies at an address; an allocator may give the address of a cell that
nothing reaches any more to a new one. A cell that was never written reads as
empty.
-/

namespace GuardedData

/-- The fields of an object, sorted by name. -/
abbrev Properties := Std.ExtTreeMap String Value

/-- The shared part of all values. -/
structure Heap where
  objects : Std.ExtTreeMap Ref Properties
  arrays : Std.ExtTreeMap Ref (List Value)
  functions : Std.ExtTreeMap Ref (List Value → Value)
  addresses : Std.ExtTreeMap Ref Nat
  /-- The serial numbers from here on are free. -/
  next : Ref

namespace Heap

def empty : Heap := ⟨∅, ∅, ∅, ∅, 0⟩

def object (h : Heap) (r : Ref) : Properties := h.objects[r]?.getD ∅

def array (h : Heap) (r : Ref) : List Value := h.arrays[r]?.getD []

/-- Where a cell lies. -/
def address (h : Heap) (r : Ref) : Nat := h.addresses[r]?.getD r

def setObject (h : Heap) (r : Ref) (p : Properties) : Heap :=
  { h with objects := h.objects.insert r p }

def setArray (h : Heap) (r : Ref) (items : List Value) : Heap :=
  { h with arrays := h.arrays.insert r items }

/-- A new object at an address of the allocator's choice. -/
def allocObjectAt (h : Heap) (address : Nat) (p : Properties) : Value × Heap :=
  (.object h.next,
    { h with
      objects := h.objects.insert h.next p
      addresses := h.addresses.insert h.next address
      next := h.next + 1 })

def allocArrayAt (h : Heap) (address : Nat) (items : List Value) : Value × Heap :=
  (.array h.next,
    { h with
      arrays := h.arrays.insert h.next items
      addresses := h.addresses.insert h.next address
      next := h.next + 1 })

/-- A new object at an address that was never used. -/
def allocObject (h : Heap) (p : Properties) : Value × Heap := h.allocObjectAt h.next p

def allocArray (h : Heap) (items : List Value) : Value × Heap := h.allocArrayAt h.next items

/-- A new object of the pairs; the last entry of a repeated name wins. -/
def allocFields (h : Heap) (pairs : List (String × Value)) : Value × Heap :=
  h.allocObject (pairs.foldl (fun p kv => p.insert kv.1 kv.2) ∅)

def allocFunction (h : Heap) (name : String) (body : List Value → Value) : Value × Heap :=
  (.function ⟨name, h.next⟩,
    { h with functions := h.functions.insert h.next body, next := h.next + 1 })

def call (h : Heap) (f : Function) (args : List Value) : Value :=
  match h.functions[f.body]? with
  | some body => body args
  | none => .undefined

/-- The field of a value: absence where there is no such field, or no object. -/
def field (h : Heap) (v : Value) (key : String) : Value :=
  match v with
  | .object r => (h.object r)[key]?.getD .undefined
  | _ => .undefined

/-- The element of a value: absence past the end, and where there is no array. -/
def index (h : Heap) (v : Value) (i : Nat) : Value :=
  match v with
  | .array r => (h.array r)[i]?.getD .undefined
  | _ => .undefined

/-- How many fields or elements a handle has. -/
def length (h : Heap) : Handle → Nat
  | .object r => (h.object r).size
  | .array r => (h.array r).length

/-- The number of cells, and so a bound on how deep values without cycles nest. -/
def depth (h : Heap) : Nat := h.objects.size + h.arrays.size

/-! ## What an operation leaves behind -/

@[simp] theorem object_setObject_self (h : Heap) (r : Ref) (p : Properties) :
    (h.setObject r p).object r = p := by
  simp [object, setObject]

theorem object_setObject_ne (h : Heap) {r s : Ref} (e : r ≠ s) (p : Properties) :
    (h.setObject r p).object s = h.object s := by
  simp [object, setObject, Std.ExtTreeMap.getElem?_insert, e]

@[simp] theorem object_setArray (h : Heap) (r s : Ref) (items : List Value) :
    (h.setArray r items).object s = h.object s := rfl

@[simp] theorem array_setArray_self (h : Heap) (r : Ref) (items : List Value) :
    (h.setArray r items).array r = items := by
  simp [array, setArray]

theorem array_setArray_ne (h : Heap) {r s : Ref} (e : r ≠ s) (items : List Value) :
    (h.setArray r items).array s = h.array s := by
  simp [array, setArray, Std.ExtTreeMap.getElem?_insert, e]

@[simp] theorem array_setObject (h : Heap) (r s : Ref) (p : Properties) :
    (h.setObject r p).array s = h.array s := rfl

@[simp] theorem address_setObject (h : Heap) (r s : Ref) (p : Properties) :
    (h.setObject r p).address s = h.address s := rfl

@[simp] theorem address_setArray (h : Heap) (r s : Ref) (items : List Value) :
    (h.setArray r items).address s = h.address s := rfl

end Heap

end GuardedData
