import GuardedData.Heap.Basic
import GuardedData.Json.Basic

/-!
# Values and JSON documents

`Heap.ofJson` builds a value from a generic document. `Heap.toJson` is the way
back and loses what JSON has no form for: absence, functions and symbols
vanish from objects and are null elsewhere, dates and big integers become
strings, maps and sets are empty objects, and a number that is not finite is
null.
-/

namespace GuardedData

def Json.ofFloat (x : Float) : Json := if x.isFinite then .number (.float x) else .null

namespace Value

/-- The document of a value, given that of handles; `none` if it has no form. -/
def toJsonWith? (handles : Handle → Json) : Value → Option Json
  | .undefined => none
  | .function _ => none
  | .symbol _ => none
  | .null => some .null
  | .bool b => some (.bool b)
  | .number x => some (Json.ofFloat x)
  | .bigint n => some (.string (toString n))
  | .string s => some (.string s)
  | .date t => some (.string t.render)
  | .map _ => some (.object [])
  | .set _ => some (.object [])
  | .bytes content => some (.array (content.map fun b => .number (.int b.toNat)))
  | .typedArray content => some (.array (content.toFloats.map Json.ofFloat))
  | .object r => some (handles (.object r))
  | .array r => some (handles (.array r))

end Value

namespace Heap

/-- The document of a handle, given that of the values it holds. Fields without a form are
dropped, elements without one are null. -/
def handleToJson (h : Heap) (toJson? : Value → Option Json) : Handle → Json
  | .object r =>
    .object ((h.object r).toList.filterMap fun (k, v) => (toJson? v).map fun j => (k, j))
  | .array r => .array ((h.array r).map fun v => (toJson? v).getD .null)

/-- The document of a value that looks through at most so many handles. -/
def toJsonUpTo? (h : Heap) : Nat → Value → Option Json
  | 0 => Value.toJsonWith? fun _ => .null
  | n + 1 => Value.toJsonWith? (h.handleToJson (h.toJsonUpTo? n))

/-- The document of a value without cycles, if it has a form. -/
def toJson? (h : Heap) (v : Value) : Option Json := h.toJsonUpTo? h.depth v

def toJson (h : Heap) (v : Value) : Json := (h.toJson? v).getD .null

mutual

/-- Builds the value of a document. Every array and object of it becomes a new one. -/
def ofJson (h : Heap) : Json → Value × Heap
  | .null => (.null, h)
  | .bool b => (.bool b, h)
  | .number n => (.number n.toFloat, h)
  | .string s => (.string s, h)
  | .array items =>
    let (vs, h) := ofJsonItems h items
    h.allocArray vs
  | .object members =>
    let (ps, h) := ofJsonMembers h members
    h.allocFields ps

def ofJsonItems (h : Heap) : List Json → List Value × Heap
  | [] => ([], h)
  | j :: rest =>
    let (v, h) := ofJson h j
    let (vs, h) := ofJsonItems h rest
    (v :: vs, h)

def ofJsonMembers (h : Heap) : List (String × Json) → List (String × Value) × Heap
  | [] => ([], h)
  | (k, j) :: rest =>
    let (v, h) := ofJson h j
    let (vs, h) := ofJsonMembers h rest
    ((k, v) :: vs, h)

end

end Heap

end GuardedData
