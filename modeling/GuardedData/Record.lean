import GuardedData.Guard.Access

/-!
# Records

A record is a guarded object made from defaults and data. `mergeDefaults` is
the union of their fields in which the data win; a factory merges, checks and
wraps. A lenient factory reports data that do not match and wraps them all the
same.
-/

namespace GuardedData

namespace Heap

/-- The fields of a value; only an object has any. -/
def fieldsOf (h : Heap) : Value → List (String × Value)
  | .object r => (h.object r).toList
  | _ => []

/-- A new object with the fields of both; where both have a field that of `data` counts. -/
def mergeDefaults (h : Heap) (defaults data : Value) : Value × Heap :=
  h.allocFields (h.fieldsOf defaults ++ h.fieldsOf data)

end Heap

structure RecordFactory where
  schema : Schema
  /-- Fields that are taken where the data have none. -/
  defaults : Value
  options : Options

inductive RecordError where
  /-- Defaults and data together do not match. -/
  | invalid (m : Mismatch)
  | guard (e : GuardError)
  deriving DecidableEq, Repr

def RecordError.message : RecordError → String
  | invalid m => m.message
  | guard e => e.message

namespace RecordFactory

/-- Merges the data over the defaults, checks the result, and wraps it. -/
def build (f : RecordFactory) (s : Store) (data : Value) : Step (Except RecordError ViewId) :=
  let (record, heap) := s.heap.mergeDefaults f.defaults data
  let s := { s with heap := heap }
  let wrapped (events : List Event) : Step (Except RecordError ViewId) :=
    let step := s.wrap f.schema record f.options
    ⟨step.result.mapError .guard, step.store, events ++ step.events⟩
  match check f.options.catalogue heap f.schema record with
  | .ok () => wrapped []
  | .error m =>
    if f.options.quiet then wrapped [.recordInvalid m] else ⟨.error (.invalid m), s, []⟩

end RecordFactory

end GuardedData
