import GuardedData.Proofs.Guard.Program
import GuardedData.Proofs.Heap.Properties
import GuardedData.Record

/-!
# Building a record

All that building a record does is in `build_cases`: the fields of the defaults
and of the data are merged into a new object (`merge`), which is checked
(`verdict`), and then refused or wrapped in a new session (`opened`).
-/

namespace GuardedData

namespace Heap

def mergedFields (h : Heap) (defaults data : Value) : Properties :=
  (h.fieldsOf defaults ++ h.fieldsOf data).foldl (fun p kv => p.insert kv.1 kv.2) ∅

theorem mem_of_mergedFields {h : Heap} {defaults data x : Value} {k : String}
    (e : (h.mergedFields defaults data)[k]? = some x) :
    (k, x) ∈ h.fieldsOf defaults ∨ (k, x) ∈ h.fieldsOf data := by
  have hm : (k, x) ∈ (h.fieldsOf defaults ++ h.fieldsOf data).reverse :=
    Keyed.mem_of_get? ((Properties.getElem?_ofPairs _ k).symm.trans e)
  exact List.mem_append.mp (List.mem_reverse.mp hm)

end Heap

namespace RecordFactory

def merge (f : RecordFactory) (s : Store) (data : Value) : Store :=
  s.act (.newObject s.heap.next (s.heap.mergedFields f.defaults data))

def verdict (f : RecordFactory) (s : Store) (data : Value) : Except Mismatch Unit :=
  check f.options.catalogue (f.merge s data).heap f.schema (.object s.heap.next)

/-- What is reported of a merged object that does not match. -/
def reports (f : RecordFactory) (s : Store) (data : Value) : List Event :=
  match f.verdict s data with
  | .ok () => []
  | .error m => [.recordInvalid m]

/-- The store with a root view of the merged object in a new session. -/
def opened (f : RecordFactory) (s : Store) (data : Value) : Store :=
  ({ f.merge s data with nextSession := s.nextSession + 1 }.addRoot
    ⟨.object s.heap.next, f.schema, s.nextSession, f.options, 1⟩).2

/-- A strict factory refuses what does not match; else the merged object is wrapped. -/
theorem build_cases (f : RecordFactory) (s : Store) (data : Value) :
    (∃ m, f.verdict s data = .error m ∧ f.options.quiet = false ∧
      f.build s data = ⟨.error (.invalid m), f.merge s data, []⟩) ∨
    ((f.verdict s data = .ok () ∨ f.options.quiet = true) ∧
      f.build s data = ⟨.ok s.nextView, f.opened s data,
        f.reports s data ++ [.wrapped "object" f.schema.describe f.options.quiet]⟩) := by
  have hmerge : s.heap.mergeDefaults f.defaults data =
      (.object s.heap.next, (f.merge s data).heap) := rfl
  unfold build
  rw [hmerge, reports, verdict]
  dsimp only
  cases hc : check f.options.catalogue (f.merge s data).heap f.schema (.object s.heap.next) with
  | ok u => exact .inr ⟨.inl rfl, rfl⟩
  | error m =>
    dsimp only
    by_cases hq : f.options.quiet = true
    · rw [if_pos hq]
      exact .inr ⟨.inr hq, rfl⟩
    · rw [if_neg hq]
      exact .inl ⟨m, rfl, by simpa using hq, rfl⟩

@[simp] theorem heap_opened (f : RecordFactory) (s : Store) (data : Value) :
    (f.opened s data).heap = (f.merge s data).heap := rfl

theorem view?_opened (f : RecordFactory) (s : Store) (data : Value) :
    (f.opened s data).view? s.nextView =
      some ⟨.object s.heap.next, f.schema, s.nextSession, f.options, 1⟩ := by
  have hv := Store.view?_addRoot { f.merge s data with nextSession := s.nextSession + 1 }
    ⟨.object s.heap.next, f.schema, s.nextSession, f.options, 1⟩ s.nextView
  exact hv.trans (if_pos rfl)

/-- Building leaves the heap with the merged object, whatever becomes of it. -/
theorem heap_build (f : RecordFactory) (s : Store) (data : Value) :
    (f.build s data).store.heap = (f.merge s data).heap := by
  rcases f.build_cases s data with ⟨m, -, -, e⟩ | ⟨-, e⟩
  · rw [e]
  · rw [e, heap_opened]

theorem opened_eq_act (f : RecordFactory) (s : Store) (data : Value) :
    f.opened s data = (f.merge s data).act
      (.wrap f.schema (Handle.object s.heap.next).toValue f.options) := rfl

theorem opened_of_result {f : RecordFactory} {s : Store} {data : Value} {id : ViewId}
    (e : (f.build s data).result = .ok id) :
    id = s.nextView ∧ (f.build s data).store = f.opened s data := by
  rcases f.build_cases s data with ⟨m, -, -, hb⟩ | ⟨-, hb⟩
  · rw [hb] at e
    cases e
  · rw [hb] at e ⊢
    exact ⟨(Except.ok.inj e).symm, rfl⟩

/-- Building merges, and perhaps wraps what it merged. -/
theorem store_build (f : RecordFactory) (s : Store) (data : Value) :
    (f.build s data).store = f.merge s data ∨ (f.build s data).store = f.opened s data := by
  rcases f.build_cases s data with ⟨m, -, -, e⟩ | ⟨-, e⟩
  · exact .inl (by rw [e])
  · exact .inr (by rw [e])

end RecordFactory

end GuardedData
