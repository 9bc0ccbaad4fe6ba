import GuardedData.Proofs.Guard.Modes
import GuardedData.Proofs.Record.Building
import GuardedData.Proofs.Record.Merging

/-!
# The outcome of building a record

Whether a record is made depends on the check of the merged object alone, and in
the lenient mode not even on that. A record that is made is the merged object
itself. That object is new, so neither the building nor any write through the
root view of the record reaches the defaults or the data.
-/

namespace GuardedData

namespace RecordFactory

section
variable {f : RecordFactory} {s : Store} {data : Value} {id : ViewId} {t : Handle}

/-- A strict factory makes a record just of what matches, and refuses what does not by the mismatch
that the check finds. -/
theorem result_of_strict (hq : f.options.quiet = false) :
    ((∃ id, (f.build s data).result = .ok id) ↔ f.verdict s data = .ok ()) ∧
      ∀ m, f.verdict s data = .error m → (f.build s data).result = .error (.invalid m) := by
  rcases f.build_cases s data with ⟨m, hm, -, e⟩ | ⟨hok | hq', e⟩
  · rw [e, hm]
    refine ⟨⟨nofun, nofun⟩, ?_⟩
    rintro m' ⟨⟩
    rfl
  · rw [e, hok]
    exact ⟨⟨fun _ => rfl, fun _ => ⟨s.nextView, rfl⟩⟩, nofun⟩
  · rw [hq] at hq'
    cases hq'

theorem result_of_lenient (hq : f.options.quiet = true) :
    (f.build s data).result = .ok s.nextView := by
  rcases f.build_cases s data with ⟨-, -, hq', -⟩ | ⟨-, e⟩
  · rw [hq] at hq'
    cases hq'
  · rw [e]

/-- The merged object can always be wrapped. -/
theorem result_ne_guard (f : RecordFactory) (s : Store) (data : Value) (e : GuardError) :
    (f.build s data).result ≠ .error (.guard e) := by
  rcases f.build_cases s data with ⟨m, -, -, hb⟩ | ⟨-, hb⟩
  · rw [hb]
    nofun
  · rw [hb]
    nofun

/-- The root view of a record stands for the merged object for as long as it lives. -/
theorem target_after (acts : List Act) {w : View} (e : (f.build s data).result = .ok id)
    (hw : ((f.build s data).store.after acts).view? id = some w) :
    w.target = .object s.heap.next := by
  obtain ⟨rfl, hs⟩ := opened_of_result e
  rw [hs] at hw
  have hlt : s.nextView < (f.opened s data).nextView := Nat.lt_succ_self s.nextView
  obtain ⟨v, hv, hvw⟩ := Store.same_of_after acts hlt hw
  obtain rfl := Option.some.inj ((f.view?_opened s data).symm.trans hv)
  exact hvw.target

/-- Building a record. A strict factory makes one just if the merged object matches, and refuses by
the mismatch of the check; a lenient one always makes one; and the guard never fails. The record is
the merged object itself, which is new, under the schema and with the options of the factory.
Neither the building nor any later write through the root view, whatever the program did meanwhile,
changes the defaults or the data. -/
theorem build_outcome (hdefaults : s.heap.Knows f.defaults) (hdata : s.heap.Knows data) :
    let merged := s.heap.mergeDefaults f.defaults data
    let verdict := check f.options.catalogue merged.2 f.schema merged.1
    let built := f.build s data
    (f.options.quiet = false → ((∃ id, built.result = .ok id) ↔ verdict = .ok ()) ∧
      ∀ m, verdict = .error m → built.result = .error (.invalid m)) ∧
    (f.options.quiet = true → ∃ id, built.result = .ok id) ∧
    (∀ e, built.result ≠ .error (.guard e)) ∧
    (∀ t, f.defaults = t.toValue ∨ data = t.toValue → s.heap.SameCell built.store.heap t) ∧
    ∀ id, built.result = .ok id →
      (∃ v, built.store.view? id = some v ∧ v.schema = f.schema ∧ v.options = f.options ∧
        v.target.toValue = merged.1 ∧ built.store.heap = merged.2 ∧
        v.target.toValue.same f.defaults = false ∧ v.target.toValue.same data = false ∧
        ∀ k, built.store.heap.own? v.target.toValue k =
          (s.heap.own? data k).or (s.heap.own? f.defaults k)) ∧
      ∀ (acts : List Act) (w : View), (built.store.after acts).view? id = some w →
        ∀ key x t, f.defaults = t.toValue ∨ data = t.toValue →
          (built.store.after acts).heap.SameCell ((built.store.after acts).set w key x).store.heap
            t := by
  intro merged verdict built
  have hmerge : s.heap.Merges f.defaults data merged.1 merged.2 := Heap.merges_mergeDefaults _ _ _
  have known : ∀ t : Handle, f.defaults = t.toValue ∨ data = t.toValue → t.ref < s.heap.next := by
    rintro t (e | e)
    · exact hdefaults t (e ▸ t.handle?_toValue)
    · exact hdata t (e ▸ t.handle?_toValue)
  have hheap : built.store.heap = merged.2 := f.heap_build s data
  refine ⟨result_of_strict, fun hq => ⟨_, result_of_lenient hq⟩, f.result_ne_guard s data,
    fun t ht => hheap ▸ hmerge.grows.cells t (known t ht), fun id e => ⟨?_, ?_⟩⟩
  · obtain ⟨rfl, hs⟩ := opened_of_result e
    have hview := (congrArg (Store.view? · s.nextView) hs).trans (f.view?_opened s data)
    refine ⟨_, hview, rfl, rfl, rfl, hheap, hmerge.same_eq_false hdefaults,
      hmerge.same_eq_false hdata, fun k => ?_⟩
    rw [hheap]
    exact hmerge.own k
  · intro acts w hw key x t ht
    refine Store.sameCell_set _ key x fun htarget => ?_
    rw [target_after acts e hw] at htarget
    rw [← htarget] at ht
    exact Nat.lt_irrefl _ (known (.object s.heap.next) ht)

end

/-- Makes sockets, which have a port, with defaults. -/
def sockets (options : Options) : RecordFactory :=
  ⟨.object [("port", .tag "number")], .object 1, options⟩

/-- Data that take the port away are refused by a strict factory. A lenient one makes a record of
them, and a write to it does not reach them. -/
theorem build_outcome_noPort :
    let s := Store.ofHeap Heap.socketHeap
    ((sockets (.strict .builtin)).build s (.object 2)).result =
      .error (.invalid ⟨.kind, "number", "undefined", [.field "port"]⟩) ∧
    let built := (sockets (.lenient .builtin)).build s (.object 2)
    ∃ v, built.result = .ok 0 ∧ built.store.view? 0 = some v ∧
      built.store.heap.own? v.target.toValue "port" = some .undefined ∧
      (built.store.set v (.name "port") (.number 81)).result = .ok .committed ∧
      ∀ t, t = .object 1 ∨ t = .object 2 → built.store.heap.SameCell
        (built.store.set v (.name "port") (.number 81)).store.heap t := by
  intro s
  have known (r : Ref) (hr : r < 3) : s.heap.Knows (.object r) :=
    (Heap.knows_toValue (t := .object r)).mpr hr
  have h1 := known 1 (by decide)
  have h2 := known 2 (by decide)
  obtain ⟨hstrict, -⟩ := build_outcome (f := sockets (.strict .builtin)) h1 h2
  refine ⟨(hstrict rfl).2 _ rfl, ?_⟩
  intro built
  obtain ⟨-, -, -, -, hmade⟩ := build_outcome (f := sockets (.lenient .builtin)) h1 h2
  obtain ⟨⟨v, hv, -, -, htarget, -, -, -, hown⟩, hwrites⟩ := hmade 0 rfl
  refine ⟨v, rfl, hv, (hown "port").trans rfl, ?_, fun t ht => hwrites [] v hv _ _ t ?_⟩
  · obtain rfl := Option.some.inj hv
    rfl
  · rcases ht with rfl | rfl
    · exact .inl rfl
    · exact .inr rfl

end RecordFactory

end GuardedData
