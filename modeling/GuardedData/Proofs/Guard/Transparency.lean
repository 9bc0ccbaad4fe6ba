import GuardedData.Proofs.Guard.Keys
import GuardedData.Proofs.Guard.Program

/-!
# Reading through views

`h.readKeys x keys` reads a chain of keys from the raw data, without any view.
`P.ReadsKeys r keys f P'` says that a program reads the same chain from the view
`r`, by a read of a view at each step and with views dropped in between, and
ends up with `f`. What it ends up with always stands for the raw value
(`Field.Stands`), whatever became of the data and the views before
(`ReadsKeys.stands`).
-/

namespace GuardedData

namespace Heap

/-- The raw value under a key: the element under its index form, or the field under its name
form; absence where there is none. -/
def readKey (h : Heap) (x : Value) (key : Key) : Value :=
  match x with
  | .array _ => (key.toIndex?.map (h.index x)).getD .undefined
  | _ => h.field x key.toName

/-- The raw value at the end of a chain of keys. -/
def readKeys (h : Heap) (x : Value) (keys : List Key) : Value := keys.foldl h.readKey x

section
variable {h : Heap} {x : Value} {r : Ref} {key : Key} {keys : List Key}

@[simp] theorem readKeys_nil (h : Heap) (x : Value) : h.readKeys x [] = x := rfl

theorem readKeys_snoc (h : Heap) (x : Value) (keys : List Key) (key : Key) :
    h.readKeys x (keys ++ [key]) = h.readKey (h.readKeys x keys) key := by
  simp [readKeys]

theorem readKey_object (h : Heap) (r : Ref) (key : Key) :
    h.readKey (.object r) key = (h.object r)[key.toName]?.getD .undefined := rfl

/-- Only the numeral of an index, in either form of the key, addresses an element. -/
theorem readKey_array_of_spells {i : Nat} (hk : key.Spells i) :
    h.readKey (.array r) key = (h.array r)[i]?.getD .undefined := by
  simp only [readKey, Key.toIndex?_eq_some_iff.mpr hk, Option.map_some, Option.getD_some, index]

theorem readKey_array_of_not_spells (hk : ∀ i, ¬ key.Spells i) :
    h.readKey (.array r) key = .undefined := by
  simp only [readKey, Key.toIndex?_eq_none_iff.mpr hk, Option.map_none, Option.getD_none]

theorem readKey_of_scalar (hx : x.handle? = none) : h.readKey x key = .undefined := by
  cases x <;> first | rfl | cases hx

theorem slot_eq_readKey (h : Heap) (t : Handle) (key : Key) :
    h.slot t key = h.readKey t.toValue key := by
  cases t with
  | object r => rfl
  | array r =>
    simp only [slot, Handle.toValue, readKey]
    cases key.toIndex? <;> rfl

end

end Heap

/-- What a read gave stands for a raw value: a live view of the very handle, if it is an object
or an array, and otherwise the value itself. -/
def Field.Stands (s : Store) (x : Value) : Field → Prop
  | .view id => x.isComposite = true ∧ ∃ w, s.view? id = some w ∧ w.target.toValue.same x = true
  | .value y => x.isComposite = false ∧ y = x

theorem Handle.same_toValue_iff {t : Handle} {x : Value} :
    t.toValue.same x = true ↔ x = t.toValue := by
  cases t <;> cases x <;> simp [Handle.toValue, Value.same, eq_comm]

theorem Field.stands_view_iff {s : Store} {x : Value} {id : ViewId} :
    (Field.view id).Stands s x ↔ ∃ w, s.view? id = some w ∧ x = w.target.toValue := by
  constructor
  · rintro ⟨_, w, hw, hx⟩
    exact ⟨w, hw, Handle.same_toValue_iff.mp hx⟩
  · rintro ⟨w, hw, rfl⟩
    refine ⟨?_, w, hw, Handle.same_toValue_iff.mpr rfl⟩
    simp [Value.isComposite]

/-- A read gives what stands for the slot. -/
theorem Store.stands_get {s : Store} (hs : s.Numbered) (v : View) (key : Key) :
    (s.get v key).result.Stands (s.get v key).store (s.heap.slot v.target key) := by
  cases hr : (s.get v key).result with
  | view id =>
    obtain ⟨w, st, hw, _, hst, hc, _⟩ := Store.view?_of_get hs hr
    have hslot : s.heap.slot v.target key = w.target.toValue := by
      rw [Heap.slot_eq, hst, Option.bind_some, hc, Option.getD_some]
    exact Field.stands_view_iff.mpr ⟨w, hw, hslot⟩
  | value x =>
    rcases s.get_cases v key with ⟨hn, hg⟩ | ⟨_, _, _, _, hg⟩ | ⟨_, _, _, hg⟩ <;> rw [hg] at hr
    · obtain rfl := Field.value.inj hr
      exact ⟨by rw [Value.isComposite, hn, Option.isSome_none], rfl⟩
    · cases hr
    · cases hr

namespace Program

/-- The program reads the chain of keys from the view `r` and ends up with a field: at a view by
a read of that view, at a raw value by a raw read. Between the reads it may drop views, but
not the one that it reads next. -/
inductive ReadsKeys (P : Program) (r : ViewId) : List Key → Field → Program → Prop where
  | start : ReadsKeys P r [] (.view r) P
  | view {keys : List Key} {id : ViewId} {v : View} {P' : Program} (key : Key) :
      ReadsKeys P r keys (.view id) P' → P'.store.view? id = some v →
      ReadsKeys P r (keys ++ [key]) (P'.store.get v key).result (P'.act (.get id key))
  | value {keys : List Key} {x : Value} {P' : Program} (key : Key) :
      ReadsKeys P r keys (.value x) P' →
      ReadsKeys P r (keys ++ [key]) (.value (P'.store.heap.readKey x key)) P'
  | drop {keys : List Key} {f : Field} {P' : Program} (i : ViewId) :
      ReadsKeys P r keys f P' →
      (∀ id, f = .view id → (P'.act (.release i)).store.isAlive id = true) →
      ReadsKeys P r keys f (P'.act (.release i))

section
variable {h : Heap} {P P' : Program} {r : ViewId} {v : View} {keys : List Key} {f : Field}

theorem ReadsKeys.reached (run : P.ReadsKeys r keys f P') (hP : Reached h P) :
    Reached h P' := by
  induction run with
  | start => exact hP
  | view key _ _ ih => exact .act _ ih trivial
  | value key _ ih => exact ih
  | drop i _ _ ih => exact .act _ ih trivial

/-- A view that is dropped elsewhere, and still alive, stands for the same value. -/
theorem stands_release {s : Store} {x : Value} {i : ViewId} (hf : f.Stands s x)
    (alive : ∀ id, f = .view id → (s.release i).isAlive id = true) :
    f.Stands (s.release i) x := by
  cases f with
  | value y => exact hf
  | view id =>
    obtain ⟨w, hw, rfl⟩ := Field.stands_view_iff.mp hf
    have hid := alive id rfl
    rw [Store.isAlive_eq, Option.isSome_iff_exists] at hid
    obtain ⟨w', hw'⟩ := hid
    obtain ⟨u, hu, same⟩ := Store.same_of_view?_release hw'
    obtain rfl : w = u := Option.some.inj (hw.symm.trans hu)
    exact Field.stands_view_iff.mpr ⟨w', hw', by rw [same.target]⟩

/-- Reading a chain changes no data, and ends with what stands for the raw value. -/
theorem ReadsKeys.stands (run : P.ReadsKeys r keys f P') (hP : Reached h P)
    (hv : P.store.view? r = some v) : P'.store.heap = P.store.heap ∧
      f.Stands P'.store (P.store.heap.readKeys v.target.toValue keys) := by
  induction run with
  | start => exact ⟨rfl, Field.stands_view_iff.mpr ⟨v, hv, rfl⟩⟩
  | @view keys id u P' key run hu ih =>
    obtain ⟨hheap, hstands⟩ := ih
    obtain ⟨w, hw, hx⟩ := Field.stands_view_iff.mp hstands
    obtain rfl : u = w := Option.some.inj (hu.symm.trans hw)
    have got := Store.stands_get (run.reached hP).numbered.store u key
    rw [Heap.slot_eq_readKey, ← hx, hheap] at got
    rw [store_act_get hu, Heap.readKeys_snoc]
    exact ⟨(Store.heap_get _ _ _).trans hheap, got⟩
  | value key _ ih =>
    obtain ⟨hheap, hscalar, rfl⟩ := ih
    have hx := Option.isSome_eq_false_iff.mp hscalar
    have hread : P.store.heap.readKey _ key = .undefined :=
      Heap.readKey_of_scalar (Option.isNone_iff_eq_none.mp hx)
    refine ⟨hheap, ?_⟩
    rw [hheap, Heap.readKeys_snoc, hread]
    exact ⟨rfl, rfl⟩
  | drop i _ alive ih =>
    exact ⟨(Store.heap_release _ i).trans ih.1, stands_release ih.2 alive⟩

theorem ReadsKeys.next (run : P.ReadsKeys r keys f P') (hP : Reached h P)
    (hv : P.store.view? r = some v) (key : Key) :
    ∃ f' P'', P.ReadsKeys r (keys ++ [key]) f' P'' := by
  cases f with
  | view id =>
    obtain ⟨w, hw, _⟩ := Field.stands_view_iff.mp (run.stands hP hv).2
    exact ⟨_, _, .view key run hw⟩
  | value x => exact ⟨_, _, .value key run⟩

theorem ReadsKeys.onward (run : P.ReadsKeys r keys f P') (hP : Reached h P)
    (hv : P.store.view? r = some v) (more : List Key) :
    ∃ f' P'', P.ReadsKeys r (keys ++ more) f' P'' := by
  induction more generalizing keys f P' with
  | nil => exact ⟨f, P', by rwa [List.append_nil]⟩
  | cons key more ih =>
    obtain ⟨f₁, P₁, run₁⟩ := run.next hP hv key
    rw [List.append_cons]
    exact ih run₁

/-- From a live view every chain of keys can be read, step by step; no read of it changes the
data; and what it gives stands for what the raw data hold under the chain. -/
theorem readsKeys_transparent (hP : Reached h P) (hv : P.store.view? r = some v) :
    (∀ keys, ∃ f P', P.ReadsKeys r keys f P') ∧
    ∀ keys f P', P.ReadsKeys r keys f P' →
      (∀ key, ∃ f' P'', P.ReadsKeys r (keys ++ [key]) f' P'') ∧
      P'.store.heap = P.store.heap ∧
      f.Stands P'.store (P.store.heap.readKeys v.target.toValue keys) :=
  ⟨ReadsKeys.start.onward hP hv,
    fun _ _ _ run => ⟨run.next hP hv, run.stands hP hv⟩⟩

/-- A table whose first row was read, and replaced behind the back of the session. -/
def rowSwapped : Program :=
  (initial .empty).after [.newArray 0 [.bool true], .newArray 1 [.array 0],
    .wrap (.array (.array .any)) (.array 1) ⟨false, .empty⟩, .get 0 (.index 0),
    .newArray 2 [.null], .putArray 1 [.array 2]]

/-- The view of the old row is alive, and yet reads reach the new one. -/
theorem readsKeys_transparent_rowSwapped :
    rowSwapped.store.view? 1 = some ⟨.array 0, .array .any, 0, ⟨false, .empty⟩, 1⟩ ∧
    ∃ P', rowSwapped.ReadsKeys 0 [.index 0, .name "0"] (.value .null) P' := by
  have hP : Reached .empty rowSwapped := reached_after .start _
  have root : rowSwapped.store.view? 0 =
      some ⟨.array 1, .array (.array .any), 0, ⟨false, .empty⟩, 1⟩ := rfl
  have spelled : (Key.name "0").Spells 0 := ⟨by decide, rfl⟩
  have raw : rowSwapped.store.heap.readKeys (.array 1) [.index 0, .name "0"] = .null := by
    calc rowSwapped.store.heap.readKeys (.array 1) [.index 0, .name "0"]
      _ = rowSwapped.store.heap.readKey (.array 2) (.name "0") := rfl
      _ = .null := Heap.readKey_array_of_spells spelled
  obtain ⟨all, stands⟩ := readsKeys_transparent hP root
  obtain ⟨f, P', run⟩ := all [.index 0, .name "0"]
  have hf := (stands _ _ _ run).2.2
  rw [show (Handle.array 1).toValue = .array 1 from rfl, raw] at hf
  cases f with
  | view id => cases hf.1
  | value y =>
    obtain rfl : y = .null := hf.2
    exact ⟨rfl, P', run⟩

end

end Program

end GuardedData
