import GuardedData.Proofs.Guard.Access
import GuardedData.Proofs.Guard.Keys

/-!
# The outcome of a write

`WriteRule s v key x` relates a write to what it may do, rule by rule: two ways
in which the key addresses nothing, a mismatch that is refused or ignored, and
a value that is stored. `Heap.Stores` is the frame of the last one: the slot
holds the value and everything else in the heap is as it was. A write obeys
exactly one rule, so that it is all or nothing.
-/

namespace GuardedData

namespace Heap

/-- From `h` to `h'` only the slot under `st` changes: it holds `x`. An array grows if the slot
is the one past its end. -/
structure Stores (h h' : Heap) (t : Handle) (st : PathStep) (x : Value) : Prop where
  slot : h'.child? t st = some x
  others : ∀ u st', ¬ (u = t ∧ st' = st) → h'.child? u st' = h.child? u st'
  length : ∀ r i, t = .array r → st = .index i → (h'.array r).length =
    (h.array r).length + if i = (h.array r).length then 1 else 0
  functions : h'.functions = h.functions
  addresses : h'.addresses = h.addresses
  next : h'.next = h.next

section
variable {h : Heap} {t : Handle} {key : Key} {st : PathStep} {x : Value}

/-- A key addresses a field of any name, or an index up to the length. -/
theorem writable_iff : h.Writable t key st ↔
    (∃ r, t = .object r ∧ st = .field key.toName) ∨
    ∃ r i, t = .array r ∧ key.Spells i ∧ i ≤ (h.array r).length ∧ st = .index i := by
  constructor
  · rintro ⟨hst, hle⟩
    cases t with
    | object r => exact .inl ⟨r, rfl, (Option.some.inj hst).symm⟩
    | array r =>
      simp only [Handle.step?, Option.map_eq_some_iff] at hst
      obtain ⟨i, hi, rfl⟩ := hst
      exact .inr ⟨r, i, rfl, Key.toIndex?_eq_some_iff.mp hi, hle r i rfl rfl, rfl⟩
  · rintro (⟨r, rfl, rfl⟩ | ⟨r, i, rfl, hi, hle, rfl⟩)
    · exact ⟨rfl, fun _ _ e => by cases e⟩
    · refine ⟨by simp [Handle.step?, Key.toIndex?_eq_some_iff.mpr hi], fun r' j er ej => ?_⟩
      cases er
      cases ej
      exact hle

theorem functions_setSlot (h : Heap) (t : Handle) (key : Key) (x : Value) :
    (h.setSlot t key x).functions = h.functions := by
  cases t with
  | object r => rfl
  | array r =>
    simp only [setSlot]
    split
    · split <;> rfl
    · rfl

theorem length_setSlot {r : Ref} {i : Nat} (hi : key.toIndex? = some i)
    (hle : i ≤ (h.array r).length) (x : Value) : ((h.setSlot (.array r) key x).array r).length =
      (h.array r).length + if i = (h.array r).length then 1 else 0 := by
  simp only [setSlot, hi]
  split
  · next hlt => simp [Nat.ne_of_lt hlt]
  · next hge =>
    have e : i = (h.array r).length := by omega
    simp [e]

theorem Writable.stores (hw : h.Writable t key st) (x : Value) :
    h.Stores (h.setSlot t key x) t st x where
  slot := by rw [child?_setSlot hw, if_pos ⟨rfl, rfl⟩]
  others u st' hne := by rw [child?_setSlot hw, if_neg hne]
  length r i et est := by
    subst et est
    obtain ⟨hst, hle⟩ := hw
    simp only [Handle.step?, Option.map_eq_some_iff, PathStep.index.injEq, exists_eq_right] at hst
    exact length_setSlot hst (hle r i rfl rfl) x
  functions := functions_setSlot h t key x
  addresses := (addresses_setSlot h t key x).2
  next := (addresses_setSlot h t key x).1

theorem Stores.slot_eq {h' : Heap} (hs : h.Stores h' t st x) (hst : t.step? key = some st) :
    h'.slot t key = x := by
  rw [Heap.slot_eq, hst, Option.bind_some, hs.slot, Option.getD_some]

end

end Heap

namespace Store

/-- What a write may do. -/
inductive WriteRule (s : Store) (v : View) (key : Key) (x : Value) :
    Step (Except GuardError WriteOutcome) → Prop where
  /-- The key of an array has no index form. -/
  | invalidKey {r : Ref} : v.target = .array r → (∀ i, ¬ key.Spells i) →
      WriteRule s v key x ⟨.error (.invalidKey key.render "array"), s, []⟩
  /-- The index lies beyond the slot past the end. -/
  | outOfBounds {r : Ref} {i : Nat} : v.target = .array r → key.Spells i →
      (s.heap.array r).length < i →
      WriteRule s v key x ⟨.error (.indexOutOfBounds i (s.heap.array r).length), s, []⟩
  | rejected {st : PathStep} {m : Mismatch} : s.heap.Writable v.target key st →
      check v.options.catalogue s.heap (v.schema.inner st) x = .error m →
      v.options.quiet = false →
      WriteRule s v key x ⟨.error (.rejected key.render m), s, [.writeRejected key.render m]⟩
  | ignored {st : PathStep} {m : Mismatch} : s.heap.Writable v.target key st →
      check v.options.catalogue s.heap (v.schema.inner st) x = .error m →
      v.options.quiet = true →
      WriteRule s v key x ⟨.ok .ignored, s, [.writeIgnored key.render m]⟩
  | committed {st : PathStep} {h' : Heap} : s.heap.Writable v.target key st →
      check v.options.catalogue s.heap (v.schema.inner st) x = .ok () →
      s.heap.Stores h' v.target st x → h'.slot v.target key = x →
      WriteRule s v key x ⟨.ok .committed, { s with heap := h' }, [.writeCommitted key.render]⟩

section
variable {s : Store} {v : View} {key : Key} {x : Value} {st : PathStep}

theorem checkWritable_of_writable {h : Heap} {t : Handle} (hw : h.Writable t key st) :
    checkWritable h t key = .ok () := by
  rcases Heap.writable_iff.mp hw with ⟨r, rfl, _⟩ | ⟨r, i, rfl, hi, hle, _⟩
  · rfl
  · have hlt : ¬ (h.array r).length < i := Nat.not_lt.mpr hle
    simp only [checkWritable, Key.toIndex?_eq_some_iff.mpr hi, if_neg hlt]

/-- Where a key addresses a slot, the check of the value decides. -/
theorem set_of_writable (hw : s.heap.Writable v.target key st) : s.set v key x =
    match check v.options.catalogue s.heap (v.schema.inner st) x with
    | .error m =>
      if v.options.quiet then ⟨.ok .ignored, s, [.writeIgnored key.render m]⟩
      else ⟨.error (.rejected key.render m), s, [.writeRejected key.render m]⟩
    | .ok () =>
      ⟨.ok .committed, { s with heap := s.heap.setSlot v.target key x },
        [.writeCommitted key.render]⟩ := by
  have hslot : v.slotSchema key = v.schema.inner st := View.slotSchema_eq hw.1
  cases hx : check v.options.catalogue s.heap (v.schema.inner st) x with
  | error m => simp only [set, checkWritable_of_writable hw, hslot, hx]
  | ok u => simp only [set, checkWritable_of_writable hw, hslot, hx]

theorem WriteRule.result_eq {step : Step (Except GuardError WriteOutcome)}
    (hr : WriteRule s v key x step) :
    (s.set v key x).result = step.result ∧ (s.set v key x).events = step.events := by
  cases hr with
  | invalidKey ht hi =>
    have hn := Key.toIndex?_eq_none_iff.mpr hi
    simp [set, checkWritable, ht, hn]
  | outOfBounds ht hi hlt =>
    have hi := Key.toIndex?_eq_some_iff.mpr hi
    simp [set, checkWritable, ht, hi, hlt]
  | rejected hw hc hq => simp [set_of_writable hw, hc, hq]
  | ignored hw hc hq => simp [set_of_writable hw, hc, hq]
  | committed hw hc _ _ => simp [set_of_writable hw, hc]

/-- A key that addresses no slot is refused by one of the first two rules. -/
theorem writable_or_rule (s : Store) (v : View) (key : Key) (x : Value) :
    (∃ st, s.heap.Writable v.target key st) ∨ WriteRule s v key x (s.set v key x) := by
  cases ht : v.target with
  | object r => exact .inl ⟨_, Heap.writable_iff.mpr (.inl ⟨r, rfl, rfl⟩)⟩
  | array r =>
    cases hi : key.toIndex? with
    | none =>
      right
      have e : s.set v key x = ⟨.error (.invalidKey key.render "array"), s, []⟩ := by
        simp [set, checkWritable, ht, hi]
      rw [e]
      exact .invalidKey ht (Key.toIndex?_eq_none_iff.mp hi)
    | some i =>
      have hs := Key.toIndex?_eq_some_iff.mp hi
      by_cases hlt : (s.heap.array r).length < i
      · right
        have e : s.set v key x =
            ⟨.error (.indexOutOfBounds i (s.heap.array r).length), s, []⟩ := by
          simp [set, checkWritable, ht, hi, hlt]
        rw [e]
        exact .outOfBounds ht hs hlt
      · exact .inl ⟨_, Heap.writable_iff.mpr
          (.inr ⟨r, i, rfl, hs, Nat.le_of_not_lt hlt, rfl⟩)⟩

/-- A write obeys one of the rules, and no two rules tell different results or events. -/
theorem set_rule (s : Store) (v : View) (key : Key) (x : Value) :
    WriteRule s v key x (s.set v key x) ∧ ∀ step, WriteRule s v key x step →
      step.result = (s.set v key x).result ∧ step.events = (s.set v key x).events := by
  refine ⟨?_, fun step hr => ⟨hr.result_eq.1.symm, hr.result_eq.2.symm⟩⟩
  rcases s.writable_or_rule v key x with ⟨st, hw⟩ | hr
  · rw [set_of_writable hw]
    cases hc : check v.options.catalogue s.heap (v.schema.inner st) x with
    | ok u =>
      have stores := hw.stores x
      exact .committed hw hc stores (stores.slot_eq hw.1)
    | error m =>
      cases hq : v.options.quiet with
      | true => exact .ignored hw hc hq
      | false => exact .rejected hw hc hq
  · exact hr

end

end Store

end GuardedData
