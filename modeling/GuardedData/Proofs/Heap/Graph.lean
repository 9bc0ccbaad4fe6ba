import GuardedData.Guard.Key
import GuardedData.Mismatch

/-!
# The graph of a value

`child? h t st` is what a handle holds under one step, `follow h v p` is the
value at the end of a path, and `Reaches h v t` says that an object or array is
in the graph of a value. Only the slots of objects and arrays count: no check
and no view looks into what maps and sets hold. `SameCell` is agreement of two
heaps on one cell; what a value reaches depends on the cells that it reaches
only (`reaches_congr`).
-/

namespace GuardedData

/-- The step to the slot that a key addresses. -/
def Handle.step? (t : Handle) (key : Key) : Option PathStep :=
  match t with
  | .object _ => some (.field key.toName)
  | .array _ => key.toIndex?.map .index

theorem Handle.toValue_inj {t u : Handle} : t.toValue = u.toValue ↔ t = u := by
  cases t <;> cases u <;> simp [Handle.toValue]

attribute [simp] Handle.handle?_toValue

@[simp] theorem Handle.isUndefined_toValue (t : Handle) : t.toValue.isUndefined = false := by
  cases t <;> rfl

@[simp] theorem Handle.isNull_toValue (t : Handle) : t.toValue.isNull = false := by
  cases t <;> rfl

namespace Heap

/-- What an object or an array holds under one step. -/
def child? (h : Heap) : Handle → PathStep → Option Value
  | .object r, .field k => (h.object r)[k]?
  | .array r, .index i => (h.array r)[i]?
  | _, _ => none

/-- The value at the end of a path. -/
def follow (h : Heap) : Value → Path → Option Value
  | v, [] => some v
  | v, st :: p => (v.handle?.bind fun t => h.child? t st).bind fun w => h.follow w p

/-- The object or array is in the graph of the value. -/
def Reaches (h : Heap) (v : Value) (t : Handle) : Prop := ∃ p, h.follow v p = some t.toValue

/-- The other heap holds the same in the cell. -/
def SameCell (h h' : Heap) : Handle → Prop
  | .object r => h'.object r = h.object r
  | .array r => h'.array r = h.array r

section
variable {h h' : Heap} {t u : Handle} {v w : Value} {st : PathStep} {p q : Path}

/-! ## Paths -/

theorem follow_cons (h : Heap) (t : Handle) (st : PathStep) (p : Path) :
    h.follow t.toValue (st :: p) = (h.child? t st).bind fun w => h.follow w p := by
  simp [follow]

theorem follow_append (h : Heap) (v : Value) (p q : Path) :
    h.follow v (p ++ q) = (h.follow v p).bind fun w => h.follow w q := by
  induction p generalizing v with
  | nil => rfl
  | cons st p ih =>
    simp only [List.cons_append, follow]
    cases hc : v.handle?.bind fun t => h.child? t st with
    | none => rfl
    | some w => simp [ih]

theorem follow_cons_inv (e : h.follow v (st :: p) = some w) :
    ∃ t x, v = t.toValue ∧ h.child? t st = some x ∧ h.follow x p = some w := by
  simp only [follow, Option.bind_eq_some_iff] at e
  obtain ⟨x, ⟨t, ht, hx⟩, hw⟩ := e
  exact ⟨t, x, Value.handle?_eq_some_iff.mp ht, hx, hw⟩

theorem follow_snoc_inv (e : h.follow v (p ++ [st]) = some w) :
    ∃ t, h.follow v p = some t.toValue ∧ h.child? t st = some w := by
  rw [follow_append, Option.bind_eq_some_iff] at e
  obtain ⟨x, hx, e⟩ := e
  obtain ⟨t, y, rfl, hy, e⟩ := follow_cons_inv e
  simp only [follow, Option.some.injEq] at e
  exact ⟨t, hx, e ▸ hy⟩

theorem follow_snoc (e : h.follow v p = some t.toValue) (hc : h.child? t st = some w) :
    h.follow v (p ++ [st]) = some w := by
  rw [follow_append, e]
  simp [follow, hc]

/-! ## Reachability -/

theorem Reaches.refl (h : Heap) (t : Handle) : h.Reaches t.toValue t := ⟨[], rfl⟩

theorem Reaches.trans (h1 : h.Reaches v t) (h2 : h.Reaches t.toValue u) : h.Reaches v u := by
  obtain ⟨p, hp⟩ := h1
  obtain ⟨q, hq⟩ := h2
  exact ⟨p ++ q, by rw [follow_append, hp]; exact hq⟩

theorem Reaches.of_child (hc : h.child? t st = some w) (hw : h.Reaches w u) :
    h.Reaches t.toValue u := by
  obtain ⟨p, hp⟩ := hw
  exact ⟨st :: p, by rw [follow_cons, hc]; exact hp⟩

theorem Reaches.child (hv : h.Reaches v t) (hc : h.child? t st = some u.toValue) :
    h.Reaches v u :=
  hv.trans (.of_child hc (.refl h u))

theorem Reaches.cases (hv : h.Reaches v u) :
    v = u.toValue ∨ ∃ t st w, v = t.toValue ∧ h.child? t st = some w ∧ h.Reaches w u := by
  obtain ⟨p, hp⟩ := hv
  cases p with
  | nil => exact .inl (Option.some.inj hp)
  | cons st p =>
    obtain ⟨t, w, e, hc, hw⟩ := follow_cons_inv hp
    exact .inr ⟨t, st, w, e, hc, p, hw⟩

theorem not_reaches_of_scalar (hv : v.handle? = none) : ¬ h.Reaches v t := by
  intro hr
  rcases hr.cases with rfl | ⟨u, _, _, rfl, _⟩ <;> simp at hv

theorem child?_of_array_nil {r : Ref} (e : h.array r = []) (st : PathStep) :
    h.child? (.array r) st = none := by
  cases st with
  | field k => rfl
  | index i =>
    show (h.array r)[i]? = none
    rw [e, List.getElem?_nil]

/-- A handle that holds nothing reaches itself only. -/
theorem eq_of_reaches_of_empty (he : ∀ st, h.child? t st = none) (hr : h.Reaches t.toValue u) :
    u = t := by
  rcases hr.cases with e | ⟨b, st, w, e, hc, _⟩
  · exact (Handle.toValue_inj.mp e).symm
  · obtain rfl := Handle.toValue_inj.mp e
    rw [he st] at hc
    cases hc

/-! ## Heaps that agree -/

theorem SameCell.refl (h : Heap) (t : Handle) : h.SameCell h t := by cases t <;> rfl

theorem SameCell.trans {h'' : Heap} (h1 : h.SameCell h' t) (h2 : h'.SameCell h'' t) :
    h.SameCell h'' t := by
  cases t with
  | object r => exact Eq.trans h2 h1
  | array r => exact Eq.trans h2 h1

theorem SameCell.symm (hs : h.SameCell h' t) : h'.SameCell h t := by
  cases t with
  | object r => exact Eq.symm hs
  | array r => exact Eq.symm hs

theorem SameCell.child? (hs : h.SameCell h' t) (st : PathStep) :
    h'.child? t st = h.child? t st := by
  cases t <;> cases st <;> simp_all [SameCell, Heap.child?]

/-- Paths run the same way through heaps that agree on the graph of their start. -/
theorem follow_congr (hs : ∀ t, h.Reaches v t → h.SameCell h' t) (p : Path) :
    h'.follow v p = h.follow v p := by
  induction p generalizing v with
  | nil => rfl
  | cons st p ih =>
    cases hv : v.handle? with
    | none => simp [follow, hv]
    | some t =>
      obtain rfl := Value.handle?_eq_some_iff.mp hv
      rw [follow_cons, follow_cons, (hs t (.refl h t)).child? st]
      cases hc : h.child? t st with
      | none => rfl
      | some w => exact ih fun u hu => hs u (.of_child hc hu)

theorem reaches_congr (hs : ∀ t, h.Reaches v t → h.SameCell h' t) :
    h'.Reaches v u ↔ h.Reaches v u := by
  simp only [Reaches, follow_congr hs]

/-! ## Slots -/

theorem slot_eq (h : Heap) (t : Handle) (key : Key) :
    h.slot t key = ((t.step? key).bind (h.child? t)).getD .undefined := by
  cases t with
  | object r => rfl
  | array r => simp only [slot, Handle.step?]; cases key.toIndex? <;> rfl

theorem step?_of_slot {key : Key} (e : h.slot t key = u.toValue) :
    ∃ st, t.step? key = some st ∧ h.child? t st = some u.toValue := by
  rw [slot_eq] at e
  cases hst : t.step? key with
  | none => rw [hst] at e; cases u <;> simp [Handle.toValue] at e
  | some st =>
    refine ⟨st, rfl, ?_⟩
    rw [hst] at e
    cases hc : h.child? t st with
    | none => cases u <;> simp [hc, Handle.toValue] at e
    | some w => simp only [Option.bind_some, hc, Option.getD_some] at e; rw [e]

theorem sameCell_setSlot {key : Key} (hne : t ≠ u) (x : Value) :
    h.SameCell (h.setSlot t key x) u := by
  cases t with
  | object r =>
    cases u with
    | object s => exact object_setObject_ne h (fun e => hne (congrArg Handle.object e)) _
    | array s => rfl
  | array r =>
    simp only [setSlot]
    cases key.toIndex? with
    | none => exact .refl h u
    | some i =>
      cases u with
      | object s => simp only; split <;> rfl
      | array s =>
        have hne : r ≠ s := fun e => hne (congrArg Handle.array e)
        simp only; split <;> exact array_setArray_ne h hne _

theorem addresses_setSlot (h : Heap) (t : Handle) (key : Key) (x : Value) :
    (h.setSlot t key x).next = h.next ∧ (h.setSlot t key x).addresses = h.addresses := by
  cases t with
  | object r => exact ⟨rfl, rfl⟩
  | array r =>
    simp only [setSlot]
    split
    · split <;> exact ⟨rfl, rfl⟩
    · exact ⟨rfl, rfl⟩

/-- A key addresses a slot that can be written: any field, and any index up to the length. -/
def Writable (h : Heap) (t : Handle) (key : Key) (st : PathStep) : Prop :=
  t.step? key = some st ∧ ∀ r i, t = .array r → st = .index i → i ≤ (h.array r).length

theorem child?_setSlot_self {key : Key} (hw : h.Writable t key st) (x : Value) (st' : PathStep) :
    (h.setSlot t key x).child? t st' = if st' = st then some x else h.child? t st' := by
  obtain ⟨hst, hle⟩ := hw
  cases t with
  | object r =>
    obtain rfl : .field key.toName = st := Option.some.inj hst
    cases st' with
    | field k =>
      simp only [setSlot, child?, object_setObject_self, Std.ExtTreeMap.getElem?_insert]
      by_cases e : key.toName = k
      · simp [e]
      · simp [e, Ne.symm e]
    | index i => simp [child?]
  | array r =>
    simp only [Handle.step?, Option.map_eq_some_iff] at hst
    obtain ⟨i, hi, rfl⟩ := hst
    have hle := hle r i rfl rfl
    cases st' with
    | field k => simp [child?]
    | index j =>
      simp only [setSlot, hi, child?, PathStep.index.injEq]
      by_cases hlt : i < (h.array r).length
      · rw [if_pos hlt, array_setArray_self, List.getElem?_set]
        by_cases e : j = i
        · simp [e, hlt]
        · simp [e, Ne.symm e]
      · obtain rfl : i = (h.array r).length := by omega
        rw [if_neg (by omega), array_setArray_self, List.getElem?_append]
        by_cases hj : j < (h.array r).length
        · simp [hj, show j ≠ (h.array r).length by omega]
        · by_cases e : j = (h.array r).length
          · simp [e]
          · rw [if_neg hj, if_neg e, List.getElem?_eq_none (by simp; omega),
              List.getElem?_eq_none (by omega)]

theorem child?_setSlot {key : Key} (hw : h.Writable t key st) (x : Value) (u : Handle)
    (st' : PathStep) :
    (h.setSlot t key x).child? u st' = if u = t ∧ st' = st then some x else h.child? u st' := by
  by_cases hu : t = u
  · subst hu
    simp [child?_setSlot_self hw]
  · rw [(sameCell_setSlot hu x).child?, if_neg fun e => hu e.1.symm]

/-- A child after a write is the value written, or it was there before. -/
theorem child?_setSlot_cases {key : Key} {x : Value} {st' : PathStep} (hw : h.Writable t key st)
    (hc : (h.setSlot t key x).child? u st' = some w) :
    (u = t ∧ st' = st ∧ w = x) ∨ (¬ (u = t ∧ st' = st) ∧ h.child? u st' = some w) := by
  rw [child?_setSlot hw] at hc
  split at hc
  · next e => exact .inl ⟨e.1, e.2, (Option.some.inj hc).symm⟩
  · next e => exact .inr ⟨e, hc⟩

theorem field_setSlot {key : Key} (hw : h.Writable t key st) (x : Value) (u : Handle)
    (k : String) : (h.setSlot t key x).field u.toValue k =
      if u = t ∧ .field k = st then x else h.field u.toValue k := by
  cases u with
  | object r =>
    show ((h.setSlot t key x).child? (.object r) (.field k)).getD .undefined = _
    rw [child?_setSlot hw]
    split <;> rfl
  | array r =>
    rw [if_neg]
    · rfl
    · rintro ⟨rfl, rfl⟩
      simpa [Handle.step?] using hw.1

end

end Heap

end GuardedData
