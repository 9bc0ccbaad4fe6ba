import GuardedData.Guard.Access
import GuardedData.Proofs.Check.Acceptance

/-!
# What reads and writes do

One lemma for each operation on a store says all that it can do: `get_cases`,
`set_cases` and `wrap_cases`. The lemmas on `view?` say which views an
operation leaves, and with what; apart from its holders a view never changes.
-/

namespace GuardedData

/-- The same view, with perhaps another number of holders. -/
def View.Same (v w : View) : Prop := w = { v with holders := w.holders }

theorem View.Same.refl (v : View) : v.Same v := rfl

theorem View.Same.target {v w : View} (h : v.Same w) : w.target = v.target := by rw [h]

theorem View.Same.schema {v w : View} (h : v.Same w) : w.schema = v.schema := by rw [h]

theorem View.Same.session {v w : View} (h : v.Same w) : w.session = v.session := by rw [h]

theorem View.Same.options {v w : View} (h : v.Same w) : w.options = v.options := by rw [h]

theorem View.slotSchema_eq {v : View} {key : Key} {st : PathStep}
    (h : v.target.step? key = some st) : v.slotSchema key = v.schema.inner st := by
  unfold View.slotSchema
  cases ht : v.target with
  | object r =>
    rw [ht] at h
    obtain rfl := Option.some.inj h
    rfl
  | array r =>
    rw [ht] at h
    simp only [Handle.step?, Option.map_eq_some_iff] at h
    obtain ⟨i, _, rfl⟩ := h
    rfl

theorem View.Same.trans {u v w : View} (h1 : u.Same v) (h2 : v.Same w) : u.Same w := by
  rw [View.Same, h2, h1]

namespace Store

section
variable {s : Store} {v w : View} {id i : ViewId} {key : Key} {x : Value} {t : Handle}

/-! ## Views that an operation leaves -/

theorem view?_addRoot (s : Store) (v : View) (id : ViewId) :
    (s.addRoot v).2.view? id = if id = s.nextView then some v else s.view? id := by
  simp only [view?, addRoot, Std.ExtTreeMap.getElem?_insert]
  by_cases e : s.nextView = id
  · simp [e]
  · simp [e, Ne.symm e]

theorem view?_addNested (s : Store) (v : View) (id : ViewId) :
    (s.addNested v).2.view? id = if id = s.nextView then some v else s.view? id :=
  view?_addRoot s v id

/-- One more holder of a view, and no change to the others. -/
theorem view?_hold (s : Store) (i id : ViewId) :
    (s.hold i).view? id =
      if id = i then (s.view? i).map fun v => { v with holders := v.holders + 1 }
      else s.view? id := by
  unfold hold
  cases hi : s.view? i with
  | none =>
    simp only [Option.map_none]
    split
    · next h => rw [h, hi]
    · rfl
  | some v =>
    show (s.views.insert i _)[id]? = _
    rw [Std.ExtTreeMap.getElem?_insert]
    by_cases h : i = id
    · simp [h]
    · simp [h, Ne.symm h, view?]

/-- One holder of a view less, and no change to the others. -/
theorem view?_release (s : Store) (i id : ViewId) :
    (s.release i).view? id =
      if id = i then (s.view? i).bind fun v =>
        if v.holders ≤ 1 then none else some { v with holders := v.holders - 1 }
      else s.view? id := by
  unfold release
  cases hi : s.view? i with
  | none =>
    simp only [Option.bind_none]
    split
    · next h => rw [h, hi]
    · rfl
  | some v =>
    by_cases hv : v.holders ≤ 1
    · simp only [if_pos hv, Option.bind_some]
      show (s.views.erase i)[id]? = _
      rw [Std.ExtTreeMap.getElem?_erase]
      by_cases h : i = id
      · simp [h]
      · simp [h, Ne.symm h, view?]
    · simp only [if_neg hv, Option.bind_some]
      show (s.views.insert i _)[id]? = _
      rw [Std.ExtTreeMap.getElem?_insert]
      by_cases h : i = id
      · simp [h]
      · simp [h, Ne.symm h, view?]

theorem same_of_view?_hold (e : (s.hold i).view? id = some w) :
    ∃ v, s.view? id = some v ∧ v.Same w := by
  rw [view?_hold] at e
  split at e
  · next h =>
    subst h
    obtain ⟨v, hv, rfl⟩ := Option.map_eq_some_iff.mp e
    exact ⟨v, hv, rfl⟩
  · exact ⟨w, e, .refl w⟩

theorem same_of_view?_release (e : (s.release i).view? id = some w) :
    ∃ v, s.view? id = some v ∧ v.Same w := by
  rw [view?_release] at e
  split at e
  · next h =>
    subst h
    obtain ⟨v, hv, e⟩ := Option.bind_eq_some_iff.mp e
    split at e
    · cases e
    · exact ⟨v, hv, by rw [← Option.some.inj e]; rfl⟩
  · exact ⟨w, e, .refl w⟩

/-- A held view stays alive when it is held once more, and so do the others. -/
theorem view?_hold_of_view? (e : s.view? id = some v) :
    ∃ w, (s.hold i).view? id = some w ∧ v.Same w := by
  rw [view?_hold]
  split
  · next h =>
    subst h
    exact ⟨{ v with holders := v.holders + 1 }, by rw [e]; rfl, rfl⟩
  · exact ⟨v, e, .refl v⟩

@[simp] theorem heap_hold (s : Store) (id : ViewId) : (s.hold id).heap = s.heap := by
  unfold hold; split <;> rfl

@[simp] theorem heap_release (s : Store) (id : ViewId) : (s.release id).heap = s.heap := by
  unfold release; split
  · rfl
  · split <;> rfl

@[simp] theorem tables_hold (s : Store) (id : ViewId) : (s.hold id).tables = s.tables := by
  unfold hold; split <;> rfl

@[simp] theorem tables_release (s : Store) (id : ViewId) : (s.release id).tables = s.tables := by
  unfold release; split
  · rfl
  · split <;> rfl

@[simp] theorem table_hold (s : Store) (id : ViewId) (session : SessionId) :
    (s.hold id).table session = s.table session := by
  simp [table]

/-- A new nested view is entered into the table of its session, which loses its dead entries. -/
theorem table_addNested (s : Store) (v : View) (session : SessionId) (a : Nat) :
    ((s.addNested v).2.table session)[a]? =
      if session = v.session then
        if a = s.heap.address v.target.ref then some s.nextView
        else ((s.table session)[a]?).filter s.isAlive
      else (s.table session)[a]? := by
  show ((s.tables.insert v.session _)[session]?.getD ∅)[a]? = _
  rw [Std.ExtTreeMap.getElem?_insert]
  by_cases hs : session = v.session
  · subst hs
    simp only [Std.compare_self, if_true, Option.getD_some, Std.ExtTreeMap.getElem?_insert,
      Std.ExtTreeMap.getElem?_filter']
    by_cases ha : a = s.heap.address v.target.ref
    · simp [ha]
    · rw [if_neg ha, if_neg fun e => ha (Std.LawfulEqCmp.eq_of_compare e).symm]
  · rw [if_neg hs, if_neg fun e => hs (Std.LawfulEqCmp.eq_of_compare e).symm]
    rfl

theorem isAlive_eq (s : Store) (id : ViewId) : s.isAlive id = (s.view? id).isSome :=
  Std.ExtTreeMap.contains_eq_isSome_getElem?

@[simp] theorem nextView_hold (s : Store) (id : ViewId) : (s.hold id).nextView = s.nextView := by
  unfold hold; split <;> rfl

@[simp] theorem nextView_release (s : Store) (id : ViewId) :
    (s.release id).nextView = s.nextView := by
  unfold release; split
  · rfl
  · split <;> rfl

@[simp] theorem nextSession_hold (s : Store) (id : ViewId) :
    (s.hold id).nextSession = s.nextSession := by
  unfold hold; split <;> rfl

@[simp] theorem nextSession_release (s : Store) (id : ViewId) :
    (s.release id).nextSession = s.nextSession := by
  unfold release; split
  · rfl
  · split <;> rfl

/-- A view that is looked up is in the table of the session, alive, and of the target. -/
theorem lookup?_eq_some {session : SessionId} (e : s.lookup? session t = some id) :
    ∃ v, (s.table session)[s.heap.address t.ref]? = some id ∧ s.view? id = some v ∧
      v.target = t := by
  unfold lookup? at e
  split at e
  · cases e
  · next i hi =>
    split at e
    · cases e
    · next v hv =>
      split at e
      · next ht =>
        obtain rfl := Option.some.inj e
        exact ⟨v, hi, hv, ht⟩
      · cases e

theorem lookup?_of_table {session : SessionId}
    (ht : (s.table session)[s.heap.address t.ref]? = some id) (hv : s.view? id = some v)
    (e : v.target = t) : s.lookup? session t = some id := by
  simp [lookup?, ht, hv, e]

/-! ## Operations -/

/-- A read gives the raw value, or the live view of the object or array in the slot, or a
new one. -/
theorem get_cases (s : Store) (v : View) (key : Key) :
    ((s.heap.slot v.target key).handle? = none ∧
      s.get v key = ⟨.value (s.heap.slot v.target key), s, []⟩) ∨
    (∃ t id, s.heap.slot v.target key = t.toValue ∧ s.lookup? v.session t = some id ∧
      s.get v key = ⟨.view id, s.hold id, [.viewReused key.render]⟩) ∨
    (∃ t, s.heap.slot v.target key = t.toValue ∧ s.lookup? v.session t = none ∧
      s.get v key = ⟨.view s.nextView,
        (s.addNested ⟨t, v.slotSchema key, v.session, v.options, 1⟩).2,
        [.viewCreated key.render]⟩) := by
  cases hr : (s.heap.slot v.target key).handle? with
  | none => exact .inl ⟨rfl, by simp only [get, hr]⟩
  | some t =>
    have e := Value.handle?_eq_some_iff.mp hr
    cases hl : s.lookup? v.session t with
    | some id => exact .inr (.inl ⟨t, id, e, hl, by simp only [get, hr, hl]⟩)
    | none => exact .inr (.inr ⟨t, e, hl, by simp only [get, hr, hl]; rfl⟩)

theorem get_of_lookup? (hs : s.heap.slot v.target key = t.toValue)
    (hl : s.lookup? v.session t = some id) : (s.get v key).result = .view id := by
  simp [get, hs, hl]

/-- A read that gives a view gives the live view of the object or array in the slot, or a new
one if there is none. -/
theorem get_view_cases {s : Store} {v : View} {key : Key} {id : ViewId}
    (e : (s.get v key).result = .view id) :
    ∃ t st, v.target.step? key = some st ∧ s.heap.child? v.target st = some t.toValue ∧
      ((s.lookup? v.session t = some id ∧ (s.get v key).store = s.hold id) ∨
      (s.lookup? v.session t = none ∧ id = s.nextView ∧ (s.get v key).store =
        (s.addNested ⟨t, v.schema.inner st, v.session, v.options, 1⟩).2)) := by
  rcases s.get_cases v key with ⟨_, hg⟩ | ⟨t, i, ht, hl, hg⟩ | ⟨t, ht, hl, hg⟩ <;> rw [hg] at e ⊢
  · cases e
  · obtain ⟨st, hst, hc⟩ := Heap.step?_of_slot ht
    obtain rfl := Field.view.inj e
    exact ⟨t, st, hst, hc, .inl ⟨hl, rfl⟩⟩
  · obtain ⟨st, hst, hc⟩ := Heap.step?_of_slot ht
    obtain rfl := Field.view.inj e
    exact ⟨t, st, hst, hc, .inr ⟨hl, rfl, by rw [View.slotSchema_eq hst]⟩⟩

/-- A read that gives a view that was not alive makes it. -/
theorem get_new_view (e : (s.get v key).result = .view id) (hnew : s.isAlive id = false) :
    id = s.nextView ∧ ∃ t st, v.target.step? key = some st ∧
      s.heap.child? v.target st = some t.toValue ∧ (s.get v key).store =
        (s.addNested ⟨t, v.schema.inner st, v.session, v.options, 1⟩).2 := by
  obtain ⟨t, st, hst, hc, ⟨hl, _⟩ | ⟨_, hid, hs⟩⟩ := get_view_cases e
  · obtain ⟨u, _, hu, _⟩ := lookup?_eq_some hl
    rw [isAlive_eq, hu] at hnew
    cases hnew
  · exact ⟨hid, t, st, hst, hc, hs⟩

/-- A wrap makes a root view in a new session, or fails and changes nothing. -/
theorem wrap_cases (s : Store) (schema : Schema) (x : Value) (o : Options) :
    (∃ e, s.wrap schema x o = ⟨.error e, s, []⟩ ∧ x.handle? = none) ∨
    ∃ t, x = t.toValue ∧ (s.wrap schema x o).result = .ok s.nextView ∧
      (s.wrap schema x o).store = ({ s with nextSession := s.nextSession + 1 }.addRoot
        ⟨t, schema, s.nextSession, o, 1⟩).2 := by
  cases hx : x.handle? with
  | none => exact .inl ⟨_, by simp only [wrap, hx]; rfl, rfl⟩
  | some t =>
    exact .inr ⟨t, Value.handle?_eq_some_iff.mp hx, by simp only [wrap, hx]; rfl,
      by simp only [wrap, hx]⟩

@[simp] theorem heap_get (s : Store) (v : View) (key : Key) :
    (s.get v key).store.heap = s.heap := by
  rcases s.get_cases v key with ⟨_, h⟩ | ⟨_, _, _, _, h⟩ | ⟨_, _, _, h⟩ <;> simp [h, addNested]

@[simp] theorem heap_wrap (s : Store) (schema : Schema) (x : Value) (o : Options) :
    (s.wrap schema x o).store.heap = s.heap := by
  rcases s.wrap_cases schema x o with ⟨_, h, _⟩ | ⟨_, _, _, h⟩ <;> simp [h, addRoot]

theorem writable_of_checkWritable {h : Heap} (e : checkWritable h t key = .ok ()) :
    ∃ st, h.Writable t key st := by
  cases t with
  | object r => exact ⟨_, rfl, fun _ _ e => by cases e⟩
  | array r =>
    simp only [checkWritable] at e
    cases hi : key.toIndex? with
    | none => rw [hi] at e; cases e
    | some i =>
      simp only [hi] at e
      split at e
      · cases e
      · next hlt =>
        refine ⟨.index i, by simp [Handle.step?, hi], fun r' j er ej => ?_⟩
        cases er
        cases ej
        omega

/-- A write is committed to a slot that can be written, with a value that its schema accepts,
or changes nothing. -/
theorem set_cases (s : Store) (v : View) (key : Key) (x : Value) :
    ((s.set v key x).store = s ∧ (s.set v key x).result ≠ .ok .committed) ∨
    (∃ st, s.heap.Writable v.target key st ∧
      check v.options.catalogue s.heap (v.schema.inner st) x = .ok () ∧
      (s.set v key x).result = .ok .committed ∧
      (s.set v key x).store = { s with heap := s.heap.setSlot v.target key x }) := by
  unfold set
  cases hw : checkWritable s.heap v.target key with
  | error e => exact .inl ⟨rfl, by simp⟩
  | ok u =>
    obtain ⟨st, hst⟩ := writable_of_checkWritable hw
    simp only
    rw [View.slotSchema_eq hst.1]
    cases hc : check v.options.catalogue s.heap (v.schema.inner st) x with
    | error m =>
      left
      simp only
      split <;> simp
    | ok u => exact .inr ⟨st, hst, hc, rfl, rfl⟩

theorem sameCell_set (s : Store) (key : Key) (x : Value) (hne : v.target ≠ t) :
    s.heap.SameCell (s.set v key x).store.heap t := by
  rcases s.set_cases v key x with ⟨hs, -⟩ | ⟨-, -, -, -, hs⟩
  · rw [hs]
    exact .refl s.heap t
  · rw [hs]
    exact Heap.sameCell_setSlot hne x

end

end Store

end GuardedData
