import GuardedData.Proofs.Guard.Admission

/-!
# Writes that do not interfere

`h.OtherSlots t k u l` says that the key `k` of `t` and the key `l` of `u`
address different slots of the heap. Writes to two such slots may change places
(`Store.set_set_comm`): neither one sees the other, as far as what it stores does
not hold the target of the other one, and they leave the same store behind.
-/

namespace GuardedData

namespace Heap

/-- The keys address different slots: of different objects or arrays, by different names of one
object, or by different indices of one array. At the end of an array there is one slot only, so
one of the indices has to be below the length; a key of an array without an index is apart from
any other. -/
inductive OtherSlots (h : Heap) : Handle → Key → Handle → Key → Prop where
  | target {t u : Handle} {k l : Key} : t ≠ u → OtherSlots h t k u l
  | name {r : Ref} {k l : Key} : k.toName ≠ l.toName → OtherSlots h (.object r) k (.object r) l
  | index {r : Ref} {k l : Key} : (∀ i j, k.Spells i → l.Spells j →
      i ≠ j ∧ (i < (h.array r).length ∨ j < (h.array r).length)) →
      OtherSlots h (.array r) k (.array r) l

theorem OtherSlots.symm {h : Heap} {t u : Handle} {k l : Key} (apart : h.OtherSlots t k u l) :
    h.OtherSlots u l t k := by
  cases apart with
  | target hne => exact .target hne.symm
  | name hne => exact .name hne.symm
  | index hne => exact .index fun j i hj hi => (hne i j hi hj).imp Ne.symm Or.symm

/-! ## Two changes of the heap -/

section
variable {α β : Type} {cmp : α → α → Ordering} [Std.TransCmp cmp] [Std.LawfulEqCmp cmp]

theorem insert_insert_ne {k l : α} (hne : k ≠ l) (m : Std.ExtTreeMap α β cmp) (a b : β) :
    (m.insert k a).insert l b = (m.insert l b).insert k a := by
  refine Std.ExtTreeMap.ext_getElem? fun n => ?_
  simp only [Std.ExtTreeMap.getElem?_insert]
  by_cases hk : cmp k n = .eq
  · have hl : cmp l n ≠ .eq := fun hl => hne <|
      (Std.LawfulEqCmp.eq_of_compare hk).trans (Std.LawfulEqCmp.eq_of_compare hl).symm
    rw [if_pos hk, if_neg hl, if_pos hk]
  · rw [if_neg hk, if_neg hk]

theorem insert_insert_self (k : α) (m : Std.ExtTreeMap α β cmp) (a b : β) :
    (m.insert k a).insert k b = m.insert k b := by
  refine Std.ExtTreeMap.ext_getElem? fun n => ?_
  simp only [Std.ExtTreeMap.getElem?_insert]
  split <;> rfl

end

/-- The elements with `x` at the index `i`, or at the end. -/
def putItem (items : List Value) (i : Nat) (x : Value) : List Value :=
  if i < items.length then items.set i x else items ++ [x]

theorem putItem_putItem {items : List Value} {i j : Nat} (hne : i ≠ j)
    (hi : i ≤ items.length) (hj : j ≤ items.length) (x y : Value) :
    putItem (putItem items i x) j y = putItem (putItem items j y) i x := by
  unfold putItem
  by_cases hi' : i < items.length <;> by_cases hj' : j < items.length
  · simp only [hi', hj', if_true, List.length_set]
    exact List.set_comm x y hne
  · have hi1 : i < (items ++ [y]).length := by simp; omega
    simp only [hi', hj', hi1, if_true, if_false, List.length_set]
    exact (List.set_append_left i x hi').symm
  · have hj1 : j < (items ++ [x]).length := by simp; omega
    simp only [hi', hj', hj1, if_true, if_false, List.length_set]
    exact List.set_append_left j y hj'
  · omega

theorem setObject_setObject_ne {r s : Ref} (hne : r ≠ s) (h : Heap) (p q : Properties) :
    (h.setObject r p).setObject s q = (h.setObject s q).setObject r p := by
  simp only [setObject, insert_insert_ne hne]

theorem setArray_setArray_ne {r s : Ref} (hne : r ≠ s) (h : Heap) (as bs : List Value) :
    (h.setArray r as).setArray s bs = (h.setArray s bs).setArray r as := by
  simp only [setArray, insert_insert_ne hne]

section
variable {h : Heap} {t u : Handle} {k l : Key}

theorem setSlot_object (h : Heap) (r : Ref) (k : Key) (x : Value) :
    h.setSlot (.object r) k x = h.setObject r ((h.object r).insert k.toName x) := rfl

theorem setSlot_array {r : Ref} {i : Nat} (hk : k.toIndex? = some i) (h : Heap) (x : Value) :
    h.setSlot (.array r) k x = h.setArray r (putItem (h.array r) i x) := by
  simp only [setSlot, hk, putItem]
  split <;> rfl

theorem setSlot_of_toIndex?_none {r : Ref} (hk : k.toIndex? = none) (h : Heap) (x : Value) :
    h.setSlot (.array r) k x = h := by
  simp only [setSlot, hk]

theorem setSlot_setSlot_of_ne (hne : t ≠ u) (h : Heap) (x y : Value) :
    (h.setSlot t k x).setSlot u l y = (h.setSlot u l y).setSlot t k x := by
  cases t with
  | object r =>
    cases u with
    | object s =>
      have hne : r ≠ s := fun e => hne (congrArg Handle.object e)
      simp only [setSlot_object, object_setObject_ne h hne, object_setObject_ne h hne.symm]
      exact setObject_setObject_ne hne h _ _
    | array s =>
      cases hl : l.toIndex? with
      | none => simp only [setSlot_of_toIndex?_none hl]
      | some j => simp only [setSlot_object, setSlot_array hl]; rfl
  | array r =>
    cases hk : k.toIndex? with
    | none => simp only [setSlot_of_toIndex?_none hk]
    | some i =>
      cases u with
      | object s => simp only [setSlot_object, setSlot_array hk]; rfl
      | array s =>
        have hne : r ≠ s := fun e => hne (congrArg Handle.array e)
        cases hl : l.toIndex? with
        | none => simp only [setSlot_of_toIndex?_none hl]
        | some j =>
          simp only [setSlot_array hk, setSlot_array hl, array_setArray_ne h hne,
            array_setArray_ne h hne.symm]
          exact setArray_setArray_ne hne h _ _

/-- Two slots that can be written and are not the same are written in any order. -/
theorem OtherSlots.setSlot_setSlot {st st' : PathStep} (apart : h.OtherSlots t k u l)
    (hk : h.Writable t k st) (hl : h.Writable u l st') (x y : Value) :
    (h.setSlot t k x).setSlot u l y = (h.setSlot u l y).setSlot t k x := by
  cases apart with
  | target hne => exact setSlot_setSlot_of_ne hne h x y
  | @name r k l hne =>
    simp only [setSlot_object, object_setObject_self]
    simp only [setObject, insert_insert_self, insert_insert_ne hne]
  | @index r k l hne =>
    rcases writable_iff.mp hk with ⟨_, e, -⟩ | ⟨_, i, e, hi, hile, -⟩
    · cases e
    rcases writable_iff.mp hl with ⟨_, e', -⟩ | ⟨_, j, e', hj, hjle, -⟩
    · cases e'
    cases e
    cases e'
    simp only [setSlot_array (Key.toIndex?_eq_some_iff.mpr hi),
      setSlot_array (Key.toIndex?_eq_some_iff.mpr hj), array_setArray_self]
    simp only [setArray, insert_insert_self, putItem_putItem (hne i j hi hj).1 hile hjle]

theorem graph_of_array_nil {r : Ref} (e : h.array r = []) (ht : h.Graph (.array r) t) :
    t = .array r := by
  refine ht.closed (G := (· = .array r)) (fun u hu => ?_) ?_
  · exact Handle.holds_toValue (t := .array r) hu
  · rintro a st x u rfl hc -
    rw [child?_of_array_nil e] at hc
    cases hc

theorem not_graph_bool (b : Bool) : ¬ h.Graph (.bool b) t :=
  fun ht => ht.closed (G := fun _ => False) (Value.not_holds_bool b) fun _ _ _ _ ha _ _ => ha

end

end Heap

namespace Store

section
variable {s : Store} {v w : View} {k l : Key} {x y : Value} {st : PathStep}

/-- A write to another slot does not matter for whether a key addresses a slot. -/
theorem checkWritable_setSlot {h : Heap} {t u : Handle} (apart : h.OtherSlots t k u l)
    (hk : h.Writable t k st) (x : Value) :
    checkWritable (h.setSlot t k x) u l = checkWritable h u l := by
  cases apart with
  | target hne =>
    cases u with
    | object r => rfl
    | array r =>
      have same : (h.setSlot t k x).array r = h.array r :=
        Heap.sameCell_setSlot (u := .array r) hne x
      simp only [checkWritable, same]
  | name => rfl
  | @index r k l hne =>
    rcases Heap.writable_iff.mp hk with ⟨_, e, -⟩ | ⟨_, i, e, hi, hile, -⟩
    · cases e
    cases e
    cases hl : l.toIndex? with
    | none => simp only [checkWritable, hl]
    | some j =>
      have below := (hne i j hi (Key.toIndex?_eq_some_iff.mp hl)).2
      have length := Heap.length_setSlot (Key.toIndex?_eq_some_iff.mpr hi) hile x
      simp only [checkWritable, hl, length]
      by_cases hlast : i = (h.array r).length
      · -- the array grows, and the other index is below its end before and after
        have hj : j < (h.array r).length := by omega
        rw [if_neg (by omega), if_neg (by omega)]
      · rw [if_neg hlast, Nat.add_zero]

/-- A write neither sees nor is seen by one to another slot, whose target it does not reach. -/
theorem set_after_set (hcatalogue : w.options.catalogue.Local)
    (apart : s.heap.OtherSlots v.target k w.target l) (hy : ¬ s.heap.Graph y v.target) :
    ((s.set v k x).store.set w l y).result = (s.set w l y).result ∧
      ((s.set v k x).store.set w l y).events = (s.set w l y).events := by
  rcases s.set_cases v k x with ⟨hs, -⟩ | ⟨st, hk, -, -, hs⟩
  · rw [hs]
    exact ⟨rfl, rfl⟩
  · have hwritable := checkWritable_setSlot apart hk x
    have hcheck := hcatalogue.check_congr (Heap.functions_setSlot s.heap v.target k x)
      (w.slotSchema l) (Heap.sameGraph_setSlot hy x)
    rw [hs]
    simp only [set, hwritable, hcheck]
    constructor <;> repeat' split
    all_goals rfl

/-- A write changes the store if it is committed, to what it puts in its slot. -/
theorem store_set_of_committed (hr : (s.set v k x).result = .ok .committed) :
    (s.set v k x).store = { s with heap := s.heap.setSlot v.target k x } := by
  rcases s.set_cases v k x with ⟨-, hn⟩ | ⟨-, -, -, -, hs⟩
  · exact absurd hr hn
  · exact hs

theorem store_set_of_not_committed (hr : (s.set v k x).result ≠ .ok .committed) :
    (s.set v k x).store = s := by
  rcases s.set_cases v k x with ⟨hs, -⟩ | ⟨-, -, -, hc, -⟩
  · exact hs
  · exact absurd hc hr

/-- Writes to two slots may change places, as far as neither value holds the target of the other
write and predicates look at nothing but what a value holds: each has the same result and reports
the same when the other one went before, and the store in the end is the same. -/
theorem set_set_comm (hv : v.options.catalogue.Local) (hw : w.options.catalogue.Local)
    (apart : s.heap.OtherSlots v.target k w.target l) (hx : ¬ s.heap.Graph x w.target)
    (hy : ¬ s.heap.Graph y v.target) :
    (((s.set v k x).store.set w l y).result = (s.set w l y).result ∧
      ((s.set v k x).store.set w l y).events = (s.set w l y).events) ∧
    (((s.set w l y).store.set v k x).result = (s.set v k x).result ∧
      ((s.set w l y).store.set v k x).events = (s.set v k x).events) ∧
    ((s.set v k x).store.set w l y).store = ((s.set w l y).store.set v k x).store := by
  have second := set_after_set (x := x) hw apart hy
  have first := set_after_set (x := y) hv apart.symm hx
  refine ⟨second, first, ?_⟩
  rcases s.set_cases v k x with ⟨hs, hr⟩ | ⟨st, hk, -, hr, hs⟩
  · rw [← first.1] at hr
    rw [hs, store_set_of_not_committed hr]
  rcases s.set_cases w l y with ⟨hs', hr'⟩ | ⟨st', hl, -, hr', hs'⟩
  · rw [← second.1] at hr'
    rw [hs', store_set_of_not_committed hr']
  · -- both are committed, and the slots are written in the one order and in the other
    rw [← first.1] at hr
    rw [← second.1] at hr'
    rw [store_set_of_committed hr, store_set_of_committed hr', hs, hs',
      apart.setSlot_setSlot hk hl]

def panelStore : Store :=
  .ofHeap ((Heap.empty.setObject 0 (Std.ExtTreeMap.insert ∅ "switches" (.array 1))).setArray 1
    [.bool false, .bool false])

def panelView : View :=
  ⟨.object 0, .object [("switches", .array (.tag "boolean"))], 0, .strict .builtin, 1⟩

def switchesView : View := ⟨.array 1, .array (.tag "boolean"), 1, .lenient .builtin, 1⟩

/-- The row is replaced by an empty one in one session, and a switch of the old row turned on in
another. -/
theorem set_set_comm_panel :
    ((panelStore.set panelView (.name "switches") (.array 2)).store.set switchesView (.index 1)
      (.bool true)).result = .ok .committed ∧
    ((panelStore.set switchesView (.index 1) (.bool true)).store.set panelView
      (.name "switches") (.array 2)).result = .ok .committed ∧
    ((panelStore.set panelView (.name "switches") (.array 2)).store.set switchesView (.index 1)
      (.bool true)).store =
    ((panelStore.set switchesView (.index 1) (.bool true)).store.set panelView
      (.name "switches") (.array 2)).store := by
  have row : ¬ panelStore.heap.Graph (.array 2) switchesView.target := by
    intro ht
    cases Heap.graph_of_array_nil rfl ht
  have switch : ¬ panelStore.heap.Graph (.bool true) panelView.target := Heap.not_graph_bool true
  obtain ⟨⟨second, -⟩, ⟨first, -⟩, same⟩ := set_set_comm Catalogue.kindOnly_builtin.isLocal
    Catalogue.kindOnly_builtin.isLocal (.target (by decide)) row switch
  exact ⟨second.trans (by decide), first.trans (by decide), same⟩

end

end Store

end GuardedData
