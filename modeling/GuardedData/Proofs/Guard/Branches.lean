import GuardedData.Proofs.Guard.Access

/-!
# Writes under a union

The slot of a view under a union takes what the slot takes in any one branch
(`check_inner_iff`), whichever branch the other slots match. `leaves` lists the
branches of a schema through nested unions and modifiers. After a write the
target matches exactly when one leaf accepts the value in the slot and also
what all other slots hold (`conforms_set_iff`); with a single leaf that is no
more than what was checked (`conforms_set_of_leaf`).
-/

namespace GuardedData

namespace Schema

/-! ## Leaves -/

mutual

/-- The branches of a schema; a schema that is no union is its own. -/
def leaves : Schema → List Schema
  | .nullable inner => leaves inner
  | .optional inner => leaves inner
  | .union branches => leavesOf branches
  | s => [s]

def leavesOf : List Schema → List Schema
  | [] => []
  | s :: rest => leaves s ++ leavesOf rest

end

/-- Not a modifier and not a union. -/
def IsLeaf : Schema → Prop
  | .nullable _ | .optional _ | .union _ => False
  | _ => True

theorem mem_leavesOf {b : Schema} {branches : List Schema} :
    b ∈ leavesOf branches ↔ ∃ s ∈ branches, b ∈ s.leaves := by
  induction branches with
  | nil => simp [leavesOf]
  | cons s rest ih => simp [leavesOf, ih]

theorem isLeaf_of_mem_leaves {s b : Schema} (hb : b ∈ s.leaves) : b.IsLeaf := by
  induction s with
  | nullable inner ih => exact ih hb
  | optional inner ih => exact ih hb
  | union branches ih =>
    obtain ⟨s, hs, hb⟩ := mem_leavesOf.mp hb
    exact ih s hs hb
  | _ =>
    obtain rfl := List.mem_singleton.mp hb
    trivial

theorem fieldSchemas_eq (key : String) (branches : List Schema) :
    fieldSchemas key branches = branches.map (fieldSchema key) := by
  induction branches with
  | nil => rfl
  | cons s rest ih => rw [fieldSchemas, ih, List.map_cons]

theorem elementSchemas_eq (branches : List Schema) :
    elementSchemas branches = branches.map elementSchema := by
  induction branches with
  | nil => rfl
  | cons s rest ih => rw [elementSchemas, ih, List.map_cons]

theorem inner_union (branches : List Schema) (st : PathStep) :
    (union branches).inner st = union (branches.map fun b => b.inner st) := by
  cases st with
  | field k => rw [inner, fieldSchema, fieldSchemas_eq]; rfl
  | index i => rw [inner, elementSchema, elementSchemas_eq]; rfl

end Schema

section
variable {c : Catalogue} {h : Heap} {s b : Schema} {t : Handle} {key : Key} {st : PathStep}
  {x : Value}

/-- An object or array matches a schema exactly when it matches a leaf. -/
theorem check_iff_leaves :
    check c h s t.toValue = .ok () ↔ ∃ b ∈ s.leaves, check c h b t.toValue = .ok () := by
  induction s with
  | nullable inner ih => rw [check_nullable (by simp) (by simp), Schema.leaves, ih]
  | optional inner ih => rw [check_optional (by simp), Schema.leaves, ih]
  | union branches ih =>
    simp only [check_union_eq_ok_iff, Schema.leaves, Schema.mem_leavesOf]
    constructor
    · rintro ⟨s, hs, hc⟩
      obtain ⟨b, hb, hc⟩ := (ih s hs).mp hc
      exact ⟨b, ⟨s, hs, hb⟩, hc⟩
    · rintro ⟨b, ⟨s, hs, hb⟩, hc⟩
      exact ⟨s, hs, (ih s hs).mpr ⟨b, hb, hc⟩⟩
  | _ => simp [Schema.leaves]

/-- A slot takes what the slot of one leaf takes. -/
theorem check_inner_iff :
    check c h (s.inner st) x = .ok () ↔ ∃ b ∈ s.leaves, check c h (b.inner st) x = .ok () := by
  induction s with
  | nullable inner ih => rw [Schema.inner_nullable, Schema.leaves, ih]
  | optional inner ih => rw [Schema.inner_optional, Schema.leaves, ih]
  | union branches ih =>
    rw [Schema.inner_union, check_union_eq_ok_iff]
    simp only [List.mem_map, Schema.leaves, Schema.mem_leavesOf]
    constructor
    · rintro ⟨_, ⟨s, hs, rfl⟩, hc⟩
      obtain ⟨b, hb, hc⟩ := (ih s hs).mp hc
      exact ⟨b, ⟨s, hs, hb⟩, hc⟩
    · rintro ⟨b, ⟨s, hs, hb⟩, hc⟩
      exact ⟨_, ⟨s, hs, rfl⟩, (ih s hs).mpr ⟨b, hb, hc⟩⟩
  | _ => simp [Schema.leaves]

/-! ## One slot and the others -/

/-- The leaf accepts the handle and what its slots hold, apart from the slot under `st`. -/
def Schema.FitsBeside (c : Catalogue) (h : Heap) (t : Handle) (st : PathStep) : Schema → Prop
  | .object fields => ∀ k s, (k, s) ∈ fields → .field k ≠ st →
      check c h s (h.field t.toValue k) = .ok ()
  | .array items => ∃ r, t = .array r ∧ ∀ i w, (h.array r)[i]? = some w → .index i ≠ st →
      check c h items w = .ok ()
  | b => check c h b t.toValue = .ok ()

/-- The leaf accepts the value in the slot under `st`. -/
def Schema.Takes (c : Catalogue) (h : Heap) (st : PathStep) (x : Value) : Schema → Prop
  | .object fields => ∀ k s, (k, s) ∈ fields → .field k = st → check c h s x = .ok ()
  | .array items => check c h items x = .ok ()
  | _ => True

theorem check_setSlot (hc : c.KindOnly) {w : Value} (hw : ¬ h.Reaches w t) (s : Schema) :
    check c (h.setSlot t key x) s w = check c h s w := by
  refine check_congr hc s fun u hu => Heap.sameCell_setSlot ?_ x
  rintro rfl
  exact hw hu

/-- After a write the field under the step holds the new value, and the others hold what they
did. -/
theorem check_field_setSlot (hc : c.KindOnly) (hw : h.Writable t key st) (hx : ¬ h.Reaches x t)
    (ht : ∀ st' w, h.child? t st' = some w → ¬ h.Reaches w t) (s : Schema) (k : String) :
    check c (h.setSlot t key x) s ((h.setSlot t key x).field t.toValue k) =
      if .field k = st then check c h s x else check c h s (h.field t.toValue k) := by
  rw [Heap.field_setSlot hw]
  by_cases e : .field k = st
  · rw [if_pos ⟨rfl, e⟩, if_pos e, check_setSlot hc hx]
  · rw [if_neg fun e' => e e'.2, if_neg e]
    refine check_setSlot hc ?_ s
    rcases h.field_cases t.toValue k with e | ⟨r, e, hr⟩
    · rw [e]
      exact Heap.not_reaches_of_scalar rfl
    · obtain rfl : t = .object r := Handle.toValue_inj.mp e
      exact ht _ _ hr

theorem check_object_setSlot {fields : List (String × Schema)} (hc : c.KindOnly)
    (hw : h.Writable t key st) (hx : ¬ h.Reaches x t)
    (ht : ∀ st' w, h.child? t st' = some w → ¬ h.Reaches w t) :
    check c (h.setSlot t key x) (.object fields) t.toValue = .ok () ↔
      (Schema.object fields).FitsBeside c h t st ∧ (Schema.object fields).Takes c h st x := by
  simp only [check_object_eq_ok_iff, check_field_setSlot hc hw hx ht]
  constructor
  · rintro ⟨-, -, hall⟩
    refine ⟨fun k s hk hne => ?_, fun k s hk e => ?_⟩
    · rw [← hall k s hk, if_neg hne]
    · rw [← hall k s hk, if_pos e]
  · rintro ⟨beside, takes⟩
    refine ⟨t.isUndefined_toValue, t.isNull_toValue, fun k s hk => ?_⟩
    split
    · next e => exact takes k s hk e
    · next e => exact beside k s hk e

theorem check_array_setSlot {items : Schema} (hc : c.KindOnly) (hw : h.Writable t key st)
    (hx : ¬ h.Reaches x t) (ht : ∀ st' w, h.child? t st' = some w → ¬ h.Reaches w t) :
    check c (h.setSlot t key x) (.array items) t.toValue = .ok () ↔
      (Schema.array items).FitsBeside c h t st ∧ (Schema.array items).Takes c h st x := by
  rw [check_array_eq_ok_iff]
  constructor
  · rintro ⟨r, e, hall⟩
    obtain rfl : t = .array r := Handle.toValue_inj.mp e
    have child : ∀ j w, (h.setSlot (.array r) key x).child? (.array r) (.index j) = some w →
        check c (h.setSlot (.array r) key x) items w = .ok () :=
      fun j w hj => hall w (List.mem_of_getElem? hj)
    refine ⟨⟨r, rfl, fun j w hj hne => ?_⟩, ?_⟩
    · have hj : h.child? (.array r) (.index j) = some w := hj
      have := child j w (by rw [Heap.child?_setSlot hw, if_neg fun e => hne e.2, hj])
      rwa [check_setSlot hc (ht _ _ hj)] at this
    · have hst := hw.1
      simp only [Handle.step?, Option.map_eq_some_iff] at hst
      obtain ⟨i, _, rfl⟩ := hst
      have := child i x (by rw [Heap.child?_setSlot hw, if_pos ⟨rfl, rfl⟩])
      rwa [check_setSlot hc hx] at this
  · rintro ⟨⟨r, rfl, beside⟩, takes⟩
    refine ⟨r, rfl, fun w hm => ?_⟩
    obtain ⟨j, hj⟩ := List.getElem?_of_mem hm
    have hj : (h.setSlot (.array r) key x).child? (.array r) (.index j) = some w := hj
    rcases Heap.child?_setSlot_cases hw hj with ⟨_, _, rfl⟩ | ⟨hne, hj⟩
    · rw [check_setSlot hc hx]
      exact takes
    · rw [check_setSlot hc (ht _ _ hj)]
      exact beside j w hj fun e => hne ⟨rfl, e⟩

/-- After a write a leaf accepts the target exactly when it accepts the value in its slot and
the other slots as they were. -/
theorem check_leaf_setSlot (hc : c.KindOnly) (hw : h.Writable t key st)
    (hx : ¬ h.Reaches x t) (ht : ∀ st' w, h.child? t st' = some w → ¬ h.Reaches w t)
    (hb : b.IsLeaf) : check c (h.setSlot t key x) b t.toValue = .ok () ↔
      b.FitsBeside c h t st ∧ b.Takes c h st x := by
  cases b with
  | object fields => exact check_object_setSlot hc hw hx ht
  | array items => exact check_array_setSlot hc hw hx ht
  | tag name =>
    simp only [Schema.FitsBeside, Schema.Takes, check, and_true]
    rw [hc.accepts? (h.setSlot t key x) h name rfl]
  | nullable inner => cases hb
  | optional inner => cases hb
  | union branches => cases hb
  | _ => simp [Schema.FitsBeside, Schema.Takes, check]

/-- After a write a target that does not reach itself matches a schema exactly when one leaf
accepts the value in its slot and the other slots as they were. -/
theorem check_setSlot_iff (hc : c.KindOnly) (hw : h.Writable t key st)
    (hx : ¬ h.Reaches x t) (ht : ∀ p, h.follow t.toValue p = some t.toValue → p = []) :
    check c (h.setSlot t key x) s t.toValue = .ok () ↔
      ∃ b ∈ s.leaves, b.FitsBeside c h t st ∧ b.Takes c h st x := by
  have children : ∀ st' w, h.child? t st' = some w → ¬ h.Reaches w t := by
    rintro st' w hw' ⟨p, hp⟩
    have := ht (st' :: p) (by rw [Heap.follow_cons, hw']; exact hp)
    cases this
  rw [check_iff_leaves]
  constructor
  · rintro ⟨b, hb, hcb⟩
    have leaf := Schema.isLeaf_of_mem_leaves hb
    exact ⟨b, hb, (check_leaf_setSlot hc hw hx children leaf).mp hcb⟩
  · rintro ⟨b, hb, hcb⟩
    have leaf := Schema.isLeaf_of_mem_leaves hb
    exact ⟨b, hb, (check_leaf_setSlot hc hw hx children leaf).mpr hcb⟩

theorem fitsBeside_of_check (hb : check c h b t.toValue = .ok ()) : b.FitsBeside c h t st := by
  cases b with
  | object fields => exact fun k s hk _ => (check_object_eq_ok_iff.mp hb).2.2 k s hk
  | array items =>
    obtain ⟨r, e, hall⟩ := check_array_eq_ok_iff.mp hb
    exact ⟨r, Handle.toValue_inj.mp e, fun i w hi _ => hall w (List.mem_of_getElem? hi)⟩
  | _ => exact hb

theorem takes_of_check_inner (hwf : b.WellFormed) (hst : t.step? key = some st)
    (hb : check c h b t.toValue = .ok ()) (hx : check c h (b.inner st) x = .ok ()) :
    b.Takes c h st x := by
  cases b with
  | object fields =>
    rintro k s hk rfl
    rwa [Schema.inner_object (hwf _ .refl) hk] at hx
  | array items =>
    obtain ⟨r, e, _⟩ := check_array_eq_ok_iff.mp hb
    obtain rfl : t = .array r := Handle.toValue_inj.mp e
    simp only [Handle.step?, Option.map_eq_some_iff] at hst
    obtain ⟨i, _, rfl⟩ := hst
    exact hx
  | _ => trivial

end

/-! ## Committed writes -/

namespace Store

section
variable {s : Store} {v : View} {key : Key} {x : Value}

/-- After a committed write the target matches the schema of the view exactly when one leaf
accepts the value in its slot and the other slots as they were. -/
theorem conforms_set_iff (hc : v.options.catalogue.KindOnly)
    (hx : ¬ s.heap.Reaches x v.target)
    (ht : ∀ p, s.heap.follow v.target.toValue p = some v.target.toValue → p = [])
    (hset : (s.set v key x).result = .ok .committed) :
    ∃ st, v.target.step? key = some st ∧
      (conforms v.options.catalogue (s.set v key x).store.heap v.schema v.target.toValue = true ↔
        ∃ b ∈ v.schema.leaves, b.FitsBeside v.options.catalogue s.heap v.target st ∧
          b.Takes v.options.catalogue s.heap st x) := by
  rcases s.set_cases v key x with ⟨_, e⟩ | ⟨st, hw, _, _, e⟩
  · exact absurd hset e
  · refine ⟨st, hw.1, ?_⟩
    rw [e, conforms_iff]
    exact check_setSlot_iff hc hw hx ht

def mixedSchema : Schema :=
  .union [.array (.literal (.bool true)), .array (.literal (.string ""))]

def twoFlags : Store := .ofHeap (Heap.empty.setArray 0 [.bool true, .bool true])

def flagsView : View := ⟨.array 0, mixedSchema, 0, ⟨false, .empty⟩, 1⟩

/-- A string is stored in an array of two Booleans, and then neither branch accepts it. -/
theorem conforms_set_iff_mixed : ∃ s v,
    v.schema = mixedSchema ∧ v.target = .array 0 ∧
    conforms .empty s.heap v.schema v.target.toValue = true ∧
    (set s v (.index 0) (.string "x")).result = .ok .committed ∧
    conforms .empty (set s v (.index 0) (.string "x")).store.heap v.schema v.target.toValue =
      false ∧
    ¬ ∃ b ∈ v.schema.leaves, b.FitsBeside .empty s.heap v.target (.index 0) ∧
      b.Takes .empty s.heap (.index 0) (.string "x") := by
  refine ⟨twoFlags, flagsView, rfl, rfl, rfl, rfl, rfl, ?_⟩
  have loose : ∀ p, twoFlags.heap.follow flagsView.target.toValue p =
      some flagsView.target.toValue → p = [] := by
    intro p hp
    cases p with
    | nil => rfl
    | cons st p =>
      obtain ⟨t, w, et, hc, hw⟩ := Heap.follow_cons_inv hp
      obtain rfl : .array 0 = t := Handle.toValue_inj.mp et
      cases st with
      | field k => cases hc
      | index i =>
        have hm : w ∈ [.bool true, .bool true] := List.mem_of_getElem? hc
        obtain rfl : w = .bool true := by simpa using hm
        exact absurd ⟨p, hw⟩ (Heap.not_reaches_of_scalar rfl)
  have scalar : ¬ twoFlags.heap.Reaches (.string "x") flagsView.target :=
    Heap.not_reaches_of_scalar rfl
  have committed : (set twoFlags flagsView (.index 0) (.string "x")).result = .ok .committed := rfl
  obtain ⟨st, hst, hiff⟩ := conforms_set_iff Catalogue.kindOnly_empty scalar loose committed
  obtain rfl : .index 0 = st := Option.some.inj hst
  intro hex
  cases hiff.mpr hex

/-- With a single leaf a committed write leaves a valid target valid. -/
theorem conforms_set_of_leaf {b : Schema} (hl : v.schema.leaves = [b]) (hb : b.WellFormed)
    (hc : v.options.catalogue.KindOnly) (hx : ¬ s.heap.Reaches x v.target)
    (ht : ∀ p, s.heap.follow v.target.toValue p = some v.target.toValue → p = [])
    (hv : conforms v.options.catalogue s.heap v.schema v.target.toValue = true)
    (hset : (s.set v key x).result = .ok .committed) :
    conforms v.options.catalogue (s.set v key x).store.heap v.schema v.target.toValue = true := by
  rcases s.set_cases v key x with ⟨_, e⟩ | ⟨st, hw, hck, _, e⟩
  · exact absurd hset e
  · have only : ∀ b' ∈ v.schema.leaves, b' = b := by simp [hl]
    obtain ⟨b₁, hm₁, slot⟩ := check_inner_iff.mp hck
    obtain ⟨b₂, hm₂, before⟩ := check_iff_leaves.mp (conforms_iff.mp hv)
    rw [only b₁ hm₁] at slot
    rw [only b₂ hm₂] at before
    rw [e, conforms_iff, check_setSlot_iff hc hw hx ht]
    exact ⟨b, by simp [hl], fitsBeside_of_check before, takes_of_check_inner hb hw.1 before slot⟩

end

end Store

end GuardedData
