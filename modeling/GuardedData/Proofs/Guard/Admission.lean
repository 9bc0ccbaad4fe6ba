import GuardedData.Proofs.Check.Declared
import GuardedData.Proofs.Guard.Branches
import GuardedData.Proofs.Guard.Sharing
import GuardedData.Proofs.Guard.Writes

/-!
# Writes that are let through

`s.DeclaresSlot st` says that the schema provides for the slot under a step.
What such a slot holds in a value that matches the schema matches the schema of
the slot (`DeclaresSlot.check_readStep`). So a write is committed whenever the
target would match with the value in the slot, and writing back what the slot of
a matching target holds is committed as well.
-/

namespace GuardedData

/-- The schema declares the slot: an object the fields that it lists, an array every element, a
schema that asks for nothing every slot. A modifier declares what its inner schema does, and a
union what all of its branches do. -/
inductive Schema.DeclaresSlot : Schema → PathStep → Prop where
  | node {s : Schema} {st : PathStep} : s.Offers st → DeclaresSlot s st
  | any (st : PathStep) : DeclaresSlot .any st
  | unknown (st : PathStep) : DeclaresSlot .unknown st
  | nullable {inner : Schema} {st : PathStep} : DeclaresSlot inner st →
      DeclaresSlot (.nullable inner) st
  | optional {inner : Schema} {st : PathStep} : DeclaresSlot inner st →
      DeclaresSlot (.optional inner) st
  | union {branches : List Schema} {st : PathStep} : (∀ b ∈ branches, DeclaresSlot b st) →
      DeclaresSlot (.union branches) st

section
variable {c : Catalogue} {h : Heap} {s : Schema} {t : Handle} {st : PathStep}

/-- Under a step that a node offers, its value holds what the schema of the slot accepts. -/
theorem Schema.Offers.check_readStep (ho : s.Offers st)
    (held : ∀ i, st = .index i → ∃ x, h.child? t st = some x)
    (hc : check c h s t.toValue = .ok ()) :
    check c h (s.inner st) (h.readStep t.toValue st) = .ok () := by
  cases ho with
  | @field fields k n hm =>
    obtain ⟨b, hb⟩ := Keyed.exists_get?_of_mem hm
    have hinner : (object fields).inner (.field k) = b := by
      rw [inner, fieldSchema, hb, Option.getD_some]
    rw [hinner]
    exact (check_object_eq_ok_iff.mp hc).2.2 k b (Keyed.mem_of_get? hb)
  | @element items i =>
    obtain ⟨r, e, hall⟩ := check_array_eq_ok_iff.mp hc
    obtain rfl : t = .array r := Handle.toValue_inj.mp e
    obtain ⟨x, hx⟩ := held i rfl
    rw [inner_array, Heap.readStep_toValue, hx, Option.getD_some]
    exact hall x (List.mem_of_getElem? hx)

/-- A declared slot of a matching object or array holds what the schema of the slot accepts; an
element has to be there. -/
theorem Schema.DeclaresSlot.check_readStep (hd : s.DeclaresSlot st)
    (held : ∀ i, st = .index i → ∃ x, h.child? t st = some x)
    (hc : check c h s t.toValue = .ok ()) :
    check c h (s.inner st) (h.readStep t.toValue st) = .ok () := by
  induction hd with
  | node ho => exact ho.check_readStep held hc
  | any st => cases st <;> rfl
  | unknown st => cases st <;> rfl
  | nullable _ ih =>
    rw [check_nullable (by simp) (by simp)] at hc
    rw [inner_nullable]
    exact ih held hc
  | optional _ ih =>
    rw [check_optional (by simp)] at hc
    rw [inner_optional]
    exact ih held hc
  | union _ ih =>
    obtain ⟨b, hb, hcb⟩ := check_union_eq_ok_iff.mp hc
    rw [inner_union, check_union_eq_ok_iff]
    exact ⟨_, List.mem_map_of_mem hb, ih b hb held hcb⟩

end

/-! ## Writes -/

namespace Heap

section
variable {h : Heap} {t : Handle} {key : Key} {st : PathStep} {x : Value}

/-- A write leaves the graph of a value as it is that does not hold the target. -/
theorem sameGraph_setSlot (hx : ¬ h.Graph x t) (y : Value) :
    h.SameGraph (h.setSlot t key y) x := by
  intro u hu
  refine sameCell_setSlot ?_ y
  rintro rfl
  exact hx hu

theorem readStep_of_step? (hst : t.step? key = some st) :
    h.readStep t.toValue st = h.slot t key := by
  rw [slot_eq, hst, Option.bind_some, readStep_toValue]

theorem Writable.readStep_setSlot (hw : h.Writable t key st) (x : Value) :
    (h.setSlot t key x).readStep t.toValue st = x := by
  rw [readStep_toValue, (hw.stores x).slot, Option.getD_some]

end

end Heap

namespace Store

/-- The step that stores a value in a slot of a view's target. -/
def commit (s : Store) (v : View) (key : Key) (x : Value) :
    Step (Except GuardError WriteOutcome) :=
  ⟨.ok .committed, { s with heap := s.heap.setSlot v.target key x }, [.writeCommitted key.render]⟩

section
variable {s : Store} {v : View} {key : Key} {st : PathStep} {x : Value}

theorem set_eq_commit (hw : s.heap.Writable v.target key st)
    (hx : check v.options.catalogue s.heap (v.schema.inner st) x = .ok ()) :
    s.set v key x = s.commit v key x := by
  rw [set_of_writable hw, hx, commit]

/-- A value with which the target would match is one that the schema of the slot accepts. -/
theorem check_of_check_setSlot (hc : v.options.catalogue.Local)
    (hw : s.heap.Writable v.target key st) (hd : v.schema.DeclaresSlot st)
    (hx : ¬ s.heap.Graph x v.target)
    (hafter : check v.options.catalogue (s.heap.setSlot v.target key x) v.schema
      v.target.toValue = .ok ()) :
    check v.options.catalogue s.heap (v.schema.inner st) x = .ok () := by
  have stored : ∀ i, st = .index i →
      ∃ y, (s.heap.setSlot v.target key x).child? v.target st = some y :=
    fun _ _ => ⟨x, (hw.stores x).slot⟩
  have slot := hd.check_readStep stored hafter
  rw [hw.readStep_setSlot] at slot
  rwa [hc.check_congr (Heap.functions_setSlot s.heap v.target key x) _
    (Heap.sameGraph_setSlot hx x)] at slot

/-- What a declared slot of a matching target holds is accepted by the schema of the slot. -/
theorem check_slot (hw : s.heap.Writable v.target key st) (hd : v.schema.DeclaresSlot st)
    (below : ∀ r i, v.target = .array r → st = .index i → i < (s.heap.array r).length)
    (hv : check v.options.catalogue s.heap v.schema v.target.toValue = .ok ()) :
    check v.options.catalogue s.heap (v.schema.inner st) (s.heap.slot v.target key) = .ok () := by
  rw [← Heap.readStep_of_step? hw.1]
  refine hd.check_readStep (fun i hi => ?_) hv
  cases ht : v.target with
  | object r =>
    have hstep := hw.1
    rw [ht, hi] at hstep
    cases hstep
  | array r =>
    have hlt := below r i ht hi
    exact ⟨(s.heap.array r)[i], by rw [hi]; exact List.getElem?_eq_getElem hlt⟩

/-- At a slot that the schema of the view declares, every value apart from the target is committed
with which the target would match, if predicates look at nothing but what a value holds; and so is
what the slot of a matching target holds. -/
theorem set_commits_of_declared (hw : s.heap.Writable v.target key st)
    (hd : v.schema.DeclaresSlot st) :
    (v.options.catalogue.Local → ∀ x, ¬ s.heap.Graph x v.target →
      conforms v.options.catalogue (s.heap.setSlot v.target key x) v.schema v.target.toValue =
        true → s.set v key x = s.commit v key x) ∧
    (conforms v.options.catalogue s.heap v.schema v.target.toValue = true →
      (∀ r i, v.target = .array r → st = .index i → i < (s.heap.array r).length) →
      s.set v key (s.heap.slot v.target key) = s.commit v key (s.heap.slot v.target key)) := by
  constructor
  · intro hc x hx hafter
    exact set_eq_commit hw (check_of_check_setSlot hc hw hd hx (conforms_iff.mp hafter))
  · intro hv below
    exact set_eq_commit hw (check_slot hw hd below (conforms_iff.mp hv))

/-- A grid with a width and a list of compound rows, or one without a width and with anything as
its rows. -/
def gridSchema : Schema :=
  .nullable (.union [.object [("width", .tag "number"), ("rows", .array (.tag "object"))],
    .object [("width", .optional .never), ("rows", .any)]])

def gridStore : Store :=
  .ofHeap ((Heap.empty.setObject 0 (Std.ExtTreeMap.insert ∅ "rows" (.array 1))).setArray 1
    [.array 2])

def gridView : View := ⟨.object 0, gridSchema, 0, .strict .builtin, 1⟩

theorem declaresSlot_gridSchema : gridSchema.DeclaresSlot (.field "rows") := by
  refine .nullable (.union fun b hb => ?_)
  rcases List.mem_cons.mp hb with rfl | hb
  · exact .node (.field (List.mem_cons_of_mem _ List.mem_cons_self))
  · obtain rfl := List.mem_singleton.mp hb
    exact .node (.field (List.mem_cons_of_mem _ List.mem_cons_self))

/-- An empty row is stored in place of all rows, and the old rows can be written back. -/
theorem set_commits_of_declared_grid :
    set gridStore gridView (.name "rows") (.array 2) =
      commit gridStore gridView (.name "rows") (.array 2) ∧
    set gridStore gridView (.name "rows") (.array 1) =
      commit gridStore gridView (.name "rows") (.array 1) := by
  have writable : gridStore.heap.Writable gridView.target (.name "rows") (.field "rows") :=
    Heap.writable_iff.mpr (.inl ⟨0, rfl, rfl⟩)
  have apart : ¬ gridStore.heap.Graph (.array 2) gridView.target := by
    intro ht
    have only : gridView.target = .array 2 := by
      refine ht.closed (G := (· = .array 2)) (fun u hu => ?_) ?_
      · exact Handle.holds_toValue (t := .array 2) hu
      · rintro a st x u rfl hc -
        rw [Heap.child?_of_array_nil rfl] at hc
        cases hc
    cases only
  obtain ⟨fits, back⟩ := set_commits_of_declared writable declaresSlot_gridSchema
  exact ⟨fits Catalogue.kindOnly_builtin.isLocal _ apart (by decide), back (by decide) nofun⟩

end

end Store

end GuardedData
