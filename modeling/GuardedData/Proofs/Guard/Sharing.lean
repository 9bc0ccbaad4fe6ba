import GuardedData.Proofs.Guard.Memory
import GuardedData.Record

/-!
# What values share

`Graph h v t` says that a value holds an object or array, maybe in something
else that it holds; here what maps and sets hold counts too. `Nested h v t` says
that an object or array is in a field of `v`. A catalogue is `Local` if its
predicates depend on what a value holds only; then so does every check
(`Catalogue.Local.check`).
-/

namespace GuardedData

theorem Value.not_holds_undefined (t : Handle) : ¬ Value.undefined.Holds t :=
  not_holds_of_scalar rfl rfl

namespace Heap

/-- The value holds the object or array, or something that it holds does. -/
inductive Graph (h : Heap) (v : Value) : Handle → Prop where
  | held {t : Handle} : v.Holds t → Graph h v t
  | inner {a t : Handle} {st : PathStep} {x : Value} : Graph h v a → h.child? a st = some x →
      x.Holds t → Graph h v t

/-- The object or array is in the graph of a field of the value. -/
def Nested (h : Heap) (v : Value) (t : Handle) : Prop := ∃ p ∈ h.fieldsOf v, h.Graph p.2 t

/-- The other heap holds the same in the graph of the value. -/
def SameGraph (h h' : Heap) (v : Value) : Prop := ∀ t, h.Graph v t → h.SameCell h' t

section
variable {h h' : Heap} {v x : Value} {a t : Handle} {st : PathStep}

theorem Graph.of_child (hc : h.child? a st = some x) (ht : h.Graph x t) :
    h.Graph a.toValue t := by
  induction ht with
  | held hh => exact .inner (.held (.self a)) hc hh
  | inner _ hc' hh ih => exact .inner ih hc' hh

/-- A part of the heap that has what a value holds, and what its own cells hold, has its graph. -/
theorem Graph.closed {G : Handle → Prop} (hv : ∀ t, v.Holds t → G t)
    (hG : ∀ a st x t, G a → h.child? a st = some x → x.Holds t → G t) (ht : h.Graph v t) :
    G t := by
  induction ht with
  | held hh => exact hv _ hh
  | inner _ hc hh ih => exact hG _ _ _ _ ih hc hh

/-- The graph of a value depends on the cells in it only. -/
theorem SameGraph.graph_iff (hs : h.SameGraph h' v) : h'.Graph v t ↔ h.Graph v t := by
  constructor
  · refine Graph.closed (fun t hh => .held hh) fun a st x t ha hc hh => ?_
    rw [(hs a ha).child?] at hc
    exact .inner ha hc hh
  · intro ht
    induction ht with
    | held hh => exact .held hh
    | inner ha hc hh ih => exact .inner ih (((hs _ ha).child? _).trans hc) hh

theorem mem_fieldsOf {k : String} (hp : (k, x) ∈ h.fieldsOf v) :
    ∃ r, v = .object r ∧ h.child? (.object r) (.field k) = some x := by
  cases v with
  | object r => exact ⟨r, rfl, Std.ExtTreeMap.mem_toList_iff_getElem?_eq_some.mp hp⟩
  | _ => cases hp

theorem Nested.graph (ht : h.Nested v t) : h.Graph v t := by
  obtain ⟨⟨k, x⟩, hp, ht⟩ := ht
  obtain ⟨r, rfl, hc⟩ := mem_fieldsOf hp
  exact .of_child (a := .object r) hc ht

theorem Nested.child (ha : h.Nested v a) (hc : h.child? a st = some x) (hh : x.Holds t) :
    h.Nested v t := by
  obtain ⟨p, hp, ha⟩ := ha
  exact ⟨p, hp, .inner ha hc hh⟩

theorem SameGraph.fieldsOf (hs : h.SameGraph h' v) : h'.fieldsOf v = h.fieldsOf v := by
  cases v with
  | object r =>
    have same : h'.object r = h.object r := hs (.object r) (.held (.self (.object r)))
    simp only [Heap.fieldsOf, same]
  | _ => rfl

theorem SameGraph.index {r : Ref} (hs : h.SameGraph h' (.array r)) :
    h'.array r = h.array r ∧ ∀ x ∈ h.array r, h.SameGraph h' x := by
  refine ⟨hs (.array r) (.held (.self (.array r))), fun x hx t ht => ?_⟩
  obtain ⟨i, hi⟩ := List.getElem?_of_mem hx
  have hc : h.child? (.array r) (.index i) = some x := hi
  exact hs t (.of_child hc ht)

theorem not_graph_undefined : ¬ h.Graph .undefined t :=
  fun ht => ht.closed (G := fun _ => False) Value.not_holds_undefined fun _ _ _ _ ha _ _ => ha

theorem SameGraph.field (hs : h.SameGraph h' v) (k : String) :
    h'.field v k = h.field v k ∧ h.SameGraph h' (h.field v k) := by
  constructor
  · cases v with
    | object r =>
      have same : h'.object r = h.object r := hs (.object r) (.held (.self (.object r)))
      simp only [Heap.field, same]
    | _ => rfl
  · intro t ht
    rcases h.field_cases v k with e | ⟨r, rfl, hc⟩
    · rw [e] at ht
      exact absurd ht not_graph_undefined
    · exact hs t (.of_child (a := .object r) hc ht)

end

end Heap

/-! ## Predicates that look at what a value holds -/

/-- Every predicate depends only on the value, on what it holds, and on the functions. -/
def Catalogue.Local (c : Catalogue) : Prop :=
  ∀ (name : String) (p : TagPredicate), c.entries[name]? = some p → ∀ (h h' : Heap) (v : Value),
    h'.functions = h.functions → h.SameGraph h' v → p h' v = p h v

theorem Catalogue.KindOnly.isLocal {c : Catalogue} (hc : c.KindOnly) : c.Local :=
  fun name p hp h h' v _ _ => hc name p hp h' h v v rfl

/-- The check of a value depends only on what it holds. -/
theorem Catalogue.Local.check_congr {c : Catalogue} (hc : c.Local) {h h' : Heap}
    (hf : h'.functions = h.functions) (s : Schema) {v : Value} (hs : h.SameGraph h' v) :
    check c h' s v = check c h s v := by
  refine check_congr_of (fun name v hv => ?_) (fun r hr => hr.index) (fun v k hv => hv.field k) s hs
  unfold Catalogue.accepts?
  cases hp : c.entries[name]? with
  | none => rfl
  | some p => exact congrArg some (hc name p hp h h' v hf hv)

end GuardedData
