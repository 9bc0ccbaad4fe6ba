import GuardedData.Proofs.Heap.Fresh
import GuardedData.Record

/-!
# Merging

`h.own? v k` is what an object has of its own under a name, whether or not that
is absence. `h.Merges a b m h'` says that `m` is a new object of `h'` which has
what `b` has of its own, and else what `a` has: a union in which the right side
wins. Merging makes one (`merges_mergeDefaults`), and the laws of such a union
follow from this alone.
-/

namespace GuardedData.Heap

/-- What an object has of its own under a name; nothing else has anything. -/
def own? (h : Heap) (v : Value) (k : String) : Option Value :=
  match v with
  | .object r => (h.object r)[k]?
  | _ => none

/-- The value is no handle, or a handle that was given out. -/
def Knows (h : Heap) (v : Value) : Prop := ∀ t, v.handle? = some t → t.ref < h.next

/-- The value `m` is a new object of `h'`, the union of `a` and `b` in which `b` wins. Nothing that
was there is changed. -/
structure Merges (h : Heap) (a b m : Value) (h' : Heap) : Prop where
  fresh : ∃ r, m = .object r ∧ h.next ≤ r ∧ r < h'.next
  own : ∀ k, h'.own? m k = (h.own? b k).or (h.own? a k)
  grows : h.Grows h'

section
variable {h h' h'' : Heap} {a b c m v : Value} {t : Handle}

/-! ## Known values -/

theorem knows_of_scalar (hv : v.handle? = none) : h.Knows v := by
  intro t ht
  rw [hv] at ht
  cases ht

theorem knows_toValue : h.Knows t.toValue ↔ t.ref < h.next := by
  unfold Knows
  rw [Handle.handle?_toValue]
  constructor
  · exact fun hk => hk t rfl
  · rintro hlt u ⟨⟩
    exact hlt

theorem Grows.own? (hg : h.Grows h') (hv : h.Knows v) (k : String) : h'.own? v k = h.own? v k := by
  cases v with
  | object r =>
    have same : h'.object r = h.object r := hg.cells (.object r) (hv (.object r) rfl)
    simp only [Heap.own?, same]
  | _ => rfl

theorem own?_of_kind_ne (hv : v.kind ≠ .object) (k : String) : h.own? v k = none := by
  cases v with
  | object r => exact absurd rfl hv
  | _ => rfl

/-! ## Merging makes a union -/

theorem getElem?_ofPairs_fieldsOf (h : Heap) (v : Value) (k : String) :
    (Properties.ofPairs (h.fieldsOf v))[k]? = h.own? v k := by
  cases v with
  | object r =>
    exact (Properties.getElem?_ofPairs_of_distinct (Properties.distinct_toList _) k).trans
      (Properties.get?_toList _ k)
  | _ => exact Std.ExtTreeMap.getElem?_empty

theorem merges_mergeDefaults (h : Heap) (a b : Value) :
    h.Merges a b (h.mergeDefaults a b).1 (h.mergeDefaults a b).2 where
  fresh := ⟨h.next, rfl, Nat.le_refl _, Nat.lt_succ_self _⟩
  own k := by
    have hobject : (h.mergeDefaults a b).2.object h.next =
        Properties.ofPairs (h.fieldsOf a ++ h.fieldsOf b) := h.object_setObject_self h.next _
    show ((h.mergeDefaults a b).2.object h.next)[k]? = _
    rw [hobject, Properties.getElem?_ofPairs_append, getElem?_ofPairs_fieldsOf,
      getElem?_ofPairs_fieldsOf]
  grows := grows_allocObject h _

/-! ## Laws of the union -/

theorem Merges.kind_eq (hm : h.Merges a b m h') : m.kind = .object := by
  obtain ⟨r, rfl, -, -⟩ := hm.fresh
  rfl

theorem Merges.knows (hm : h.Merges a b m h') : h'.Knows m := by
  obtain ⟨r, rfl, -, hlt⟩ := hm.fresh
  exact (knows_toValue (t := .object r)).mpr hlt

/-- The union is not the same as anything that was known. -/
theorem Merges.same_eq_false (hm : h.Merges a b m h') (hv : h.Knows v) : m.same v = false := by
  obtain ⟨r, rfl, hle, -⟩ := hm.fresh
  cases v with
  | object s =>
    have hlt : s < h.next := hv (.object s) rfl
    exact decide_eq_false (Nat.ne_of_gt (Nat.lt_of_lt_of_le hlt hle))
  | _ => rfl

theorem Merges.isSome_own? (hm : h.Merges a b m h') (k : String) :
    (h'.own? m k).isSome = true ↔ (h.own? a k).isSome = true ∨ (h.own? b k).isSome = true := by
  rw [hm.own, Option.isSome_or, Bool.or_eq_true]
  exact Or.comm

theorem Merges.own_later (hm : h.Merges a b m h') (hg : h'.Grows h'') (k : String) :
    h''.own? m k = (h.own? b k).or (h.own? a k) :=
  (hg.own? hm.knows k).trans (hm.own k)

/-- A union of three is the same whichever two of them are united first. -/
theorem Merges.assoc {ab bc left right : Value} {h₁ h₂ h₃ h₄ : Heap} (ha : h.Knows a)
    (hb : h.Knows b) (hc : h.Knows c) (hab : h.Merges a b ab h₁) (hleft : h₁.Merges ab c left h₂)
    (hbc : h₂.Merges b c bc h₃) (hright : h₃.Merges a bc right h₄) (k : String) :
    h₄.own? left k = h₄.own? right k := by
  have grows₂ : h.Grows h₂ := hab.grows.trans hleft.grows
  calc h₄.own? left k
      = (h₁.own? c k).or (h₁.own? ab k) := hleft.own_later (hbc.grows.trans hright.grows) k
    _ = (h.own? c k).or ((h.own? b k).or (h.own? a k)) := by rw [hab.grows.own? hc, hab.own]
    _ = ((h.own? c k).or (h.own? b k)).or (h.own? a k) := Option.or_assoc.symm
    _ = (h₃.own? bc k).or (h₃.own? a k) := by
        rw [hbc.own, (grows₂.trans hbc.grows).own? ha, grows₂.own? hb, grows₂.own? hc]
    _ = h₄.own? right k := (hright.own k).symm

theorem Merges.own_of_left (hm : h.Merges a b m h') (ha : a.kind ≠ .object) (k : String) :
    h'.own? m k = h.own? b k := by
  rw [hm.own, own?_of_kind_ne ha, Option.or_none]

theorem Merges.own_of_right (hm : h.Merges a b m h') (hb : b.kind ≠ .object) (k : String) :
    h'.own? m k = h.own? a k := by
  rw [hm.own, own?_of_kind_ne hb, Option.none_or]

theorem Merges.own_self (hm : h.Merges a a m h') (k : String) : h'.own? m k = h.own? a k := by
  rw [hm.own, Option.or_self]

/-- Merging is a union in which the right side wins. It makes a new object with the names of both
sides, each with the very value that the right side has there of its own, absence included, and
else the left side; nothing that was there changes. So it is associative, what is no object is
neutral on either side, and a value merged with itself is a copy of it. -/
theorem mergeDefaults_union (ha : h.Knows a) (hb : h.Knows b) (hc : h.Knows c) :
    let ab := h.mergeDefaults a b
    (ab.1.kind = .object ∧ ∀ v, h.Knows v → ab.1.same v = false) ∧
    (∀ k, (ab.2.own? ab.1 k).isSome = true ↔
      (h.own? a k).isSome = true ∨ (h.own? b k).isSome = true) ∧
    (∀ k, ab.2.own? ab.1 k = (h.own? b k).or (h.own? a k)) ∧
    (∀ t : Handle, a = t.toValue ∨ b = t.toValue ∨ t.ref < h.next → h.SameCell ab.2 t) ∧
    (let left := ab.2.mergeDefaults ab.1 c
      let bc := left.2.mergeDefaults b c
      let right := bc.2.mergeDefaults a bc.1
      ∀ k, right.2.own? left.1 k = right.2.own? right.1 k) ∧
    (a.kind ≠ .object → ∀ k, ab.2.own? ab.1 k = h.own? b k) ∧
    (b.kind ≠ .object → ∀ k, ab.2.own? ab.1 k = h.own? a k) ∧
    (let aa := h.mergeDefaults a a
      ∀ k, aa.2.own? aa.1 k = h.own? a k) := by
  intro ab
  have hm : h.Merges a b ab.1 ab.2 := merges_mergeDefaults h a b
  refine ⟨⟨hm.kind_eq, fun v => hm.same_eq_false⟩, hm.isSome_own?, hm.own, ?_, ?_,
    hm.own_of_left, hm.own_of_right, (merges_mergeDefaults h a a).own_self⟩
  · rintro t (rfl | rfl | hlt)
    · exact hm.grows.cells t (knows_toValue.mp ha)
    · exact hm.grows.cells t (knows_toValue.mp hb)
    · exact hm.grows.cells t hlt
  · exact hm.assoc ha hb hc (merges_mergeDefaults _ _ _) (merges_mergeDefaults _ _ _)
      (merges_mergeDefaults _ _ _)

end

/-- An empty object, one that holds it and a number, and one that has absence in the place of the
number. -/
def socketHeap : Heap :=
  let h := (empty.allocObject ∅).2
  let h := (h.allocFields [("tls", .object 0), ("port", .number 80)]).2
  (h.allocFields [("port", .undefined), ("host", .string "h")]).2

/-- The one object is merged over the other, over itself, and with what is no object. -/
theorem mergeDefaults_union_socket :
    let ab := socketHeap.mergeDefaults (.object 1) (.object 2)
    (ab.1.same (.object 1) = false ∧ ab.1.same (.object 2) = false) ∧
    ab.2.own? ab.1 "port" = some .undefined ∧ ab.2.own? ab.1 "tls" = some (.object 0) ∧
    ab.2.own? ab.1 "host" = some (.string "h") ∧ ab.2.own? ab.1 "lost" = none ∧
    socketHeap.SameCell ab.2 (.object 1) ∧ socketHeap.SameCell ab.2 (.object 2) ∧
    (∀ k, (socketHeap.mergeDefaults .null (.object 2)).2.own? (.object 3) k =
      socketHeap.own? (.object 2) k) ∧
    ∀ k, (socketHeap.mergeDefaults (.object 2) .null).2.own? (.object 3) k =
      socketHeap.own? (.object 2) k := by
  intro ab
  have known (r : Ref) (hr : r < 3) : socketHeap.Knows (.object r) :=
    (knows_toValue (t := .object r)).mpr hr
  have scalar : socketHeap.Knows .null := knows_of_scalar rfl
  have h1 := known 1 (by decide)
  have h2 := known 2 (by decide)
  obtain ⟨⟨-, hnew⟩, -, hown, hkept, -⟩ := mergeDefaults_union h1 h2 scalar
  obtain ⟨-, -, -, -, -, hleft, -⟩ := mergeDefaults_union scalar h2 h1
  obtain ⟨-, -, -, -, -, -, hright, -⟩ := mergeDefaults_union h2 scalar h1
  refine ⟨⟨hnew _ h1, hnew _ h2⟩, ?_, ?_, ?_, ?_, hkept _ (.inl rfl), hkept _ (.inr (.inl rfl)),
    hleft (by decide), hright (by decide)⟩
  · exact (hown "port").trans rfl
  · exact (hown "tls").trans rfl
  · exact (hown "host").trans rfl
  · exact (hown "lost").trans rfl

end GuardedData.Heap
