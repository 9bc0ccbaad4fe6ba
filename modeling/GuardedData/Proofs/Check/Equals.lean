import GuardedData.Proofs.Check.Acceptance
import GuardedData.Proofs.Heap.Equality

/-!
# Checks of equal values

Values `Agree` if they are the same, or equal without cycles. Values that agree
have the same kind and hold, at each step, values that agree, so that a check
gives both the same answer, unless one of the predicates of its catalogue tells
equal values apart (`Catalogue.Respects`). The same value need not equal itself:
where two equal values share an object or array, it may have a NaN inside.
-/

namespace GuardedData

/-- No predicate tells equal values without cycles apart. -/
def Catalogue.Respects (c : Catalogue) (h : Heap) : Prop :=
  ∀ (name : String) (p : TagPredicate), c.entries[name]? = some p →
    ∀ a b, h.Unwinds a → h.Unwinds b → h.eq a b = true → p h a = p h b

namespace Heap

/-- The values are the same, or equal without cycles. -/
def Agree (h : Heap) (a b : Value) : Prop :=
  a = b ∨ h.Unwinds a ∧ h.Unwinds b ∧ h.eq a b = true

section
variable {c : Catalogue} {h : Heap} {a b : Value} {t u : Handle}

theorem Agree.kind_eq (hab : h.Agree a b) : a.kind = b.kind := by
  rcases hab with rfl | ⟨-, -, hab⟩
  · rfl
  · exact (matched_of_eqUpTo hab).kind_eq

/-- Handles that agree hold values that agree. -/
theorem Agree.child (hab : h.Agree t.toValue u.toValue) (st : PathStep) :
    Option.Rel h.Agree (h.child? t st) (h.child? u st) := by
  rcases hab with e | ⟨ha, hb, hab⟩
  · rw [Handle.toValue_inj.mp e]
    exact Related.rel_refl (fun x => .inl rfl) _
  · rw [ha.eq_unfold hb] at hab
    obtain ⟨-, -, hh⟩ := Value.eqWith_iff.mp hab
    rw [Handle.handle?_toValue, Handle.handle?_toValue] at hh
    cases hh with
    | some hh =>
      rcases eqHandles_iff.mp hh with rfl | ⟨-, hc⟩
      · exact Related.rel_refl (fun x => .inl rfl) _
      · exact Related.rel_imp (hc st) fun x y hx hy hxy =>
          .inr ⟨ha.child (.self t) hx, hb.child (.self u) hy, hxy⟩

theorem Agree.field (hab : h.Agree a b) (k : String) : h.Agree (h.field a k) (h.field b k) := by
  have hk := hab.kind_eq
  cases a with
  | object r =>
    cases b with
    | object s =>
      exact Related.rel_getD (hab.child (t := .object r) (u := .object s) (.field k)) (.inl rfl)
    | _ => cases hk
  | _ =>
    cases b with
    | object s => cases hk
    | _ => exact .inl rfl

theorem Agree.elements {r s : Ref} (hab : h.Agree (.array r) (.array s)) :
    List.Forall₂ h.Agree (h.array r) (h.array s) :=
  Related.forall₂_iff_getElem?.mpr fun i =>
    hab.child (t := .array r) (u := .array s) (.index i)

theorem Agree.accepts? (hc : c.Respects h) (hab : h.Agree a b) (name : String) :
    c.accepts? h name a = c.accepts? h name b := by
  rcases hab with rfl | ⟨ha, hb, hab⟩
  · rfl
  · unfold Catalogue.accepts?
    cases hp : c.entries[name]? with
    | none => rfl
    | some p => exact congrArg some (hc name p hp a b ha hb hab)

theorem Agree.check_eq (hc : c.Respects h) (s : Schema) (hab : h.Agree a b) :
    check c h s a = check c h s b := by
  refine CheckRelation.check (P := fun _ a b => h.Agree a b) ?_ hab
  exact
    { kind := Agree.kind_eq
      accepts := fun hab => hab.accepts? hc _
      nullable := id
      optional := id
      branch := fun hab _ => hab
      field := fun hab _ => hab.field _
      items := Agree.elements }

end

end Heap

theorem Catalogue.KindOnly.respects {c : Catalogue} (hc : c.KindOnly) (h : Heap) :
    c.Respects h :=
  fun name p hp a b ha hb hab => hc name p hp h h a b
    (Heap.Agree.kind_eq (.inr ⟨ha, hb, hab⟩))

/-- Equality is symmetric and transitive, holds of a value and itself unless a NaN is in the value
and not only in its objects and arrays, and follows from identity. Between values without cycles it
compares contents, wherever they are shared or copied, and a check whose predicates do not tell
equal values apart gives both of them the same answer. -/
theorem Heap.eq_partialEquivalence (h : Heap) :
    (∀ a b, h.eq a b = true → h.eq b a = true) ∧
    (∀ a b c, h.eq a b = true → h.eq b c = true → h.eq a c = true) ∧
    (∀ v, h.eq v v = true ↔ ¬ v.HoldsNaN) ∧
    (∀ a b, a.same b = true → h.eq a b = true) ∧
    ∀ a b, h.Unwinds a → h.Unwinds b →
      h.eq a b = Value.eqWith (h.eqHandles h.eq) a b ∧
      (h.eq a b = true → ∀ c : Catalogue, c.Respects h →
        ∀ s, check c h s a = check c h s b) :=
  ⟨fun _ _ => eqUpTo_symm, fun _ _ _ => eqUpTo_trans, fun _ => eqUpTo_self_iff,
    fun _ _ => eqUpTo_of_same, fun _ _ ha hb => ⟨ha.eq_unfold hb,
      fun hab _ hc s => Agree.check_eq hc s (.inr ⟨ha, hb, hab⟩)⟩⟩

/-- Two bills with lists of their own of the same entries, and one list of rates, which has a
NaN. -/
def billHeap : Heap :=
  let rates := Heap.empty.allocArray [.number (0 / 0)]
  let list := rates.2.allocArray [.bigint 12, .string "on"]
  let copy := list.2.allocArray [.bigint 12, .string "on"]
  let bill := copy.2.allocFields [("list", list.1), ("rates", rates.1)]
  (bill.2.allocFields [("list", copy.1), ("rates", rates.1)]).2

def billSchema : Schema := .object [("list", .array (.tag "bigint"))]

theorem layered_bill : billHeap.Layered := by
  have scalars {h : Heap} {items : List Value}
      (hs : items.all fun v => v.handle?.isNone && v.parts.isEmpty) :
      ∀ x ∈ items, ∀ u, x.Holds u → u.ref < h.next ∧ h.Allocated u := by
    intro x hx u hu
    have hx := List.all_eq_true.mp hs x hx
    rw [Bool.and_eq_true, Option.isNone_iff_eq_none, List.isEmpty_iff] at hx
    exact absurd hu (Value.not_holds_of_scalar hx.1 hx.2)
  have older {h : Heap} {t : Handle} (ht : t.ref < h.next ∧ h.Allocated t) :
      ∀ u, t.toValue.Holds u → u.ref < h.next ∧ h.Allocated u :=
    fun _ hu => Handle.holds_toValue hu ▸ ht
  refine Heap.Layered.object (.object (.array (.array (.array Heap.layered_empty (scalars rfl))
    (scalars rfl)) (scalars rfl)) ?_) ?_
  · exact List.forall_mem_cons.mpr ⟨older (t := .array 1) (by decide),
      List.forall_mem_cons.mpr ⟨older (t := .array 0) (by decide), nofun⟩⟩
  · exact List.forall_mem_cons.mpr ⟨older (t := .array 2) (by decide),
      List.forall_mem_cons.mpr ⟨older (t := .array 0) (by decide), nofun⟩⟩

theorem unwinds_bill {r : Ref} (hr : billHeap.Allocated (.object r)) :
    billHeap.Unwinds (.object r) :=
  layered_bill.unwinds fun _ ht => Handle.holds_toValue (t := .object r) ht ▸ hr

/-- The bills are equal both ways, though their rates have a NaN in them, which makes a set of it
differ from itself; both are refused in the same words. -/
theorem Heap.eq_partialEquivalence_bill :
    billHeap.Unwinds (.object 3) ∧ billHeap.Unwinds (.object 4) ∧
    Catalogue.builtin.Respects billHeap ∧
    billHeap.eq (.object 3) (.object 4) = true ∧ billHeap.eq (.object 4) (.object 3) = true ∧
    billHeap.eq (.object 3) (.object 3) = true ∧
    (billHeap.eq (.set [.number (0 / 0)]) (.set [.number (0 / 0)]) = true ↔
      ¬ (Value.set [.number (0 / 0)]).HoldsNaN) ∧
    (Value.array 0).same (.array 0) = true ∧ billHeap.eq (.array 0) (.array 0) = true ∧
    billHeap.eq (.object 3) (.object 4) =
      Value.eqWith (billHeap.eqHandles billHeap.eq) (.object 3) (.object 4) ∧
    check .builtin billHeap billSchema (.object 3) =
      .error ⟨.kind, "bigint", "string", [.field "list", .index 1]⟩ ∧
    check .builtin billHeap billSchema (.object 3) =
      check .builtin billHeap billSchema (.object 4) := by
  obtain ⟨symm, trans, self, same, unfold⟩ := Heap.eq_partialEquivalence billHeap
  have bill : billHeap.Unwinds (.object 3) := unwinds_bill (by decide)
  have copy : billHeap.Unwinds (.object 4) := unwinds_bill (by decide)
  have respects : Catalogue.builtin.Respects billHeap := Catalogue.kindOnly_builtin.respects _
  have equal : billHeap.eq (.object 3) (.object 4) = true := by decide
  obtain ⟨contents, checked⟩ := unfold _ _ bill copy
  exact ⟨bill, copy, respects, equal, symm _ _ equal, trans _ _ _ equal (symm _ _ equal),
    self _, rfl, same _ _ rfl, contents, by decide, checked equal _ respects _⟩

end GuardedData
