import GuardedData.Proofs.Check.Acceptance

/-!
# Failing places

A check visits places: it goes through declared fields and array elements,
looks through modifiers, and never enters a union. `Place h s v p n w` says
that the place at the end of `p` has the schema node `n` and the value `w`;
`ownMismatch?` is what a node says of the value itself. A place fails where its
node rejects its value, and a check succeeds exactly when no place fails.
-/

namespace GuardedData

/-- The schema that a modifier hands the value on to. -/
def Schema.opens : Schema → Value → Option Schema
  | .nullable inner, v => if v.isUndefined || v.isNull then none else some inner
  | .optional inner, v => if v.isUndefined then none else some inner
  | _, _ => none

/-- What a modifier opens to is a node of it and has the same inner places. -/
theorem Schema.within_of_opens {s n : Schema} {v : Value} (e : s.opens v = some n) :
    Schema.Within n s ∧ ∀ st, s.inner st = n.inner st := by
  cases s with
  | nullable m =>
    simp only [Schema.opens] at e
    split at e
    · cases e
    · exact Option.some.inj e ▸ ⟨.nullable .refl, inner_nullable m⟩
  | optional m =>
    simp only [Schema.opens] at e
    split at e
    · cases e
    · exact Option.some.inj e ▸ ⟨.optional .refl, inner_optional m⟩
  | _ => cases e

/-- What a node says of a value before it looks inside. -/
def Schema.ownMismatch? (c : Catalogue) (h : Heap) : Schema → Value → Option Mismatch
  | .undefined, v => if v.isUndefined then none else some (.absence "undefined" v.kindName)
  | .null, v => if v.isNull then none else some (.kind "null" v.kindName)
  | .tag name, v => if c.accepts? h name v == some true then none else some (.kind name v.kindName)
  | .literal l, v => if l.sameKind v then none else some (.kind l.kindName v.kindName)
  | .array items, v =>
    if v.kind = .array then none else some (.shape (Schema.array items).describe v.kindName)
  | .object fields, v =>
    if v.isUndefined || v.isNull then some (.shape (Schema.object fields).describe v.kindName)
    else none
  | .nullable inner, v => if v.isUndefined then some (.absence inner.describe "undefined") else none
  | .optional _, _ => none
  | .union branches, v =>
    if acceptsSome c h branches v then none
    else some (.unionExhausted (Schema.union branches).describe v.kindName)
  | .any, _ => none
  | .unknown, _ => none
  | .never, v => some (.never v.kindName)

/-- The place at the end of a path inside a value, with its node and its value. -/
inductive Place (h : Heap) : Schema → Value → Path → Schema → Value → Prop where
  | here {s : Schema} {v : Value} : s.opens v = none → Place h s v [] s v
  | modifier {s inner n : Schema} {v w : Value} {p : Path} :
      s.opens v = some inner → Place h inner v p n w → Place h s v p n w
  | field {fields : List (String × Schema)} {k : String} {s n : Schema} {v w : Value} {p : Path} :
      v.isUndefined = false → v.isNull = false → (k, s) ∈ fields →
      Place h s (h.field v k) p n w → Place h (.object fields) v (.field k :: p) n w
  | element {items n : Schema} {r : Ref} {i : Nat} {x w : Value} {p : Path} :
      (h.array r)[i]? = some x → Place h items x p n w →
      Place h (.array items) (.array r) (.index i :: p) n w

/-- The node of the place at the end of the path rejects the value there. -/
def FailsAt (c : Catalogue) (h : Heap) (s : Schema) (v : Value) (p : Path) : Prop :=
  ∃ n w, Place h s v p n w ∧ (n.ownMismatch? c h w).isSome

section
variable {c : Catalogue} {h : Heap} {s : Schema} {v : Value} {p : Path}

/-! ## Failing places by the form of the schema -/

theorem failsAt_of_opens {inner : Schema} (e : s.opens v = some inner) :
    FailsAt c h s v p ↔ FailsAt c h inner v p := by
  constructor
  · rintro ⟨n, w, hp, hm⟩
    cases hp with
    | here e' => rw [e] at e'; cases e'
    | modifier e' hp => rw [e] at e'; cases e'; exact ⟨n, w, hp, hm⟩
    | field _ _ _ _ => simp [Schema.opens] at e
    | element _ _ => simp [Schema.opens] at e
  · rintro ⟨n, w, hp, hm⟩
    exact ⟨n, w, .modifier e hp, hm⟩

theorem failsAt_nil (e : s.opens v = none) :
    FailsAt c h s v [] ↔ (s.ownMismatch? c h v).isSome := by
  constructor
  · rintro ⟨n, w, hp, hm⟩
    cases hp with
    | here _ => exact hm
    | modifier e' _ => rw [e] at e'; cases e'
  · exact fun hm => ⟨s, v, .here e, hm⟩

theorem failsAt_field {fields : List (String × Schema)} {k : String} :
    FailsAt c h (.object fields) v (.field k :: p) ↔ v.isUndefined = false ∧ v.isNull = false ∧
      ∃ s, (k, s) ∈ fields ∧ FailsAt c h s (h.field v k) p := by
  constructor
  · rintro ⟨n, w, hp, hm⟩
    cases hp with
    | modifier e _ => simp [Schema.opens] at e
    | field hu hn hk hp => exact ⟨hu, hn, _, hk, n, w, hp, hm⟩
  · rintro ⟨hu, hn, s, hk, n, w, hp, hm⟩
    exact ⟨n, w, .field hu hn hk hp, hm⟩

theorem failsAt_element {items : Schema} {i : Nat} :
    FailsAt c h (.array items) v (.index i :: p) ↔ ∃ r x, v = .array r ∧
      (h.array r)[i]? = some x ∧ FailsAt c h items x p := by
  constructor
  · rintro ⟨n, w, hp, hm⟩
    cases hp with
    | modifier e _ => simp [Schema.opens] at e
    | element hx hp => exact ⟨_, _, rfl, hx, n, w, hp, hm⟩
  · rintro ⟨r, x, rfl, hx, n, w, hp, hm⟩
    exact ⟨n, w, .element hx hp, hm⟩

/-- Past its first place a failing place lies in a field or in an element. -/
theorem FailsAt.cons_inv {st : PathStep} (e : s.opens v = none) (hf : FailsAt c h s v (st :: p)) :
    (∃ fields k, s = .object fields ∧ st = .field k) ∨
      ∃ items i, s = .array items ∧ st = .index i := by
  obtain ⟨n, w, hp, _⟩ := hf
  cases hp with
  | modifier e' _ => rw [e] at e'; cases e'
  | field _ _ _ _ => exact .inl ⟨_, _, rfl, rfl⟩
  | element _ _ => exact .inr ⟨_, _, rfl, rfl⟩

/-! ## Checks and failing places -/

/-- A node that looks inside nothing is checked by what it says itself. -/
theorem check_of_leaf (e : s.opens v = none) (ha : ∀ items, s ≠ .array items)
    (ho : ∀ fields, s ≠ .object fields) :
    check c h s v = .ok () ↔ s.ownMismatch? c h v = none := by
  cases s with
  | array items => exact absurd rfl (ha items)
  | object fields => exact absurd rfl (ho fields)
  | nullable inner =>
    simp only [Schema.opens] at e
    cases hu : v.isUndefined <;> cases hn : v.isNull <;>
      simp [check, Schema.ownMismatch?, hu, hn] at e ⊢
  | optional inner =>
    simp only [Schema.opens] at e
    cases hu : v.isUndefined <;> simp [check, Schema.ownMismatch?, hu] at e ⊢
  | any => simp [check, Schema.ownMismatch?]
  | unknown => simp [check, Schema.ownMismatch?]
  | never => simp [check, Schema.ownMismatch?]
  | _ =>
    simp only [check, Schema.ownMismatch?, require_eq_ok_iff]
    split <;> simp_all

theorem check_of_opens {inner : Schema} (e : s.opens v = some inner) :
    check c h s v = check c h inner v := by
  cases s with
  | nullable inner' =>
    cases hu : v.isUndefined <;> cases hn : v.isNull <;> simp [Schema.opens, hu, hn] at e
    exact e ▸ check_nullable hu hn
  | optional inner' =>
    cases hu : v.isUndefined <;> simp [Schema.opens, hu] at e
    exact e ▸ check_optional hu
  | _ => simp [Schema.opens] at e

theorem check_eq_ok_iff_of_leaf (e : s.opens v = none) (ha : ∀ items, s ≠ .array items)
    (ho : ∀ fields, s ≠ .object fields) : check c h s v = .ok () ↔ ∀ p, ¬ FailsAt c h s v p := by
  rw [check_of_leaf e ha ho]
  constructor
  · intro hm p hf
    cases p with
    | nil => simp [failsAt_nil e, hm] at hf
    | cons st p =>
      rcases hf.cons_inv e with ⟨fields, _, es, _⟩ | ⟨items, _, es, _⟩
      · exact ho fields es
      · exact ha items es
  · intro hall
    simpa [failsAt_nil e] using hall []

/-- A modifier is checked as the leaf that it is, or as the schema that it opens to. -/
theorem check_eq_ok_iff_of_modifier {inner : Schema} (ha : ∀ items, s ≠ .array items)
    (ho : ∀ fields, s ≠ .object fields) (e : s.opens v = none ∨ s.opens v = some inner)
    (ih : check c h inner v = .ok () ↔ ∀ p, ¬ FailsAt c h inner v p) :
    check c h s v = .ok () ↔ ∀ p, ¬ FailsAt c h s v p := by
  rcases e with e | e
  · exact check_eq_ok_iff_of_leaf e ha ho
  · simp only [check_of_opens e, failsAt_of_opens e, ih]

theorem check_eq_ok_iff_of_array {items : Schema}
    (ih : ∀ x, check c h items x = .ok () ↔ ∀ p, ¬ FailsAt c h items x p) :
    check c h (.array items) v = .ok () ↔ ∀ p, ¬ FailsAt c h (.array items) v p := by
  rw [check_array_eq_ok_iff]
  constructor
  · rintro ⟨r, rfl, hall⟩ p hf
    cases p with
    | nil =>
      rw [failsAt_nil rfl] at hf
      simp [Schema.ownMismatch?, Value.kind] at hf
    | cons st p =>
      cases st with
      | field k => simpa using hf.cons_inv rfl
      | index i =>
        obtain ⟨r', x, e, hx, hf⟩ := failsAt_element.mp hf
        cases e
        exact (ih x).mp (hall x (List.mem_of_getElem? hx)) p hf
  · intro hall
    have hk : v.kind = .array := by
      have := mt (failsAt_nil (s := .array items) rfl).mpr (hall [])
      simpa [Schema.ownMismatch?] using this
    cases v with
    | array r =>
      refine ⟨r, rfl, fun x hx => (ih x).mpr fun p hf => ?_⟩
      obtain ⟨i, hi⟩ := List.getElem?_of_mem hx
      exact hall (.index i :: p) (failsAt_element.mpr ⟨r, x, rfl, hi, hf⟩)
    | _ => simp [Value.kind] at hk

theorem check_eq_ok_iff_of_object {fields : List (String × Schema)}
    (ih : ∀ k s, (k, s) ∈ fields → ∀ x, check c h s x = .ok () ↔ ∀ p, ¬ FailsAt c h s x p) :
    check c h (.object fields) v = .ok () ↔ ∀ p, ¬ FailsAt c h (.object fields) v p := by
  rw [check_object_eq_ok_iff]
  constructor
  · rintro ⟨hu, hn, hall⟩ p hf
    cases p with
    | nil =>
      rw [failsAt_nil rfl] at hf
      simp [Schema.ownMismatch?, hu, hn] at hf
    | cons st p =>
      cases st with
      | field k =>
        obtain ⟨_, _, s, hk, hf⟩ := failsAt_field.mp hf
        exact (ih k s hk _).mp (hall k s hk) p hf
      | index i => simpa using hf.cons_inv rfl
  · intro hall
    have hv : v.isUndefined = false ∧ v.isNull = false := by
      have := mt (failsAt_nil (s := .object fields) rfl).mpr (hall [])
      simpa [Schema.ownMismatch?] using this
    refine ⟨hv.1, hv.2, fun k s hk => (ih k s hk _).mpr fun p hf => ?_⟩
    exact hall (.field k :: p) (failsAt_field.mpr ⟨hv.1, hv.2, s, hk, hf⟩)

theorem check_eq_ok_iff : check c h s v = .ok () ↔ ∀ p, ¬ FailsAt c h s v p := by
  induction s generalizing v with
  | array items ih => exact check_eq_ok_iff_of_array fun _ => ih
  | object fields ih => exact check_eq_ok_iff_of_object fun k s hk _ => ih k s hk
  | nullable inner ih =>
    refine check_eq_ok_iff_of_modifier nofun nofun ?_ ih
    simp only [Schema.opens]
    split <;> simp
  | optional inner ih =>
    refine check_eq_ok_iff_of_modifier nofun nofun ?_ ih
    simp only [Schema.opens]
    split <;> simp
  | _ => exact check_eq_ok_iff_of_leaf rfl nofun nofun

end

/-! ## Agreement of heaps -/

section
variable {c : Catalogue} {h h' : Heap}

/-- What a node says of a value depends on the heap through a union only. -/
theorem Schema.ownMismatch?_congr (hc : c.KindOnly) (n : Schema) (w : Value)
    (hun : ∀ branches, n = .union branches → conforms c h' n w = conforms c h n w) :
    n.ownMismatch? c h' w = n.ownMismatch? c h w := by
  cases n with
  | tag name => simp only [Schema.ownMismatch?, hc.accepts? h' h name rfl]
  | union branches =>
    have := hun branches rfl
    rw [conforms_union, conforms_union] at this
    simp only [Schema.ownMismatch?, this]
  | _ => rfl

/-- Where two heaps agree on the graph of a value, its places are the same. -/
theorem Place.congr {s n : Schema} {v w : Value} {p : Path} (hp : Place h' s v p n w)
    (hs : ∀ t, h.Reaches v t → h.SameCell h' t) :
    Place h s v p n w ∧ ∀ t, h.Reaches w t → h.Reaches v t := by
  induction hp with
  | here e => exact ⟨.here e, fun _ ht => ht⟩
  | modifier e _ ih =>
    obtain ⟨hp, hr⟩ := ih hs
    exact ⟨.modifier e hp, hr⟩
  | field hu hn hk _ ih =>
    rw [Heap.field_congr hs] at ih
    obtain ⟨hp, hr⟩ := ih fun t ht => hs t ht.of_field
    exact ⟨.field hu hn hk hp, fun t ht => (hr t ht).of_field⟩
  | @element items n r i x w p hx _ ih =>
    have e : h'.array r = h.array r := hs (.array r) (.refl h (.array r))
    rw [e] at hx
    have hx' := List.mem_of_getElem? hx
    obtain ⟨hp, hr⟩ := ih fun t ht => hs t (ht.of_mem_array hx')
    exact ⟨.element hx hp, fun t ht => (hr t ht).of_mem_array hx'⟩

/-- Where two heaps agree on the graph of a value, no place fails in one only. -/
theorem FailsAt.congr {s : Schema} {v : Value} {p : Path} (hf : FailsAt c h' s v p)
    (hc : c.KindOnly) (hs : ∀ t, h.Reaches v t → h.SameCell h' t) : FailsAt c h s v p := by
  obtain ⟨n, w, hp, hm⟩ := hf
  obtain ⟨hp, hr⟩ := hp.congr hs
  refine ⟨n, w, hp, ?_⟩
  rwa [← Schema.ownMismatch?_congr hc n w fun _ _ => ?_]
  rw [conforms, conforms, check_congr hc n fun t ht => hs t (hr t ht)]

end

end GuardedData
