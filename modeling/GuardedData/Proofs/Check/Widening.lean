import GuardedData.Proofs.Check.Acceptance
import GuardedData.Proofs.Related

/-!
# Wider schemas

`s.Refines c h t` says that `t` accepts whatever `s` does. Each way to build a
schema out of others keeps that (`Refines.array` and so on). A `Template` is a
schema with holes, and `C.fill s` puts `s` into all of them; what refines in the
holes refines as a whole (`Refines.fill`).
-/

namespace GuardedData

namespace Schema

/-- Every value that the schema accepts is accepted by the other one. -/
def Refines (c : Catalogue) (h : Heap) (s t : Schema) : Prop :=
  ∀ v, conforms c h s v = true → conforms c h t v = true

def Equivalent (c : Catalogue) (h : Heap) (s t : Schema) : Prop :=
  ∀ v, conforms c h s v = conforms c h t v

section
variable {c : Catalogue} {h : Heap} {s t u : Schema}

theorem refines_iff :
    s.Refines c h t ↔ ∀ v, check c h s v = .ok () → check c h t v = .ok () := by
  simp only [Refines, conforms_iff]

theorem Refines.refl (s : Schema) : s.Refines c h s := fun _ hv => hv

theorem equivalent_iff_refines : s.Equivalent c h t ↔ s.Refines c h t ∧ t.Refines c h s := by
  constructor
  · intro e
    exact ⟨fun v hv => (e v).symm.trans hv, fun v hv => (e v).trans hv⟩
  · rintro ⟨hst, hts⟩ v
    exact Bool.eq_iff_iff.mpr ⟨hst v, hts v⟩

/-! ## Wider parts -/

theorem Refines.array (hr : s.Refines c h t) : (array s).Refines c h (.array t) := by
  rw [refines_iff] at hr ⊢
  intro v hv
  obtain ⟨r, rfl, hall⟩ := check_array_eq_ok_iff.mp hv
  exact check_array_eq_ok_iff.mpr ⟨r, rfl, fun x hx => hr x (hall x hx)⟩

/-- Absence is refused and null accepted before the inner schema is asked. -/
theorem Refines.nullable (hr : s.Refines c h t) : (nullable s).Refines c h (.nullable t) := by
  rw [refines_iff] at hr ⊢
  intro v hv
  obtain ⟨hu, hv⟩ := check_nullable_eq_ok_iff.mp hv
  exact check_nullable_eq_ok_iff.mpr ⟨hu, hv.imp_right (hr v)⟩

theorem Refines.optional (hr : s.Refines c h t) : (optional s).Refines c h (.optional t) := by
  rw [refines_iff] at hr ⊢
  intro v hv
  exact check_optional_eq_ok_iff.mpr ((check_optional_eq_ok_iff.mp hv).imp_right (hr v))

/-- An object schema is wider if each of its fields is one of the other's, or wider than that. -/
theorem Refines.object {fields fields' : List (String × Schema)}
    (hr : ∀ p' ∈ fields', ∃ p ∈ fields, p.1 = p'.1 ∧ p.2.Refines c h p'.2) :
    (object fields).Refines c h (.object fields') := by
  rw [refines_iff]
  intro v hv
  obtain ⟨hu, hn, hall⟩ := check_object_eq_ok_iff.mp hv
  refine check_object_eq_ok_iff.mpr ⟨hu, hn, fun k n' hm' => ?_⟩
  obtain ⟨⟨k', n⟩, hm, rfl, hrn⟩ := hr (k, n') hm'
  exact refines_iff.mp hrn _ (hall k' n hm)

/-- A union is wider if each branch of the other one is one of its own, or narrower than that. -/
theorem Refines.union {branches branches' : List Schema}
    (hr : ∀ b ∈ branches, ∃ b' ∈ branches', b.Refines c h b') :
    (union branches).Refines c h (.union branches') := by
  rw [refines_iff]
  intro v hv
  obtain ⟨b, hb, hcb⟩ := check_union_eq_ok_iff.mp hv
  obtain ⟨b', hb', hrb⟩ := hr b hb
  exact check_union_eq_ok_iff.mpr ⟨b', hb', refines_iff.mp hrb v hcb⟩

end

/-! ## Schemas with holes -/

/-- A schema with holes for another one, in any number of places. -/
inductive Template where
  | hole
  | fixed (s : Schema)
  | array (items : Template)
  | object (fields : List (String × Template))
  | nullable (inner : Template)
  | optional (inner : Template)
  | union (branches : List Template)

namespace Template

mutual

def fill : Template → Schema → Schema
  | hole, s => s
  | fixed t, _ => t
  | array items, s => .array (fill items s)
  | object fields, s => .object (fillFields fields s)
  | nullable inner, s => .nullable (fill inner s)
  | optional inner, s => .optional (fill inner s)
  | union branches, s => .union (fillBranches branches s)

def fillFields : List (String × Template) → Schema → List (String × Schema)
  | [], _ => []
  | (k, C) :: rest, s => (k, fill C s) :: fillFields rest s

def fillBranches : List Template → Schema → List Schema
  | [], _ => []
  | C :: rest, s => fill C s :: fillBranches rest s

end

theorem fillFields_eq (fields : List (String × Template)) (s : Schema) :
    fillFields fields s = fields.map fun p => (p.1, fill p.2 s) := by
  induction fields with
  | nil => rfl
  | cons p rest ih => rw [fillFields, ih, List.map_cons]

theorem fillBranches_eq (branches : List Template) (s : Schema) :
    fillBranches branches s = branches.map (fill · s) := by
  induction branches with
  | nil => rfl
  | cons C rest ih => rw [fillBranches, ih, List.map_cons]

end Template

section
variable {c : Catalogue} {h : Heap} {s t : Schema}

mutual

theorem Refines.fill (hr : s.Refines c h t) : ∀ C : Template, (C.fill s).Refines c h (C.fill t)
  | .hole => hr
  | .fixed u => .refl u
  | .array items => (Refines.fill hr items).array
  | .object fields => .object fun _ hp' => Related.exists_of_mem (Refines.fillFields hr fields) hp'
  | .nullable inner => (Refines.fill hr inner).nullable
  | .optional inner => (Refines.fill hr inner).optional
  | .union branches =>
    .union fun _ hb => Related.exists_of_mem (Refines.fillBranches hr branches).flip hb

theorem Refines.fillFields (hr : s.Refines c h t) : ∀ fields : List (String × Template),
    List.Forall₂ (fun p p' => p.1 = p'.1 ∧ p.2.Refines c h p'.2)
      (Template.fillFields fields s) (Template.fillFields fields t)
  | [] => .nil
  | (_, C) :: rest => .cons ⟨rfl, Refines.fill hr C⟩ (Refines.fillFields hr rest)

theorem Refines.fillBranches (hr : s.Refines c h t) : ∀ branches : List Template,
    List.Forall₂ (Refines c h) (Template.fillBranches branches s) (Template.fillBranches branches t)
  | [] => .nil
  | C :: rest => .cons (Refines.fill hr C) (Refines.fillBranches hr rest)

end

theorem Equivalent.fill (he : s.Equivalent c h t) (C : Template) :
    (C.fill s).Equivalent c h (C.fill t) := by
  obtain ⟨hst, hts⟩ := equivalent_iff_refines.mp he
  exact equivalent_iff_refines.mpr ⟨hst.fill C, hts.fill C⟩

/-- A wider schema in the holes of a template makes it accept no less, and one that accepts the
same values makes no difference. -/
theorem conforms_fill_of_wider (c : Catalogue) (h : Heap) (s t : Schema) :
    ((∀ v, conforms c h s v = true → conforms c h t v = true) →
      ∀ (C : Template) v, conforms c h (C.fill s) v = true → conforms c h (C.fill t) v = true) ∧
    ((∀ v, conforms c h s v = conforms c h t v) →
      ∀ (C : Template) v, conforms c h (C.fill s) v = conforms c h (C.fill t) v) :=
  ⟨fun hr C => Refines.fill hr C, fun he C => Equivalent.fill he C⟩

end

/-- A measurement: a list of readings, which may be missing, and perhaps their mean. -/
def measurement : Template :=
  .object [("unit", .fixed (.tag "string")), ("readings", .array (.nullable .hole)),
    ("mean", .optional .hole)]

def measurementHeap : Heap :=
  (Heap.empty.setArray 0 [.number 21.5, .null]).setObject 1
    ((Std.ExtTreeMap.insert ∅ "unit" (.string "C")).insert "readings" (.array 0))

/-- A union has room for more than one of its branches, and a numeric example is as good as the
tag of numbers. -/
theorem conforms_fill_of_wider_measurement :
    conforms .builtin measurementHeap (measurement.fill (.union [.null, .tag "number"]))
        (.object 1) = true ∧
      conforms .builtin measurementHeap (measurement.fill (.literal (.number 0))) (.object 1) =
        conforms .builtin measurementHeap (measurement.fill (.tag "number")) (.object 1) := by
  obtain ⟨wider, -⟩ := conforms_fill_of_wider .builtin measurementHeap (.tag "number")
    (.union [.null, .tag "number"])
  obtain ⟨-, same⟩ := conforms_fill_of_wider .builtin measurementHeap (.literal (.number 0))
    (.tag "number")
  refine ⟨wider (fun v hv => ?_) measurement (.object 1) (by decide),
    same (fun v => ?_) measurement (.object 1)⟩
  · rw [conforms_iff] at hv ⊢
    exact check_union_eq_ok_iff.mpr ⟨_, List.mem_cons_of_mem _ List.mem_cons_self, hv⟩
  · cases v <;> rfl

end Schema

end GuardedData
