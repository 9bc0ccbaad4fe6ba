import GuardedData.Check
import GuardedData.Proofs.Heap.Graph
import GuardedData.Proofs.Related
import GuardedData.Proofs.Schema.Nodes

/-!
# What checks accept

The equations of `check` for lists of fields, elements and branches, and the
catalogues whose predicates look at kinds only. A check does not tell values
apart that are related wherever it looks (`CheckRelation.check`). With a
catalogue of kinds it depends on the graph of the value only (`check_congr`).
-/

namespace GuardedData

section
variable {c : Catalogue} {h h' : Heap} {s : Schema} {v w : Value}

theorem conforms_iff : conforms c h s v = true ↔ check c h s v = .ok () := by
  unfold conforms
  cases check c h s v <;> simp [Except.isOk, Except.toBool]

theorem require_eq_ok_iff {b : Bool} {m : Mismatch} : require b m = .ok () ↔ b = true := by
  cases b <;> simp [require]

theorem checkFields_eq_ok_iff {fields : List (String × Schema)} :
    checkFields c h fields v = .ok () ↔
      ∀ k s, (k, s) ∈ fields → check c h s (h.field v k) = .ok () := by
  induction fields with
  | nil => simp [checkFields]
  | cons p rest ih =>
    obtain ⟨k, s⟩ := p
    rw [checkFields]
    cases hc : check c h s (h.field v k) with
    | error m =>
      simp only [reduceCtorEq, false_iff]
      intro hall
      have := hall k s List.mem_cons_self
      rw [hc] at this
      cases this
    | ok u =>
      simp only [ih, List.mem_cons, Prod.mk.injEq]
      constructor
      · rintro hall k' s' (⟨rfl, rfl⟩ | hm)
        · exact hc
        · exact hall k' s' hm
      · intro hall k' s' hm
        exact hall k' s' (.inr hm)

theorem checkElements_eq_ok_iff {f : Value → Except Mismatch Unit} {i : Nat} {items : List Value} :
    checkElements f i items = .ok () ↔ ∀ x ∈ items, f x = .ok () := by
  induction items generalizing i with
  | nil => simp [checkElements]
  | cons x rest ih =>
    rw [checkElements, List.forall_mem_cons]
    cases f x with
    | error m => simp
    | ok u => simp [ih]

theorem acceptsSome_iff {branches : List Schema} :
    acceptsSome c h branches v = true ↔ ∃ b ∈ branches, check c h b v = .ok () := by
  induction branches with
  | nil => simp [acceptsSome]
  | cons b rest ih =>
    rw [acceptsSome, Bool.or_eq_true, ih, ← conforms, conforms_iff]
    simp

theorem check_array_eq_ok_iff {items : Schema} :
    check c h (.array items) v = .ok () ↔
      ∃ r, v = .array r ∧ ∀ x ∈ h.array r, check c h items x = .ok () := by
  cases v <;> simp [check, checkElements_eq_ok_iff]

theorem check_object_eq_ok_iff {fields : List (String × Schema)} :
    check c h (.object fields) v = .ok () ↔ v.isUndefined = false ∧ v.isNull = false ∧
      ∀ k s, (k, s) ∈ fields → check c h s (h.field v k) = .ok () := by
  rw [check, ← checkFields_eq_ok_iff]
  cases hu : v.isUndefined <;> cases hn : v.isNull <;> simp

theorem check_union_eq_ok_iff {branches : List Schema} :
    check c h (.union branches) v = .ok () ↔ ∃ b ∈ branches, check c h b v = .ok () := by
  rw [check, require_eq_ok_iff, acceptsSome_iff]

theorem check_nullable_eq_ok_iff : check c h (.nullable s) v = .ok () ↔
    v.isUndefined = false ∧ (v.isNull = true ∨ check c h s v = .ok ()) := by
  cases hu : v.isUndefined <;> cases hn : v.isNull <;> simp [check, hu, hn]

theorem check_optional_eq_ok_iff : check c h (.optional s) v = .ok () ↔
    v.isUndefined = true ∨ check c h s v = .ok () := by
  cases hu : v.isUndefined <;> simp [check, hu]

theorem conforms_union {branches : List Schema} :
    conforms c h (.union branches) v = acceptsSome c h branches v := by
  rw [Bool.eq_iff_iff, conforms_iff, check, require_eq_ok_iff]

theorem check_nullable (hu : v.isUndefined = false) (hn : v.isNull = false) :
    check c h (.nullable s) v = check c h s v := by
  simp [check, hu, hn]

theorem check_optional (hu : v.isUndefined = false) :
    check c h (.optional s) v = check c h s v := by
  simp [check, hu]

end

/-! ## Catalogues of kinds -/

/-- Every predicate looks at the kind of the value only. -/
def Catalogue.KindOnly (c : Catalogue) : Prop :=
  ∀ (name : String) (p : TagPredicate), c.entries[name]? = some p →
    ∀ (h h' : Heap) (v v' : Value), v.kind = v'.kind → p h v = p h' v'

namespace Catalogue

theorem KindOnly.accepts? {c : Catalogue} (hc : c.KindOnly) (h h' : Heap) (name : String)
    {v v' : Value} (e : v.kind = v'.kind) : c.accepts? h name v = c.accepts? h' name v' := by
  unfold Catalogue.accepts?
  cases hp : c.entries[name]? with
  | none => rfl
  | some p => simp [hc name p hp h h' v v' e]

theorem kindOnly_empty : empty.KindOnly := by
  intro name p hp
  simp [empty] at hp

theorem KindOnly.register {c : Catalogue} (hc : c.KindOnly) {name : String} {p : TagPredicate}
    (hp : ∀ (h h' : Heap) (v v' : Value), v.kind = v'.kind → p h v = p h' v') :
    (c.register name p).KindOnly := by
  intro name' p' hp'
  simp only [Catalogue.register, Std.ExtTreeMap.getElem?_insert] at hp'
  split at hp'
  · obtain rfl := Option.some.inj hp'
    exact hp
  · exact hc name' p' hp'

theorem kindOnly_builtin : builtin.KindOnly := by
  have key : ∀ (ks : List Kind) (c : Catalogue), c.KindOnly →
      (ks.foldl (fun c k => c.register k.name (ofKind k)) c).KindOnly := by
    intro ks
    induction ks with
    | nil => exact fun c hc => hc
    | cons k ks ih =>
      intro c hc
      exact ih _ (hc.register fun h h' v v' e => by simp [ofKind, e])
  refine key taggedKinds _ (kindOnly_empty.register fun h h' v v' e => ?_)
  simp [compound, e]

end Catalogue

/-! ## Values that a check does not tell apart -/

theorem Value.isUndefined_eq_kind (v : Value) : v.isUndefined = decide (v.kind = .undefined) := by
  cases v <;> rfl

theorem Value.isNull_eq_kind (v : Value) : v.isNull = decide (v.kind = .null) := by
  cases v <;> rfl

theorem Value.exists_of_kind_eq_array {v : Value} (hv : v.kind = .array) :
    ∃ r, v = .array r := by
  cases v <;> first | exact ⟨_, rfl⟩ | cases hv

/-- Most of a check looks at the kind only. -/
theorem Value.eq_of_kind_eq {v v' : Value} (hk : v.kind = v'.kind) :
    v.kindName = v'.kindName ∧ v.isUndefined = v'.isUndefined ∧ v.isNull = v'.isNull := by
  rw [kindName, kindName, isUndefined_eq_kind, isUndefined_eq_kind, isNull_eq_kind,
    isNull_eq_kind, hk]
  exact ⟨rfl, rfl, rfl⟩

section
variable {c : Catalogue} {h h' : Heap}

/-- Elements that are judged alike give the same first mismatch. -/
theorem checkElements_of_map_eq {f g : Value → Except Mismatch Unit} {xs ys : List Value}
    (e : xs.map f = ys.map g) (i : Nat) : checkElements f i xs = checkElements g i ys := by
  induction xs generalizing ys i with
  | nil =>
    obtain rfl := List.map_eq_nil_iff.mp e.symm
    rfl
  | cons x xs ih =>
    obtain ⟨y, ys, rfl, hy, hys⟩ := List.map_eq_cons_iff.mp e.symm
    rw [checkElements, checkElements, ← hy, ih hys.symm]

theorem checkFields_congr {c' : Catalogue} {fields : List (String × Schema)} {v v' : Value}
    (he : ∀ k s, (k, s) ∈ fields → check c' h' s (h'.field v' k) = check c h s (h.field v k)) :
    checkFields c' h' fields v' = checkFields c h fields v := by
  induction fields with
  | nil => rfl
  | cons p rest ih =>
    obtain ⟨k, s⟩ := p
    rw [checkFields, checkFields, he k s List.mem_cons_self,
      ih fun k s hm => he k s (List.mem_cons_of_mem _ hm)]

theorem acceptsSome_congr {c' : Catalogue} {branches : List Schema} {v v' : Value}
    (he : ∀ b ∈ branches, check c' h' b v' = check c h b v) :
    acceptsSome c' h' branches v' = acceptsSome c h branches v := by
  induction branches with
  | nil => rfl
  | cons b rest ih =>
    obtain ⟨hb, hrest⟩ := List.forall_mem_cons.mp he
    rw [acceptsSome, acceptsSome, hb, ih hrest]

/-- The field of an object reads its child; that of anything else is absent. -/
theorem Heap.field_cases (h : Heap) (v : Value) (k : String) :
    h.field v k = .undefined ∨ ∃ r, v = .object r ∧ h.child? (.object r) (.field k) =
      some (h.field v k) := by
  cases v with
  | object r =>
    simp only [Heap.field, Heap.child?]
    cases hk : (h.object r)[k]? with
    | none => exact .inl rfl
    | some w => exact .inr ⟨r, rfl, hk⟩
  | _ => exact .inl rfl

theorem Heap.field_congr {v : Value} (hs : ∀ t, h.Reaches v t → h.SameCell h' t) (k : String) :
    h'.field v k = h.field v k := by
  cases v with
  | object r =>
    have : h'.object r = h.object r := hs (.object r) (.refl h (.object r))
    simp [Heap.field, this]
  | _ => rfl

theorem Heap.Reaches.of_field {v : Value} {k : String} {t : Handle}
    (hr : h.Reaches (h.field v k) t) : h.Reaches v t := by
  rcases h.field_cases v k with e | ⟨r, rfl, hc⟩
  · rw [e] at hr
    exact absurd hr (Heap.not_reaches_of_scalar rfl)
  · exact .of_child hc hr

theorem Heap.Reaches.of_mem_array {r : Ref} {x : Value} {t : Handle} (hx : x ∈ h.array r)
    (hr : h.Reaches x t) : h.Reaches (.array r) t := by
  obtain ⟨i, hi⟩ := List.getElem?_of_mem hx
  have hc : h.child? (.array r) (.index i) = some x := hi
  exact .of_child hc hr

theorem check_array_of_kind_ne {items : Schema} (hk : v.kind ≠ .array) :
    check c h (.array items) v = .error (.shape (Schema.array items).describe v.kindName) := by
  cases v <;> first | rfl | exact absurd rfl hk

/-- A relation of values under schemas that goes on to whatever a check looks at next. -/
structure CheckRelation (c : Catalogue) (h h' : Heap) (P : Schema → Value → Value → Prop) :
    Prop where
  kind {s : Schema} {v v' : Value} : P s v v' → v.kind = v'.kind
  accepts {name : String} {v v' : Value} : P (.tag name) v v' →
    c.accepts? h name v = c.accepts? h' name v'
  nullable {s : Schema} {v v' : Value} : P (.nullable s) v v' → P s v v'
  optional {s : Schema} {v v' : Value} : P (.optional s) v v' → P s v v'
  branch {branches : List Schema} {b : Schema} {v v' : Value} : P (.union branches) v v' →
    b ∈ branches → P b v v'
  field {fields : List (String × Schema)} {k : String} {s : Schema} {v v' : Value} :
    P (.object fields) v v' → (k, s) ∈ fields → P s (h.field v k) (h'.field v' k)
  items {items : Schema} {r r' : Ref} : P (.array items) (.array r) (.array r') →
    List.Forall₂ (P items) (h.array r) (h'.array r')

theorem CheckRelation.check {P : Schema → Value → Value → Prop} (hP : CheckRelation c h h' P)
    {s : Schema} {v v' : Value} (hv : P s v v') : check c h s v = check c h' s v' := by
  induction s generalizing v v' with
  | undefined | null | literal | never =>
    obtain ⟨hn, hu, hl⟩ := Value.eq_of_kind_eq (hP.kind hv)
    simp only [GuardedData.check, Literal.sameKind, hP.kind hv, hn, hu, hl]
  | tag name =>
    rw [GuardedData.check, GuardedData.check, hP.accepts hv, (Value.eq_of_kind_eq (hP.kind hv)).1]
  | any | unknown => rfl
  | array items ih =>
    have hk := hP.kind hv
    by_cases ha : v.kind = .array
    · obtain ⟨r, rfl⟩ := Value.exists_of_kind_eq_array ha
      obtain ⟨r', rfl⟩ := Value.exists_of_kind_eq_array (hk.symm.trans ha)
      exact checkElements_of_map_eq
        (Related.map_eq (hP.items hv) fun x _ y _ hxy => (ih hxy).symm).symm 0
    · rw [check_array_of_kind_ne ha, check_array_of_kind_ne (hk ▸ ha),
        (Value.eq_of_kind_eq hk).1]
  | object fields ih =>
    obtain ⟨hn, hu, hl⟩ := Value.eq_of_kind_eq (hP.kind hv)
    rw [GuardedData.check, GuardedData.check, hn, hu, hl]
    split
    · rfl
    · exact (checkFields_congr fun k s hm => (ih k s hm (hP.field hv hm)).symm).symm
  | nullable inner ih =>
    obtain ⟨-, hu, hl⟩ := Value.eq_of_kind_eq (hP.kind hv)
    rw [GuardedData.check, GuardedData.check, hu, hl, ih (hP.nullable hv)]
  | optional inner ih =>
    obtain ⟨-, hu, -⟩ := Value.eq_of_kind_eq (hP.kind hv)
    rw [GuardedData.check, GuardedData.check, hu, ih (hP.optional hv)]
  | union branches ih =>
    rw [GuardedData.check, GuardedData.check, (Value.eq_of_kind_eq (hP.kind hv)).1,
      acceptsSome_congr fun b hb => ih b hb (hP.branch hv hb)]

/-- A check is the same in two heaps for values of a class that passes on to fields and elements,
if the heaps and the predicates agree on the values of the class. -/
theorem check_congr_of {P : Value → Prop}
    (haccepts : ∀ name v, P v → c.accepts? h' name v = c.accepts? h name v)
    (hitems : ∀ r, P (.array r) → h'.array r = h.array r ∧ ∀ x ∈ h.array r, P x)
    (hfield : ∀ v k, P v → h'.field v k = h.field v k ∧ P (h.field v k))
    (s : Schema) {v : Value} (hv : P v) : check c h' s v = check c h s v := by
  refine CheckRelation.check (P := fun _ v v' => v = v' ∧ P v') ?_ ⟨rfl, hv⟩
  exact
    { kind := fun hv => congrArg Value.kind hv.1
      accepts := fun {name _ v} ⟨e, hv⟩ => e ▸ haccepts name v hv
      nullable := id
      optional := id
      branch := fun hv _ => hv
      field := fun {_ k _ _ v} ⟨e, hv⟩ _ => e ▸ hfield v k hv
      items := fun {_ r r'} ⟨e, hr⟩ => by
        cases e
        obtain ⟨e, hx⟩ := hitems r hr
        rw [e]
        exact List.forall₂_same.mpr fun x hm => ⟨rfl, hx x hm⟩ }

/-- A check of kinds depends on the graph of the value only. -/
theorem check_congr (hc : c.KindOnly) (s : Schema) {v : Value}
    (hs : ∀ t, h.Reaches v t → h.SameCell h' t) : check c h' s v = check c h s v := by
  refine check_congr_of (fun name v _ => hc.accepts? h' h name rfl) (fun r hr => ?_)
    (fun v k hv => ⟨Heap.field_congr hv k, fun t ht => hv t ht.of_field⟩) s hs
  exact ⟨hr (.array r) (.refl h (.array r)), fun x hx t ht => hr t (ht.of_mem_array hx)⟩

end

end GuardedData
