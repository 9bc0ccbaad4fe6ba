import GuardedData.Proofs.Json.Numbers
import GuardedData.Proofs.Schema.Carrying

/-!
# Accepted documents

What an accepted document holds (`Unfolds`), and the pairs that a fields document
is read as (`ReadsAs`). The schema of an accepted document declares no field
twice, its literals are all read back, and its own document nests no deeper than
the accepted one (`stored_of_ofSubdocument?`).
-/

namespace GuardedData

namespace Schema

/-- Reading under a name is reading what is there exactly once. -/
theorem eq_only?_bind {α : Type} {name : String} {read : Json → Option α}
    {under : List (String × Json) → Option α} (hnil : under [] = none)
    (hcons : ∀ k j rest, under ((k, j) :: rest) = if k = name then
      (if (rest.any fun p => p.1 = name) then none else read j) else under rest)
    (members : Keyed Json) : under members = (Keyed.only? name members).bind read := by
  induction members with
  | nil => exact hnil
  | cons p rest ih =>
    rw [hcons, Keyed.only?, ih]
    split
    · split <;> rfl
    · rfl

theorem schemaUnder?_eq (name : String) (members : Keyed Json) :
    schemaUnder? name members = (Keyed.only? name members).bind ofSubdocument? :=
  eq_only?_bind rfl (fun _ _ _ => rfl) members

theorem fieldsUnder?_eq (name : String) (members : Keyed Json) :
    fieldsUnder? name members = (Keyed.only? name members).bind fieldsOf? :=
  eq_only?_bind rfl (fun _ _ _ => rfl) members

theorem branchesUnder?_eq (name : String) (members : Keyed Json) :
    branchesUnder? name members = (Keyed.only? name members).bind branchesOf? :=
  eq_only?_bind rfl (fun _ _ _ => rfl) members

/-- What a document of a schema holds. -/
inductive Unfolds (j : Json) : Schema → Prop where
  | undefined : Unfolds j .undefined
  | null : Unfolds j .null
  | any : Unfolds j .any
  | unknown : Unfolds j .unknown
  | never : Unfolds j .never
  | tag (name : String) : Unfolds j (.tag name)
  | literal {content : Json} {l : Literal} : content.Inside j →
      Literal.ofJson? content = some l → Unfolds j (.literal l)
  | array {content : Json} {s : Schema} : content.Inside j → ofSubdocument? content = some s →
      Unfolds j (.array s)
  | nullable {content : Json} {s : Schema} : content.Inside j → ofSubdocument? content = some s →
      Unfolds j (.nullable s)
  | optional {content : Json} {s : Schema} : content.Inside j → ofSubdocument? content = some s →
      Unfolds j (.optional s)
  | object {content : Json} {fields : List (String × Schema)} : content.Inside j →
      fieldsOf? content = some fields → Unfolds j (.object fields)
  | union {content : Json} {branches : List Schema} : content.Inside j →
      branchesOf? content = some branches → Unfolds j (.union branches)

section
variable {α : Type} {read : Json → Option α} {build : α → Schema} {s : Schema}

/-- What is read from under a name is inside the object. -/
theorem unfolds_under {name : String} {members : Keyed Json}
    (hb : ∀ {content a}, content.Inside (.object members) → read content = some a →
      Unfolds (.object members) (build a))
    (h : ((Keyed.only? name members).bind read).map build = some s) :
    Unfolds (.object members) s := by
  obtain ⟨a, ha, rfl⟩ := Option.map_eq_some_iff.mp h
  obtain ⟨content, hc, ha⟩ := Option.bind_eq_some_iff.mp ha
  exact hb (.member name (Json.mem_of_only? hc)) ha

theorem unfolds_item {j content : Json} (hb : ∀ {a}, read content = some a → Unfolds j (build a))
    (h : (read content).map build = some s) : Unfolds j s := by
  obtain ⟨a, ha, rfl⟩ := Option.map_eq_some_iff.mp h
  exact hb ha

end

theorem unfolds_of_ofSubdocument? {j : Json} {s : Schema} (h : ofSubdocument? j = some s) :
    Unfolds j s := by
  unfold ofSubdocument? at h
  split at h
  · split at h
    · cases h
    · cases h; exact .undefined
    · cases h; exact .null
    · cases h; exact .any
    · cases h; exact .unknown
    · cases h; exact .never
    · exact unfolds_under (fun _ _ => .tag _) h
    · exact unfolds_under .literal h
    · exact unfolds_under .array (schemaUnder?_eq _ _ ▸ h)
    · exact unfolds_under .nullable (schemaUnder?_eq _ _ ▸ h)
    · exact unfolds_under .optional (schemaUnder?_eq _ _ ▸ h)
    · exact unfolds_under .object (fieldsUnder?_eq _ _ ▸ h)
    · exact unfolds_under .union (branchesUnder?_eq _ _ ▸ h)
  · split at h
    · cases h; exact .undefined
    · cases h; exact .null
    · cases h; exact .any
    · cases h; exact .unknown
    · cases h; exact .never
    · cases h
  · next kind content =>
    have hc : content.Inside (.array [kind, content]) :=
      .item (List.mem_cons_of_mem _ List.mem_cons_self)
    split at h
    · exact unfolds_item (fun _ => .tag _) h
    · exact unfolds_item (.literal hc) h
    · exact unfolds_item (.array hc) h
    · exact unfolds_item (.nullable hc) h
    · exact unfolds_item (.optional hc) h
    · exact unfolds_item (.object hc) h
    · exact unfolds_item (.union hc) h
    · cases h
  · cases h

/-! ## Their schemas -/

/-- No field is declared twice, the literals are read back, and the document fits. -/
structure Stored (d : Nat) (s : Schema) : Prop where
  wellFormed : s.WellFormed
  readable : s.Readable
  fits : s.toDocument.Fits Number.IsFinite d

section
variable {d : Nat} {s : Schema}

theorem stored_leaf (ho : ∀ fields, ¬ Within (.object fields) s)
    (hl : ∀ l, ¬ Within (.literal l) s) (h : s.toDocument.Fits Number.IsFinite d) :
    Stored d s where
  wellFormed fields hf := absurd hf (ho fields)
  readable l hw := absurd hw (hl l)
  fits := h

theorem stored_literal {l : Literal} (hl : l.Readable)
    (h : l.toDocument.Fits Number.IsFinite d) : Stored (d + 1) (.literal l) where
  wellFormed fields hf := by cases hf
  readable := readable_literal.mpr hl
  fits := fits_pair.mpr ⟨d, rfl, h⟩

theorem Stored.array (h : Stored d s) : Stored (d + 1) (.array s) where
  wellFormed fields hf := by cases hf with | array hf => exact h.wellFormed fields hf
  readable := readable_array.mpr h.readable
  fits := fits_pair.mpr ⟨d, rfl, h.fits⟩

theorem Stored.nullable (h : Stored d s) : Stored (d + 1) (.nullable s) where
  wellFormed fields hf := by cases hf with | nullable hf => exact h.wellFormed fields hf
  readable := readable_nullable.mpr h.readable
  fits := fits_pair.mpr ⟨d, rfl, h.fits⟩

theorem Stored.optional (h : Stored d s) : Stored (d + 1) (.optional s) where
  wellFormed fields hf := by cases hf with | optional hf => exact h.wellFormed fields hf
  readable := readable_optional.mpr h.readable
  fits := fits_pair.mpr ⟨d, rfl, h.fits⟩

theorem stored_object {fields : List (String × Schema)} (hd : Keyed.Distinct fields)
    (h : ∀ k s, (k, s) ∈ fields → Stored d s) : Stored (d + 2) (.object fields) where
  wellFormed fields' hf := by
    cases hf with
    | refl => exact hd
    | field hm hf => exact (h _ _ hm).wellFormed fields' hf
  readable := readable_object.mpr fun k s hm => (h k s hm).readable
  fits := fits_pair.mpr ⟨d + 1, rfl,
    fits_fieldDocuments.mpr ⟨d, rfl, fun k s hm => (h k s hm).fits⟩⟩

theorem stored_union {branches : List Schema} (h : ∀ s ∈ branches, Stored d s) :
    Stored (d + 2) (.union branches) where
  wellFormed fields hf := by
    cases hf with
    | branch hm hf => exact (h _ hm).wellFormed fields hf
  readable := readable_union.mpr fun s hm => (h s hm).readable
  fits := fits_pair.mpr ⟨d + 1, rfl,
    fits_branchDocuments.mpr ⟨d, rfl, fun s hm => (h s hm).fits⟩⟩

end

theorem literal_of_ofParts? {kind : String} {sample : Json} {d : Nat} {l : Literal}
    (h : Literal.ofParts? kind sample = some l) (hs : sample.Fits Number.IsFinite d) :
    l.Readable ∧ l.sample.Fits Number.IsFinite d := by
  unfold Literal.ofParts? at h
  split at h
  · cases h
    exact ⟨trivial, .string _⟩
  · cases h
    cases hs with
    | number hn => exact ⟨hn, .number hn⟩
  · cases h
    exact ⟨trivial, .bool _⟩
  · cases h

/-- The literal of a document whose numbers are finite is read back, and its own document fits
where that one does. -/
theorem literal_of_ofJson? {j : Json} {d : Nat} {l : Literal} (h : Literal.ofJson? j = some l)
    (hj : j.Fits Number.IsFinite d) : l.Readable ∧ l.toDocument.Fits Number.IsFinite d := by
  have hparts : ∃ kind sample, sample.Inside j ∧ Literal.ofParts? kind sample = some l := by
    unfold Literal.ofJson? at h
    split at h
    · obtain ⟨kind, -, h⟩ := Option.bind_eq_some_iff.mp h
      obtain ⟨sample, hs, h⟩ := Option.bind_eq_some_iff.mp h
      exact ⟨kind, sample, .member _ (Json.mem_of_only? hs), h⟩
    · obtain ⟨kind, -, h⟩ := Option.bind_eq_some_iff.mp h
      exact ⟨kind, _, .item (List.mem_cons_of_mem _ List.mem_cons_self), h⟩
    · cases h
  obtain ⟨kind, sample, hin, h⟩ := hparts
  obtain ⟨d, rfl, hs⟩ := hj.inside hin
  obtain ⟨hr, hf⟩ := literal_of_ofParts? h hs
  exact ⟨hr, fits_pair.mpr ⟨d, rfl, hf⟩⟩

theorem exists_succ_of_ofSubdocument? {ok : Number → Prop} {j : Json} {d : Nat} {s : Schema}
    (h : ofSubdocument? j = some s) (hj : j.Fits ok d) : ∃ d', d = d' + 1 := by
  cases hj with
  | array _ => exact ⟨_, rfl⟩
  | object _ => exact ⟨_, rfl⟩
  | null => cases h
  | bool _ => cases h
  | number _ => cases h
  | string _ => cases h

/-- The members are the pairs, with a document for each schema. -/
def ReadsAs (members : Keyed Json) (pairs : List (String × Schema)) : Prop :=
  List.Forall₂ (fun p q => p.1 = q.1 ∧ ofSubdocument? p.2 = some q.2) members pairs

theorem fieldList?_eq_some_iff {members : Keyed Json} {pairs : List (String × Schema)} :
    fieldList? members = some pairs ↔ ReadsAs members pairs := by
  induction members generalizing pairs with
  | nil =>
    rw [fieldList?, ReadsAs, List.forall₂_nil_left_iff, Option.some.injEq]
    exact eq_comm
  | cons p rest ih =>
    rw [ReadsAs, List.forall₂_cons_left_iff]
    constructor
    · intro h
      obtain ⟨s, hs, h⟩ := Option.bind_eq_some_iff.mp h
      obtain ⟨ss, hss, h⟩ := Option.bind_eq_some_iff.mp h
      exact ⟨(p.1, s), ss, ⟨rfl, hs⟩, ih.mp hss, (Option.some.inj h).symm⟩
    · rintro ⟨q, qs, ⟨hname, hs⟩, hqs, rfl⟩
      rw [fieldList?, hs, ih.mpr hqs, hname]
      rfl

/-- A fields document is read if the document of every member is. -/
theorem fieldsOf?_eq_some_iff {members : Keyed Json} {fields : Fields} :
    fieldsOf? (.object members) = some fields ↔
      ∃ pairs, ReadsAs members pairs ∧ Keyed.ofList pairs = fields := by
  simp only [← fieldList?_eq_some_iff, fieldsOf?, Option.map_eq_some_iff]

theorem fields_of_fieldsOf? {content : Json} {fields : List (String × Schema)}
    (h : fieldsOf? content = some fields) : ∃ members, content = .object members ∧
      Keyed.Distinct fields ∧ ∀ k s, (k, s) ∈ fields →
        ∃ l j, (l, j) ∈ members ∧ ofSubdocument? j = some s := by
  cases content with
  | object members =>
    obtain ⟨pairs, hr, rfl⟩ := fieldsOf?_eq_some_iff.mp h
    refine ⟨members, rfl, Keyed.distinct_ofList pairs, fun k s hm => ?_⟩
    obtain ⟨p, hp, -, hs⟩ := Related.exists_of_mem hr (Keyed.mem_of_mem_ofList hm)
    exact ⟨p.1, p.2, hp, hs⟩
  | _ => cases h

theorem branches_of_branchesOf? {content : Json} {branches : List Schema}
    (h : branchesOf? content = some branches) : ∃ items, content = .array items ∧
      ∀ s ∈ branches, ∃ j ∈ items, ofSubdocument? j = some s := by
  unfold branchesOf? at h
  split at h
  · rw [branchList?_eq] at h
    exact ⟨_, rfl, fun s hs => Related.exists_of_mem_mapM h hs⟩
  · cases h

/-- The schema of a document whose numbers are finite. -/
theorem stored_of_ofSubdocument? {j : Json} {d : Nat} {s : Schema}
    (h : ofSubdocument? j = some s) (hj : j.Fits Number.IsFinite d) : Stored d s := by
  induction d using Nat.strongRecOn generalizing j s with
  | _ d ih =>
    obtain ⟨d, rfl⟩ := exists_succ_of_ofSubdocument? h hj
    have hinside : ∀ {content : Json}, content.Inside j → content.Fits Number.IsFinite d :=
      fun hc => have ⟨_, e, hf⟩ := hj.inside hc
        Nat.succ.inj e ▸ hf
    have hbare : ∀ {k : SchemaKind}, (bareDocument k).Fits Number.IsFinite (d + 1) :=
      fits_bareDocument.mpr ⟨d, rfl⟩
    cases unfolds_of_ofSubdocument? h with
    | undefined => exact stored_leaf (fun _ hn => by cases hn) (fun _ hn => by cases hn) hbare
    | null => exact stored_leaf (fun _ hn => by cases hn) (fun _ hn => by cases hn) hbare
    | any => exact stored_leaf (fun _ hn => by cases hn) (fun _ hn => by cases hn) hbare
    | unknown => exact stored_leaf (fun _ hn => by cases hn) (fun _ hn => by cases hn) hbare
    | never => exact stored_leaf (fun _ hn => by cases hn) (fun _ hn => by cases hn) hbare
    | tag name =>
      exact stored_leaf (fun _ hn => by cases hn) (fun _ hn => by cases hn)
        (fits_pair.mpr ⟨d, rfl, .string name⟩)
    | literal hc hl =>
      obtain ⟨hr, hf⟩ := literal_of_ofJson? hl (hinside hc)
      exact stored_literal hr hf
    | array hc hs => exact (ih d (Nat.lt_succ_self d) hs (hinside hc)).array
    | nullable hc hs => exact (ih d (Nat.lt_succ_self d) hs (hinside hc)).nullable
    | optional hc hs => exact (ih d (Nat.lt_succ_self d) hs (hinside hc)).optional
    | object hc hs =>
      obtain ⟨members, rfl, hd, hfields⟩ := fields_of_fieldsOf? hs
      cases hinside hc with
      | object hmembers =>
        refine stored_object hd fun k s hm => ?_
        obtain ⟨l, j, hj, hs⟩ := hfields k s hm
        exact ih _ (by omega) hs (hmembers l j hj)
    | union hc hs =>
      obtain ⟨items, rfl, hbranches⟩ := branches_of_branchesOf? hs
      cases hinside hc with
      | array hitems =>
        refine stored_union fun s hm => ?_
        obtain ⟨j, hj, hs⟩ := hbranches s hm
        exact ih _ (by omega) hs (hitems j hj)

end Schema

end GuardedData
