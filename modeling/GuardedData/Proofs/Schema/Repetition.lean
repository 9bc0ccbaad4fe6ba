import GuardedData.Proofs.Schema.Composition

/-!
# Repeated names in documents

`collapse` drops all but the last value of a repeated name. In an `Unrepeated`
document only the fields of a schema may repeat a name, and only if all that is
under it is accepted; collapsing does not change what such a document is read
as (`ofDocument?_collapse`).
-/

namespace GuardedData

namespace Json

theorem collapseItems_eq (items : List Json) : collapseItems items = items.map collapse := by
  induction items with
  | nil => rfl
  | cons j rest ih => rw [collapseItems, ih, List.map_cons]

theorem collapseMembers_eq (members : List (String × Json)) :
    collapseMembers members = members.map fun p => (p.1, p.2.collapse) := by
  induction members with
  | nil => rfl
  | cons p rest ih => rw [collapseMembers, ih, List.map_cons]

section
variable {members : Keyed Json}

theorem keys_collapseMembers : Keyed.keys (collapseMembers members) = Keyed.keys members := by
  rw [collapseMembers_eq, Keyed.keys, List.map_map]
  rfl

theorem only?_collapseMembers (name : String) : Keyed.only? name (collapseMembers members) =
    (Keyed.only? name members).map collapse := by
  rw [collapseMembers_eq]
  exact Keyed.only?_map (fun _ => collapse) name members

theorem collapse_object (h : Keyed.Distinct members) :
    collapse (.object members) = .object (collapseMembers members) := by
  have hdistinct : Keyed.Distinct (collapseMembers members) := by
    rwa [Keyed.Distinct, keys_collapseMembers]
  rw [collapse, hdistinct.ofList_eq]

end

theorem collapse_array (items : List Json) :
    collapse (.array items) = .array (items.map collapse) := by
  rw [collapse, collapseItems_eq]

/-- What holds nothing still holds nothing, and the other way round. -/
theorem isUnit_collapse (j : Json) : j.collapse.isUnit = j.isUnit := by
  cases j with
  | object members =>
    cases members with
    | nil => rfl
    | cons p rest =>
      rw [collapse, collapseMembers]
      cases h : Keyed.ofList ((p.1, p.2.collapse) :: collapseMembers rest) with
      | nil =>
        have hmem : (p.1, p.2.collapse) ∈ ((p.1, p.2.collapse) :: collapseMembers rest).reverse :=
          List.mem_reverse.mpr List.mem_cons_self
        obtain ⟨_, hkey⟩ := Keyed.exists_get?_of_mem hmem
        rw [← Keyed.get?_ofList, h] at hkey
        cases hkey
      | cons _ _ => rfl
  | array items => rfl
  | null => rfl
  | bool _ => rfl
  | number _ => rfl
  | string _ => rfl

theorem string?_collapse (j : Json) : j.collapse.string? = j.string? := by
  cases j <;> rfl

end Json

theorem SchemaKind.ofJson?_collapse (j : Json) : ofJson? j.collapse = ofJson? j := by
  cases j <;> rfl

namespace Literal

theorem itemKind?_collapse (j : Json) : itemKind? j.collapse = itemKind? j := by
  cases j <;> rfl

theorem ofParts?_collapse (kind : String) (j : Json) :
    ofParts? kind j.collapse = ofParts? kind j := by
  cases j with
  | array items => simp [ofParts?, Json.collapse]
  | object members => simp [ofParts?, Json.collapse]
  | null => rfl
  | bool _ => rfl
  | number _ => rfl
  | string _ => rfl

theorem ofJson?_collapse_array (items : List Json) :
    ofJson? (Json.array items).collapse = ofJson? (.array items) := by
  rw [Json.collapse_array]
  rcases items with _ | ⟨kind, _ | ⟨sample, _ | ⟨_, _⟩⟩⟩
  · rfl
  · rfl
  · simp only [List.map_cons, List.map_nil, ofJson?, itemKind?_collapse, ofParts?_collapse]
  · rfl

end Literal

namespace Schema

/-! ## Fields under repeated names -/

/-- Whatever stands under a repeated name is accepted. -/
def RepeatsAccepted (members : Keyed Json) : Prop :=
  ∀ k j, (k, j) ∈ members → Keyed.only? k members = none → (ofSubdocument? j).isSome

/-- No object repeats a name, but for the fields of a schema, which may repeat a name if all that
is under it is accepted. -/
inductive Unrepeated : Json → Prop where
  | null : Unrepeated .null
  | bool (b : Bool) : Unrepeated (.bool b)
  | number (n : Number) : Unrepeated (.number n)
  | string (s : String) : Unrepeated (.string s)
  | array {items : List Json} : (∀ j ∈ items, Unrepeated j) → Unrepeated (.array items)
  | object {members : Keyed Json} : Keyed.Distinct members →
      (∀ k j, (k, j) ∈ members → Unrepeated j) → Unrepeated (.object members)
  /-- A document of an object, its fields under their name. -/
  | fieldsMember {members fields : Keyed Json} : Keyed.Distinct members →
      (Keyed.only? "type" members).bind SchemaKind.ofJson? = some .object →
      ("fields", .object fields) ∈ members →
      (∀ k j, (k, j) ∈ members → k ≠ "fields" → Unrepeated j) →
      (∀ k j, (k, j) ∈ fields → Unrepeated j) → RepeatsAccepted fields →
      Unrepeated (.object members)
  /-- A document of an object, its fields after the kind. -/
  | fieldsItem {kind : Json} {fields : Keyed Json} : SchemaKind.ofJson? kind = some .object →
      (∀ k j, (k, j) ∈ fields → Unrepeated j) → RepeatsAccepted fields →
      Unrepeated (.array [kind, .object fields])

theorem Unrepeated.distinct {members : Keyed Json} (h : Unrepeated (.object members)) :
    Keyed.Distinct members := by
  cases h with
  | object hd _ => exact hd
  | fieldsMember hd _ _ _ _ _ => exact hd

section
variable {members : Keyed Json}

theorem fieldList?_insert {m : Keyed Json} {m' : Keyed Schema} {k : String} {j : Json} {s : Schema}
    (hm : fieldList? m = some m') (hj : ofSubdocument? j = some s) :
    fieldList? (Keyed.insert k j m) = some (Keyed.insert k s m') := by
  induction m generalizing m' with
  | nil =>
    rw [← Option.some.inj hm]
    simp [Keyed.insert, fieldList?, hj]
  | cons p rest ih =>
    rw [fieldList?] at hm
    obtain ⟨s', hs', hm⟩ := Option.bind_eq_some_iff.mp hm
    obtain ⟨rest', hrest', hm⟩ := Option.bind_eq_some_iff.mp hm
    rw [← Option.some.inj hm, Keyed.insert, Keyed.insert]
    by_cases hp : p.1 = k
    · simp [hp, fieldList?, hj, hrest']
    · simp [hp, fieldList?, hs', ih hrest']

/-- Members inserted after others give the fields of the ones inserted after those of the others. -/
theorem fieldList?_foldl_insert {front : Keyed Json} {front' ss : Keyed Schema}
    (hfront : fieldList? front = some front') (h : fieldList? members = some ss) :
    fieldList? (members.foldl (fun m p => Keyed.insert p.1 p.2 m) front) =
      some (ss.foldl (fun m p => Keyed.insert p.1 p.2 m) front') := by
  induction members generalizing front front' ss with
  | nil =>
    rw [← Option.some.inj h]
    exact hfront
  | cons p rest ih =>
    rw [fieldList?] at h
    obtain ⟨s, hs, h⟩ := Option.bind_eq_some_iff.mp h
    obtain ⟨ss', hss', h⟩ := Option.bind_eq_some_iff.mp h
    rw [← Option.some.inj h, List.foldl_cons, List.foldl_cons]
    exact ih (fieldList?_insert hfront hs) hss'

theorem fieldList?_ofList {ss : Keyed Schema} (h : fieldList? members = some ss) :
    fieldList? (Keyed.ofList members) = some (Keyed.ofList ss) :=
  fieldList?_foldl_insert (show fieldList? [] = some [] from rfl) h

theorem fieldList?_eq_none {k : String} {j : Json} (hm : (k, j) ∈ members)
    (hj : ofSubdocument? j = none) : fieldList? members = none := by
  induction members with
  | nil => cases hm
  | cons p rest ih =>
    rw [fieldList?]
    rcases List.mem_cons.mp hm with rfl | hm
    · rw [hj]
      rfl
    · rw [ih hm]
      cases ofSubdocument? p.2 <;> rfl

theorem exists_of_fieldList?_eq_none (h : fieldList? members = none) :
    ∃ k j, (k, j) ∈ members ∧ ofSubdocument? j = none := by
  induction members with
  | nil => cases h
  | cons p rest ih =>
    cases hp : ofSubdocument? p.2 with
    | none => exact ⟨p.1, p.2, List.mem_cons_self, hp⟩
    | some s =>
      cases hrest : fieldList? rest with
      | none =>
        obtain ⟨k, j, hm, hj⟩ := ih hrest
        exact ⟨k, j, List.mem_cons_of_mem _ hm, hj⟩
      | some ss =>
        rw [fieldList?, hp, hrest] at h
        cases h

/-- Fields that are dropped because a later one has their name do not count, if they are
accepted. -/
theorem fieldsOf?_ofList (h : RepeatsAccepted members) :
    fieldsOf? (.object (Keyed.ofList members)) = fieldsOf? (.object members) := by
  rw [fieldsOf?, fieldsOf?]
  cases hs : fieldList? members with
  | some ss =>
    rw [fieldList?_ofList hs, Option.map_some, Option.map_some]
    exact congrArg some (Keyed.distinct_ofList ss).ofList_eq
  | none =>
    obtain ⟨k, j, hm, hj⟩ := exists_of_fieldList?_eq_none hs
    have honly : ∃ a, Keyed.only? k members = some a := by
      cases ho : Keyed.only? k members with
      | some a => exact ⟨a, rfl⟩
      | none =>
        have haccepted := h k j hm ho
        rw [hj] at haccepted
        cases haccepted
    obtain ⟨a, ho⟩ := honly
    obtain rfl := Keyed.eq_of_only? ho hm
    rw [fieldList?_eq_none (Keyed.mem_ofList_of_only? ho hm) hj]

/-! ## Collapsed documents -/

/-- A document is read in the same way when it is collapsed, whatever it is read as. -/
structure ReadsAlike (j : Json) : Prop where
  schema : ofSubdocument? j.collapse = ofSubdocument? j
  literal : Literal.ofJson? j.collapse = Literal.ofJson? j
  memberKind : Literal.memberKind? j.collapse = Literal.memberKind? j
  fields : fieldsOf? j.collapse = fieldsOf? j
  branches : branchesOf? j.collapse = branchesOf? j

theorem fieldList?_collapseMembers (h : ∀ k j, (k, j) ∈ members →
    ofSubdocument? j.collapse = ofSubdocument? j) :
    fieldList? (Json.collapseMembers members) = fieldList? members := by
  induction members with
  | nil => rfl
  | cons p rest ih =>
    rw [Json.collapseMembers, fieldList?, fieldList?, h _ _ List.mem_cons_self,
      ih fun k j hm => h k j (List.mem_cons_of_mem _ hm)]

theorem branchList?_collapse {items : List Json} (h : ∀ j ∈ items,
    ofSubdocument? j.collapse = ofSubdocument? j) :
    branchList? (items.map Json.collapse) = branchList? items := by
  induction items with
  | nil => rfl
  | cons j rest ih =>
    rw [List.map_cons, branchList?, branchList?, h _ List.mem_cons_self,
      ih fun j hm => h j (List.mem_cons_of_mem _ hm)]

/-- Fields are read alike if what is under each name is, and a name is repeated over accepted
documents only. -/
theorem fieldsOf?_collapse (hr : RepeatsAccepted members)
    (h : ∀ k j, (k, j) ∈ members → ofSubdocument? j.collapse = ofSubdocument? j) :
    fieldsOf? (Json.object members).collapse = fieldsOf? (.object members) := by
  have hrepeats : RepeatsAccepted (Json.collapseMembers members) := by
    intro k j hm ho
    rw [Json.collapseMembers_eq] at hm
    obtain ⟨p, hp, e⟩ := List.mem_map.mp hm
    obtain ⟨rfl, rfl⟩ := Prod.mk.inj e
    rw [Json.only?_collapseMembers, Option.map_eq_none_iff] at ho
    rw [h p.1 p.2 hp]
    exact hr p.1 p.2 hp ho
  rw [Json.collapse, fieldsOf?_ofList hrepeats, fieldsOf?, fieldsOf?, fieldList?_collapseMembers h]

theorem Keyed.Distinct.repeatsAccepted (hd : Keyed.Distinct members) : RepeatsAccepted members := by
  intro k j hm ho
  rw [hd.only?_eq hm] at ho
  cases ho

theorem only?_collapse_bind {α : Type} {read : Json → Option α} {name : String}
    (h : ∀ j, (name, j) ∈ members → read j.collapse = read j) :
    (Keyed.only? name (Json.collapseMembers members)).bind read =
      (Keyed.only? name members).bind read := by
  rw [Json.only?_collapseMembers]
  cases ho : Keyed.only? name members with
  | none => rfl
  | some j => exact h j (Json.mem_of_only? ho)

theorem readsAlike_object (hd : Keyed.Distinct members)
    (hm : ∀ k j, (k, j) ∈ members → k ≠ "fields" → ReadsAlike j)
    (hf : ∀ j, ("fields", j) ∈ members → fieldsOf? j.collapse = fieldsOf? j)
    (hall : fieldsOf? (Json.object members).collapse = fieldsOf? (.object members)) :
    ReadsAlike (.object members) := by
  have hcollapse := Json.collapse_object hd
  refine ⟨?_, ?_, ?_, hall, ?_⟩
  · rw [hcollapse]
    exact ofSubdocument?_congr
      (only?_collapse_bind fun j _ => SchemaKind.ofJson?_collapse j)
      (only?_collapse_bind fun j _ => Json.string?_collapse j)
      (only?_collapse_bind fun j h => (hm _ j h (by decide)).literal)
      (only?_collapse_bind fun j h => (hm _ j h (by decide)).schema)
      (only?_collapse_bind fun j h => (hm _ j h (by decide)).schema)
      (only?_collapse_bind hf)
      (only?_collapse_bind fun j h => (hm _ j h (by decide)).branches)
  · rw [hcollapse, Literal.ofJson?, Literal.ofJson?,
      only?_collapse_bind fun j h => (hm _ j h (by decide)).memberKind]
    exact Option.bind_congr fun kind _ =>
      only?_collapse_bind fun j _ => Literal.ofParts?_collapse kind j
  · rw [hcollapse]
    rcases members with _ | ⟨p, _ | ⟨_, _⟩⟩
    · rfl
    · simp only [Json.collapseMembers, Literal.memberKind?, Json.isUnit_collapse]
    · rfl
  · rw [hcollapse]
    rfl

theorem readsAlike_array {items : List Json} (h : ∀ j ∈ items, ReadsAlike j) :
    ReadsAlike (.array items) := by
  have hcollapse := Json.collapse_array items
  refine ⟨?_, Literal.ofJson?_collapse_array items, ?_, ?_, ?_⟩
  · rw [hcollapse]
    rcases items with _ | ⟨kind, _ | ⟨content, _ | ⟨_, _⟩⟩⟩
    · rfl
    · simp only [List.map_cons, List.map_nil, ofSubdocument?, SchemaKind.ofJson?_collapse]
    · obtain ⟨hschema, hliteral, -, hfields, hbranches⟩ :=
        h content (List.mem_cons_of_mem _ List.mem_cons_self)
      simp only [List.map_cons, List.map_nil, ofSubdocument?, SchemaKind.ofJson?_collapse,
        Json.string?_collapse, hschema, hliteral, hfields, hbranches]
    · rfl
  · rw [hcollapse]
    rfl
  · rw [hcollapse]
    rfl
  · rw [hcollapse]
    exact branchList?_collapse fun j hj => (h j hj).schema

theorem ofSubdocument?_of_ofJson? {kind : Json} {k : SchemaKind}
    (h : SchemaKind.ofJson? kind = some k) : ofSubdocument? kind = none := by
  cases kind with
  | array _ => cases h
  | object _ => cases h
  | null => rfl
  | bool _ => rfl
  | number _ => rfl
  | string _ => rfl

/-- The document of an object in two items is read alike if its fields are. -/
theorem readsAlike_fieldsItem {kind : Json} {fields : Keyed Json}
    (hk : SchemaKind.ofJson? kind = some .object)
    (hf : fieldsOf? (Json.object fields).collapse = fieldsOf? (.object fields)) :
    ReadsAlike (.array [kind, .object fields]) := by
  have hcollapse := Json.collapse_array [kind, .object fields]
  have hkind : SchemaKind.ofJson? kind.collapse = some .object := by
    rw [SchemaKind.ofJson?_collapse, hk]
  refine ⟨?_, Literal.ofJson?_collapse_array _, ?_, ?_, ?_⟩
  · rw [hcollapse, List.map_cons, List.map_cons, List.map_nil, ofSubdocument?, ofSubdocument?, hk,
      hkind]
    dsimp only
    rw [hf]
  · rw [hcollapse]
    rfl
  · rw [hcollapse]
    rfl
  · rw [hcollapse, List.map_cons, branchesOf?, branchesOf?, branchList?, branchList?,
      ofSubdocument?_of_ofJson? hk, ofSubdocument?_of_ofJson? hkind]
    rfl

theorem Unrepeated.readsAlike {j : Json} (h : Unrepeated j) : ReadsAlike j := by
  induction h with
  | null => exact ⟨rfl, rfl, rfl, rfl, rfl⟩
  | bool b => exact ⟨rfl, rfl, rfl, rfl, rfl⟩
  | number n => exact ⟨rfl, rfl, rfl, rfl, rfl⟩
  | string s => exact ⟨rfl, rfl, rfl, rfl, rfl⟩
  | array _ ih => exact readsAlike_array ih
  | object hd _ ih =>
    exact readsAlike_object hd (fun k j hm _ => ih k j hm) (fun j hm => (ih _ j hm).fields)
      (fieldsOf?_collapse (Keyed.Distinct.repeatsAccepted hd) fun k j hm => (ih k j hm).schema)
  | @fieldsMember members fields hd hkind hfields _ _ hr ih ihf =>
    have hcontent := fieldsOf?_collapse hr fun k j hm => (ihf k j hm).schema
    -- The kind is no schema, so that the object does not hold fields itself.
    obtain ⟨kind, htype, hk⟩ := Option.bind_eq_some_iff.mp hkind
    have hnone : fieldList? members = none :=
      fieldList?_eq_none (Json.mem_of_only? htype) (ofSubdocument?_of_ofJson? hk)
    have htype' : Keyed.only? "type" (Json.collapseMembers members) = some kind.collapse := by
      rw [Json.only?_collapseMembers, htype]
      rfl
    have hk' : SchemaKind.ofJson? kind.collapse = some .object := by
      rw [SchemaKind.ofJson?_collapse, hk]
    have hnone' : fieldList? (Json.collapseMembers members) = none :=
      fieldList?_eq_none (Json.mem_of_only? htype') (ofSubdocument?_of_ofJson? hk')
    refine readsAlike_object hd ih (fun j hm => ?_) ?_
    · have e : some (Json.object fields) = some j :=
        (hd.only?_eq hfields).symm.trans (hd.only?_eq hm)
      rw [← Option.some.inj e]
      exact hcontent
    · rw [Json.collapse_object hd, fieldsOf?, fieldsOf?, hnone, hnone']
  | fieldsItem hk _ hr ih =>
    exact readsAlike_fieldsItem hk (fieldsOf?_collapse hr fun k j hm => (ih k j hm).schema)

theorem Unrepeated.isNamed_collapse {j : Json} (h : Unrepeated j) :
    isNamed j.collapse = isNamed j := by
  cases j with
  | object members =>
    rw [Json.collapse_object h.distinct, isNamed, isNamed,
      only?_collapse_bind fun j _ => Json.string?_collapse j]
  | array items =>
    rw [Json.collapse_array]
    cases items with
    | nil => rfl
    | cons kind rest =>
      rw [List.map_cons, isNamed, isNamed, Json.string?_collapse]
  | null => rfl
  | bool _ => rfl
  | number _ => rfl
  | string _ => rfl

theorem Unrepeated.ofDocument?_collapse {j : Json} (h : Unrepeated j) :
    ofDocument? j.collapse = ofDocument? j := by
  rw [ofDocument?, ofDocument?, h.isNamed_collapse, h.readsAlike.schema]

theorem map_of_fieldList? {ss : Keyed Schema} (h : fieldList? members = some ss) :
    members.map (fun p => (p.1, ofSubdocument? p.2)) = ss.map fun p => (p.1, some p.2) := by
  refine (Related.map_eq (fieldList?_eq_some_iff.mp h) fun p _ q _ hpq => ?_).symm
  rw [hpq.1, hpq.2]

/-- The fields that are read: a repeated name has its first position and its last schema. -/
theorem fields_of_members {fields : Keyed Schema} (h : fieldsOf? (.object members) = some fields) :
    Keyed.keys fields = (Keyed.keys members).eraseDups ∧
      ∀ k, Keyed.get? k fields = (Keyed.get? k members.reverse).bind ofSubdocument? := by
  obtain ⟨ss, hss, rfl⟩ := Option.map_eq_some_iff.mp h
  have hmap := map_of_fieldList? hss
  constructor
  · have hkeys : Keyed.keys ss = Keyed.keys members := by
      have hfirst := congrArg (List.map Prod.fst) hmap
      rw [List.map_map, List.map_map] at hfirst
      exact hfirst.symm
    rw [Keyed.keys_ofList, hkeys]
  · intro k
    have hlast := congrArg (Keyed.get? k ∘ List.reverse) hmap
    simp only [Function.comp_apply, ← List.map_reverse, Keyed.get?_map] at hlast
    rw [Keyed.get?_ofList]
    cases hm : Keyed.get? k members.reverse with
    | none =>
      rw [hm] at hlast
      exact Option.map_eq_none_iff.mp hlast.symm
    | some j =>
      rw [hm] at hlast
      obtain ⟨s, hs, e⟩ := Option.map_eq_some_iff.mp hlast.symm
      rw [hs]
      exact e

end

end Schema

end GuardedData
