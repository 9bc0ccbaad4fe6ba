import Mathlib.Logic.Relation
import GuardedData.Proofs.Check.Rearrangement
import GuardedData.Proofs.Schema.Composition

/-!
# Changes of a document that carry no meaning

`Edit reorders part j j'` is one change of a document that is read as a `Part`: the
members of a schema object or a literal object are put in another order, or get
one more of a name that does not count, or the same happens somewhere inside. If
`reorders` holds, the entries of a fields object may change places too. After any
number of such changes a document is refused as before, or read as the same
schema up to the order of fields (`Schema.ofDocument?_edited`).
-/

namespace GuardedData

namespace Schema

/-! ## Parts of documents -/

/-- What a document inside a schema document is read as. -/
inductive Part where
  | schema
  | literal
  | fields
  | branches

namespace Part

/-- What stands under a name of a schema object. -/
def ofName? : String → Option Part
  | "value" => some .literal
  | "items" => some .schema
  | "inner" => some .schema
  | "fields" => some .fields
  | "anyOf" => some .branches
  | _ => none

/-- What comes after a kind in an array. -/
def ofKind? : SchemaKind → Option Part
  | .literal => some .literal
  | .array => some .schema
  | .nullable => some .schema
  | .optional => some .schema
  | .object => some .fields
  | .union => some .branches
  | _ => none

/-- The schema that a part makes. -/
def read? : Part → Json → Option Schema
  | schema, j => ofSubdocument? j
  | literal, j => (Literal.ofJson? j).map .literal
  | fields, j => (fieldsOf? j).map .object
  | branches, j => (branchesOf? j).map .union

end Part

/-- The names that count in schema objects and in literal objects. -/
def memberNames : List String :=
  ["type", "name", "value", "items", "fields", "inner", "anyOf", "kind", "example"]

/-- One change of a document that is read as a part. -/
inductive Edit (reorders : Bool) : Part → Json → Json → Prop where
  /-- The members of a schema object or of a literal object change places. -/
  | permute {part : Part} {members members' : Keyed Json} : part = .schema ∨ part = .literal →
      members.Perm members' → Edit reorders part (.object members) (.object members')
  /-- A schema object or a literal object gets a member that does not count. -/
  | add {part : Part} {members : Keyed Json} {name : String} (j : Json) :
      part = .schema ∨ part = .literal → name ∉ memberNames →
      Edit reorders part (.object members) (.object ((name, j) :: members))
  | member {part : Part} {name : String} {j j' : Json} (before after : Keyed Json) :
      Part.ofName? name = some part → Edit reorders part j j' →
      Edit reorders .schema (.object (before ++ (name, j) :: after))
        (.object (before ++ (name, j') :: after))
  /-- What comes after a kind in an array, whatever comes then. -/
  | content {part : Part} {kind j j' : Json} {k : SchemaKind} (rest : List Json) :
      SchemaKind.ofJson? kind = some k → Part.ofKind? k = some part → Edit reorders part j j' →
      Edit reorders .schema (.array (kind :: j :: rest)) (.array (kind :: j' :: rest))
  | entry {name : String} {j j' : Json} (before after : Keyed Json) : Edit reorders .schema j j' →
      Edit reorders .fields (.object (before ++ (name, j) :: after))
        (.object (before ++ (name, j') :: after))
  | branch {j j' : Json} (before after : List Json) : Edit reorders .schema j j' →
      Edit reorders .branches (.array (before ++ j :: after)) (.array (before ++ j' :: after))
  /-- The entries of a fields object change places. -/
  | entries {members members' : Keyed Json} : reorders = true → Keyed.Distinct members →
      members.Perm members' → Edit reorders .fields (.object members) (.object members')

/-- Any number of changes of a schema document. -/
def Edited (reorders : Bool) : Json → Json → Prop :=
  Relation.ReflTransGen (Edit reorders .schema)

/-- The schemas differ only by the order of declared fields, at any depth. -/
inductive Reordered : Schema → Schema → Prop where
  | refl (s : Schema) : Reordered s s
  | trans {s t u : Schema} : Reordered s t → Reordered t u → Reordered s u
  | inside (C : Template) {s t : Schema} : Reordered s t → Reordered (C.fill s) (C.fill t)
  | fields {fs gs : List (String × Schema)} : fs.Perm gs → Reordered (.object fs) (.object gs)

theorem congruence_eq : Congruence Eq :=
  ⟨fun _ => rfl, Eq.trans, fun C _ _ e => congrArg C.fill e⟩

theorem Reordered.congruence : Congruence Reordered := ⟨.refl, .trans, .inside⟩

/-! ## One change -/

section
variable {R : Schema → Schema → Prop}

/-- What a schema object is read as depends on its kind, on its tag, and on what the parts under
its names are read as. -/
theorem rel_ofSubdocument?_object (hR : Congruence R) {members members' : Keyed Json}
    (htype : Keyed.only? "type" members' = Keyed.only? "type" members)
    (hname : Keyed.only? "name" members' = Keyed.only? "name" members)
    (hparts : ∀ name part, Part.ofName? name = some part → Option.Rel R
      ((Keyed.only? name members).bind part.read?) ((Keyed.only? name members').bind part.read?)) :
    Option.Rel R (ofSubdocument? (.object members)) (ofSubdocument? (.object members')) := by
  have hvalue := hparts "value" .literal rfl
  have hitems := hparts "items" .schema rfl
  have hinner := hparts "inner" .schema rfl
  have hfields := hparts "fields" .fields rfl
  have hbranches := hparts "anyOf" .branches rfl
  simp only [ofSubdocument?, schemaUnder?_eq, fieldsUnder?_eq, branchesUnder?_eq, htype, hname,
    Option.map_bind]
  cases (Keyed.only? "type" members).bind SchemaKind.ofJson? with
  | none => exact .none
  | some k =>
    cases k with
    | tag => exact Related.rel_refl hR.refl _
    | literal => exact hvalue
    | array =>
      dsimp only
      rw [← Option.map_bind, ← Option.map_bind]
      exact Related.rel_map hitems fun _ _ => hR.inside (.array .hole)
    | nullable =>
      dsimp only
      rw [← Option.map_bind, ← Option.map_bind]
      exact Related.rel_map hinner fun _ _ => hR.inside (.nullable .hole)
    | optional =>
      dsimp only
      rw [← Option.map_bind, ← Option.map_bind]
      exact Related.rel_map hinner fun _ _ => hR.inside (.optional .hole)
    | object => exact hfields
    | union => exact hbranches
    | undefined => exact .some (hR.refl _)
    | null => exact .some (hR.refl _)
    | any => exact .some (hR.refl _)
    | unknown => exact .some (hR.refl _)
    | never => exact .some (hR.refl _)

/-- An object is read as before if what is under the names that count is. -/
theorem read?_object_congr {part : Part} {members members' : Keyed Json}
    (hpart : part = .schema ∨ part = .literal)
    (h : ∀ name ∈ memberNames, Keyed.only? name members' = Keyed.only? name members) :
    part.read? (.object members') = part.read? (.object members) := by
  rcases hpart with rfl | rfl
  · simp only [Part.read?, ofSubdocument?, schemaUnder?_eq, fieldsUnder?_eq, branchesUnder?_eq,
      h "type" (by decide), h "name" (by decide), h "value" (by decide), h "items" (by decide),
      h "inner" (by decide), h "fields" (by decide), h "anyOf" (by decide)]
  · simp only [Part.read?, Literal.ofJson?, h "kind" (by decide), h "example" (by decide)]

theorem rel_member (hR : Congruence R) {part : Part} {name : String} {j j' : Json}
    (before after : Keyed Json) (hname : Part.ofName? name = some part)
    (h : Option.Rel R (part.read? j) (part.read? j')) :
    Option.Rel R (ofSubdocument? (.object (before ++ (name, j) :: after)))
      (ofSubdocument? (.object (before ++ (name, j') :: after))) := by
  have other {key : String} (hkey : Part.ofName? key = none) :
      Keyed.only? key (before ++ (name, j') :: after) =
        Keyed.only? key (before ++ (name, j) :: after) := by
    have hne : name ≠ key := by
      rintro rfl
      rw [hname] at hkey
      cases hkey
    exact Keyed.only?_around hne before after
  refine rel_ofSubdocument?_object hR (other rfl) (other rfl) fun key part' hkey => ?_
  have under : Option.Rel (fun a b => Option.Rel R (part'.read? a) (part'.read? b))
      (Keyed.only? key (before ++ (name, j) :: after))
      (Keyed.only? key (before ++ (name, j') :: after)) := by
    have same (a : Json) : Option.Rel R (part'.read? a) (part'.read? a) :=
      Related.rel_refl hR.refl _
    refine Keyed.rel_only?_around same ?_ before after
    rintro rfl
    obtain rfl := Option.some.inj (hname.symm.trans hkey)
    exact h
  exact Related.rel_bind under fun _ _ hab => hab

/-- An array of a kind and two more items is refused. -/
theorem rel_content (hR : Congruence R) {part : Part} {kind j j' : Json} {k : SchemaKind}
    (rest : List Json) (hkind : SchemaKind.ofJson? kind = some k)
    (hk : Part.ofKind? k = some part) (h : Option.Rel R (part.read? j) (part.read? j')) :
    Option.Rel R (ofSubdocument? (.array (kind :: j :: rest)))
      (ofSubdocument? (.array (kind :: j' :: rest))) := by
  cases rest with
  | cons _ _ => exact .none
  | nil =>
    simp only [ofSubdocument?, hkind]
    cases k with
    | literal => cases hk; exact h
    | object => cases hk; exact h
    | union => cases hk; exact h
    | array => cases hk; exact Related.rel_map h fun _ _ => hR.inside (.array .hole)
    | nullable => cases hk; exact Related.rel_map h fun _ _ => hR.inside (.nullable .hole)
    | optional => cases hk; exact Related.rel_map h fun _ _ => hR.inside (.optional .hole)
    | _ => cases hk

theorem rel_entry (hR : Congruence R) {name : String} {j j' : Json} (before after : Keyed Json)
    (h : Option.Rel R (ofSubdocument? j) (ofSubdocument? j')) :
    Option.Rel R (Part.fields.read? (.object (before ++ (name, j) :: after)))
      (Part.fields.read? (.object (before ++ (name, j') :: after))) := by
  simp only [Part.read?, fieldsOf?, fieldList?_eq, Related.mapM_around]
  generalize ofSubdocument? j = o, ofSubdocument? j' = o' at h ⊢
  cases before.mapM fun p => (ofSubdocument? p.2).map fun s => (p.1, s) with
  | none => exact .none
  | some front =>
    cases h with
    | none => exact .none
    | @some s t hst =>
      cases after.mapM fun p => (ofSubdocument? p.2).map fun s => (p.1, s) with
      | none => exact .none
      | some rest =>
        have same (fields : Keyed Schema) :
            List.Forall₂ (fun p q => p.1 = q.1 ∧ R p.2 q.2) fields fields :=
          List.forall₂_same.mpr fun p _ => ⟨rfl, hR.refl p.2⟩
        have all : List.Forall₂ (fun p q => p.1 = q.1 ∧ R p.2 q.2) (front ++ (name, s) :: rest)
            (front ++ (name, t) :: rest) :=
          List.rel_append (same front) (.cons ⟨rfl, hst⟩ (same rest))
        exact .some (hR.fieldwise (Keyed.forall₂_ofList all) [])

theorem rel_branch (hR : Congruence R) {j j' : Json} (before after : List Json)
    (h : Option.Rel R (ofSubdocument? j) (ofSubdocument? j')) :
    Option.Rel R (Part.branches.read? (.array (before ++ j :: after)))
      (Part.branches.read? (.array (before ++ j' :: after))) := by
  simp only [Part.read?, branchesOf?, branchList?_eq, Related.mapM_around]
  generalize ofSubdocument? j = o, ofSubdocument? j' = o' at h ⊢
  cases before.mapM ofSubdocument? with
  | none => exact .none
  | some front =>
    cases h with
    | none => exact .none
    | some hst =>
      cases after.mapM ofSubdocument? with
      | none => exact .none
      | some rest => exact .some (hR.branch hst front rest)

/-- What is read one after the other is read in any order. -/
theorem rel_mapM_perm {α β : Type} (g : α → Option β) {as bs : List α} (hp : as.Perm bs) :
    Option.Rel List.Perm (as.mapM g) (bs.mapM g) := by
  induction hp with
  | nil => exact .some (.refl _)
  | cons a _ ih =>
    simp only [List.mapM_cons, Option.bind_eq_bind]
    cases g a with
    | none => exact .none
    | some b =>
      rw [Option.bind_some, Option.bind_some]
      refine Related.rel_bind ih fun ys zs h => ?_
      exact .some (h.cons b)
  | swap a b rest =>
    simp only [List.mapM_cons]
    cases g a with
    | none => cases g b <;> exact .none
    | some a' =>
      cases g b with
      | none => exact .none
      | some b' =>
        cases rest.mapM g with
        | none => exact .none
        | some ys => exact .some (.swap a' b' ys)
  | trans _ _ ih ih' => exact Related.rel_trans (U := List.Perm) List.Perm.trans ih ih'

theorem rel_entries (hperm : ∀ fs gs : List (String × Schema), fs.Perm gs →
      R (.object fs) (.object gs)) {members members' : Keyed Json}
    (hd : Keyed.Distinct members) (hp : members.Perm members') :
    Option.Rel R (Part.fields.read? (.object members)) (Part.fields.read? (.object members')) := by
  have hd' : Keyed.Distinct members' := (hp.map Prod.fst).nodup_iff.mp hd
  have distinct {ms : Keyed Json} {fs : Keyed Schema} (hms : Keyed.Distinct ms)
      (hfs : ms.mapM (fun p => (ofSubdocument? p.2).map fun s => (p.1, s)) = some fs) :
      Keyed.Distinct fs := by
    rwa [Keyed.Distinct, Keyed.keys_of_mapM ofSubdocument? hfs]
  have lists := rel_mapM_perm (fun p => (ofSubdocument? p.2).map fun s => (p.1, s)) hp
  have objects := Related.rel_imp (S := fun fs gs => R (.object (Keyed.ofList fs))
    (.object (Keyed.ofList gs))) lists fun fs gs hfs hgs h => by
      rw [(distinct hd hfs).ofList_eq, (distinct hd' hgs).ofList_eq]
      exact hperm fs gs h
  simp only [Part.read?, fieldsOf?, fieldList?_eq, Option.map_map]
  exact Related.rel_map objects fun _ _ h => h

/-- One change of a part does not change what it is read as, but for the order of fields. -/
theorem Edit.rel_read? {reorders : Bool} {part : Part} {j j' : Json} (hR : Congruence R)
    (hperm : reorders = true → ∀ fs gs : List (String × Schema), fs.Perm gs →
      R (.object fs) (.object gs)) (e : Edit reorders part j j') :
    Option.Rel R (part.read? j) (part.read? j') := by
  induction e with
  | permute hpart hp =>
    rw [read?_object_congr hpart fun name _ => Keyed.only?_perm hp name]
    exact Related.rel_refl hR.refl _
  | @add _ members name j hpart hname =>
    have same (key : String) (hkey : key ∈ memberNames) :
        Keyed.only? key ((name, j) :: members) = Keyed.only? key members := by
      apply Keyed.only?_cons_ne
      rintro rfl
      exact hname hkey
    rw [read?_object_congr hpart same]
    exact Related.rel_refl hR.refl _
  | member before after hname _ ih => exact rel_member hR before after hname ih
  | content rest hkind hk _ ih => exact rel_content hR rest hkind hk ih
  | entry before after _ ih => exact rel_entry hR before after ih
  | branch before after _ ih => exact rel_branch hR before after ih
  | entries hr hd hp => exact rel_entries (hperm hr) hd hp

/-- Nor does it change how a document gives its kind. -/
theorem Edit.isNamed_eq {reorders : Bool} {j j' : Json} (e : Edit reorders .schema j j') :
    isNamed j' = isNamed j := by
  cases e with
  | permute _ hp => rw [isNamed, isNamed, Keyed.only?_perm hp]
  | add j _ hname =>
    rw [isNamed, isNamed, Keyed.only?_cons_ne]
    rintro rfl
    exact hname (by decide)
  | member before after hname _ =>
    rw [isNamed, isNamed, Keyed.only?_around]
    rintro rfl
    cases hname
  | content _ _ _ _ => rfl

theorem rel_ofDocument? {reorders : Bool} {j j' : Json} (hR : Congruence R)
    (hperm : reorders = true → ∀ fs gs : List (String × Schema), fs.Perm gs →
      R (.object fs) (.object gs)) (e : Edit reorders .schema j j') :
    Option.Rel R (ofDocument? j) (ofDocument? j') := by
  rw [ofDocument?, ofDocument?, e.isNamed_eq]
  split
  · exact e.rel_read? hR hperm
  · exact .none

/-! ## Any number of changes -/

theorem rel_ofDocument?_of_edited {reorders : Bool} {j j' : Json} (hR : Congruence R)
    (hperm : reorders = true → ∀ fs gs : List (String × Schema), fs.Perm gs →
      R (.object fs) (.object gs)) (e : Edited reorders j j') :
    Option.Rel R (ofDocument? j) (ofDocument? j') := by
  induction e with
  | refl => exact Related.rel_refl hR.refl _
  | tail _ e ih => exact Related.rel_trans (U := R) hR.trans ih (rel_ofDocument? hR hperm e)

/-- However the members of the schema objects and literal objects in a document are ordered, and
whatever else they get under names that do not count, the document is read as before; if the
entries of fields objects change places as well, it is refused as before, or read as a schema with
its fields in another order. -/
theorem ofDocument?_edited {j j' : Json} :
    (Edited false j j' → ofDocument? j' = ofDocument? j) ∧
    (Edited true j j' → Option.Rel Reordered (ofDocument? j) (ofDocument? j')) := by
  constructor
  · intro e
    have same := rel_ofDocument?_of_edited congruence_eq (fun h => absurd h Bool.false_ne_true) e
    exact (Related.eq_of_rel same).symm
  · exact rel_ofDocument?_of_edited Reordered.congruence fun _ _ _ => .fields

end

def switchDocument : Json :=
  document .literal "value" (.object [("kind", .string "boolean"), ("example", .bool true)])

/-- The same with every kind behind the rest. -/
def turnedSwitch : Json :=
  .object [("value", .object [("example", .bool true), ("kind", .string "boolean")]),
    ("type", .string "literal")]

/-- The fields of a lamp with a switch and a name. -/
def lampFields (switch : Json) : Keyed Json :=
  [("on", switch), ("name", document .tag "name" (.string "string"))]

def lampDocument (switch : Json) : Json := document .object "fields" (.object (lampFields switch))

/-- The lamp with a title, and with its kinds behind the rest. -/
def titledLamp : Json :=
  .object [("title", .string "lamp"), ("fields", .object (lampFields turnedSwitch)),
    ("type", .string "object")]

theorem edited_titledLamp : Edited false (lampDocument switchDocument) titledLamp := by
  have inside {switch switch' : Json} (e : Edit false .schema switch switch') :
      Edit false .schema (lampDocument switch) (lampDocument switch') :=
    .member [("type", .string "object")] [] rfl (.entry [] [("name", _)] e)
  have literal : Edit false .schema switchDocument (document .literal "value"
      (.object [("example", .bool true), ("kind", .string "boolean")])) :=
    .member [("type", .string "literal")] [] rfl (.permute (.inr rfl) (.swap _ _ []))
  have turned : Edit false .schema (document .literal "value"
      (.object [("example", .bool true), ("kind", .string "boolean")])) turnedSwitch :=
    .permute (.inl rfl) (.swap _ _ [])
  have titled : Edit false .schema (lampDocument turnedSwitch) (.object [("title", .string "lamp"),
      ("type", .string "object"), ("fields", .object (lampFields turnedSwitch))]) :=
    .add (.string "lamp") (.inl rfl) (by decide)
  have moved : Edit false .schema (.object [("title", .string "lamp"), ("type", .string "object"),
      ("fields", .object (lampFields turnedSwitch))]) titledLamp :=
    .permute (.inl rfl) ((List.Perm.swap _ _ []).cons _)
  exact (((Relation.ReflTransGen.single (inside literal)).tail (inside turned)).tail titled).tail
    moved

/-- The fields of the lamp in the other order. -/
theorem edited_swappedLamp : Edited true (lampDocument switchDocument)
    (document .object "fields" (.object (lampFields switchDocument).reverse)) :=
  .single (.member [("type", .string "object")] [] rfl
    (.entries rfl (show List.Nodup ["on", "name"] by decide) (.swap _ _ [])))

theorem ofDocument?_edited_lamp :
    ofDocument? (lampDocument switchDocument) =
      some (.object [("on", .literal (.bool true)), ("name", .tag "string")]) ∧
    ofDocument? titledLamp = ofDocument? (lampDocument switchDocument) ∧
    Option.Rel Reordered (ofDocument? (lampDocument switchDocument))
      (ofDocument? (document .object "fields" (.object (lampFields switchDocument).reverse))) :=
  ⟨rfl, ofDocument?_edited.1 edited_titledLamp, ofDocument?_edited.2 edited_swappedLamp⟩

end Schema

end GuardedData
