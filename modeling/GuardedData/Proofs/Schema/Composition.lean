import GuardedData.Proofs.Keyed
import GuardedData.Proofs.Schema.RoundTrip

/-!
# Documents inside documents

`named j` is `j` with its kind given by name, where `j` gives it by its place
among the kinds. Inside another document `j` is read as `named j` is read alone
(`ofSubdocument?_eq`). A `Context` is a document with a hole in it; what fills
the hole counts only through what it means alone (`ofDocument?_plug`).
-/

namespace GuardedData

namespace Json

def givenKind? : Json → Option Json
  | .object members => Keyed.only? "type" members
  | .array (kind :: _) => some kind
  | _ => none

def withKind : Json → Json → Json
  | .object members, kind =>
    .object (members.map fun p => (p.1, if p.1 = "type" then kind else p.2))
  | .array (_ :: rest), kind => .array (kind :: rest)
  | j, _ => j

/-- The document with its kind given by name and not by its place among the kinds. -/
def named (j : Json) : Json :=
  match j.givenKind?.bind SchemaKind.ofJson? with
  | some k => j.withKind (.string k.name)
  | none => j

end Json

theorem SchemaKind.name_of_ofName? {s : String} {k : SchemaKind} (h : ofName? s = some k) :
    s = k.name := by
  have hname := List.find?_some h
  exact (of_decide_eq_true hname).symm

/-- A kind is given by its name or by its place. -/
theorem SchemaKind.ofJson?_cases {j : Json} {k : SchemaKind} (h : ofJson? j = some k) :
    j = .string k.name ∨ ∃ n : Nat, n < all.length ∧ j = .number (.int n) := by
  unfold ofJson? at h
  split at h
  · exact .inl (congrArg _ (name_of_ofName? h))
  · split at h
    · cases h
    · next n hn =>
      obtain ⟨hlt, -⟩ := List.getElem?_eq_some_iff.mp h
      exact .inr ⟨n.toNat, hlt, by rw [Int.toNat_of_nonneg (Int.not_lt.mp hn)]⟩
  · cases h

namespace Json

section
variable {j kind : Json}

theorem givenKind?_withKind (h : j.givenKind? = some kind) (other : Json) :
    (j.withKind other).givenKind? = some other := by
  cases j with
  | object members =>
    have htype : Keyed.only? "type" members = some kind := h
    rw [withKind, givenKind?, Keyed.only?_map_self, htype]
    rfl
  | array items =>
    cases items with
    | nil => cases h
    | cons _ _ => rfl
  | null => cases h
  | bool _ => cases h
  | number _ => cases h
  | string _ => cases h

theorem withKind_self (h : j.givenKind? = some kind) : j.withKind kind = j := by
  cases j with
  | object members => exact congrArg object (Keyed.map_of_only? h)
  | array items =>
    cases items with
    | nil => cases h
    | cons _ rest => exact congrArg (fun k => array (k :: rest)) (Option.some.inj h).symm
  | null => rfl
  | bool _ => rfl
  | number _ => rfl
  | string _ => rfl

end

end Json

namespace Schema

/-! ## One document inside another one -/

theorem ofSubdocument?_eq_none {j : Json} (h : j.givenKind?.bind SchemaKind.ofJson? = none) :
    ofSubdocument? j = none := by
  cases j with
  | object members =>
    rw [ofSubdocument?]
    rw [Json.givenKind?] at h
    rw [h]
  | array items =>
    rcases items with _ | ⟨kind, _ | ⟨content, _ | ⟨_, _⟩⟩⟩
    · rfl
    · have hk : SchemaKind.ofJson? kind = none := h
      rw [ofSubdocument?, hk]
    · have hk : SchemaKind.ofJson? kind = none := h
      rw [ofSubdocument?, hk]
    · rfl
  | null => rfl
  | bool _ => rfl
  | number _ => rfl
  | string _ => rfl

/-- What a document is read as depends only on what is read under each name that counts. -/
theorem ofSubdocument?_congr {members members' : Keyed Json}
    (htype : (Keyed.only? "type" members').bind SchemaKind.ofJson? =
      (Keyed.only? "type" members).bind SchemaKind.ofJson?)
    (hname : (Keyed.only? "name" members').bind Json.string? =
      (Keyed.only? "name" members).bind Json.string?)
    (hvalue : (Keyed.only? "value" members').bind Literal.ofJson? =
      (Keyed.only? "value" members).bind Literal.ofJson?)
    (hitems : (Keyed.only? "items" members').bind ofSubdocument? =
      (Keyed.only? "items" members).bind ofSubdocument?)
    (hinner : (Keyed.only? "inner" members').bind ofSubdocument? =
      (Keyed.only? "inner" members).bind ofSubdocument?)
    (hfields : (Keyed.only? "fields" members').bind fieldsOf? =
      (Keyed.only? "fields" members).bind fieldsOf?)
    (hbranches : (Keyed.only? "anyOf" members').bind branchesOf? =
      (Keyed.only? "anyOf" members).bind branchesOf?) :
    ofSubdocument? (.object members') = ofSubdocument? (.object members) := by
  simp only [ofSubdocument?, schemaUnder?_eq, fieldsUnder?_eq, branchesUnder?_eq, htype, hname,
    hvalue, hitems, hinner, hfields, hbranches]

/-- Only the kind counts, not how it is given. -/
theorem ofSubdocument?_withKind {j : Json} {k : SchemaKind}
    (h : j.givenKind?.bind SchemaKind.ofJson? = some k) :
    ofSubdocument? (j.withKind (.string k.name)) = ofSubdocument? j := by
  have hkind : SchemaKind.ofJson? (.string k.name) = some k := ofName?_name k
  cases j with
  | object members =>
    have hsame : ∀ {name : String}, name ≠ "type" → ∀ {α : Type} (read : Json → Option α),
        (Keyed.only? name (members.map fun p =>
          (p.1, if p.1 = "type" then Json.string k.name else p.2))).bind read =
            (Keyed.only? name members).bind read := fun hname _ read => by
      rw [Keyed.only?_map_ne hname]
    obtain ⟨kind, (htype : Keyed.only? "type" members = some kind), hk⟩ :=
      Option.bind_eq_some_iff.mp h
    refine ofSubdocument?_congr ?_ (hsame (by decide) _) (hsame (by decide) _)
      (hsame (by decide) _) (hsame (by decide) _) (hsame (by decide) _) (hsame (by decide) _)
    rw [Keyed.only?_map_self, htype]
    exact hkind.trans hk.symm
  | array items =>
    rcases items with _ | ⟨kind, _ | ⟨content, _ | ⟨_, _⟩⟩⟩
    · cases h
    · have hk : SchemaKind.ofJson? kind = some k := h
      rw [Json.withKind, ofSubdocument?, ofSubdocument?, hkind, hk]
    · have hk : SchemaKind.ofJson? kind = some k := h
      rw [Json.withKind, ofSubdocument?, ofSubdocument?, hkind, hk]
    · rfl
  | null => cases h
  | bool _ => cases h
  | number _ => cases h
  | string _ => cases h

theorem isNamed_eq (j : Json) : isNamed j = (j.givenKind?.bind Json.string?).isSome := by
  cases j with
  | object members => rfl
  | array items =>
    cases items with
    | nil => rfl
    | cons _ _ => rfl
  | null => rfl
  | bool _ => rfl
  | number _ => rfl
  | string _ => rfl

/-- Inside another document a document is read as it is read alone, its kind given by name. -/
theorem ofSubdocument?_eq (j : Json) : ofSubdocument? j = ofDocument? j.named := by
  rw [Json.named]
  cases hk : j.givenKind?.bind SchemaKind.ofJson? with
  | none =>
    dsimp only
    rw [ofDocument?, ofSubdocument?_eq_none hk]
    split <;> rfl
  | some k =>
    obtain ⟨kind, hkind, -⟩ := Option.bind_eq_some_iff.mp hk
    have hnamed : isNamed (j.withKind (.string k.name)) = true := by
      rw [isNamed_eq, Json.givenKind?_withKind hkind]
      rfl
    dsimp only
    rw [ofDocument?, if_pos hnamed, ofSubdocument?_withKind hk]

/-- Only a kind that is given by its place is replaced, and such a document alone is refused. -/
theorem named_cases (j : Json) : j.named = j ∨
    ∃ n : Nat, n < SchemaKind.all.length ∧ j.givenKind? = some (.number (.int n)) ∧
      ofDocument? j = none := by
  rw [Json.named]
  cases hk : j.givenKind?.bind SchemaKind.ofJson? with
  | none => exact .inl rfl
  | some k =>
    obtain ⟨kind, hj, hkind⟩ := Option.bind_eq_some_iff.mp hk
    rcases SchemaKind.ofJson?_cases hkind with rfl | ⟨n, hn, rfl⟩
    · exact .inl (Json.withKind_self hj)
    · refine .inr ⟨n, hn, hj, ?_⟩
      rw [ofDocument?, isNamed_eq, hj]
      rfl

/-- What the members of a fields object mean, each of them alone. -/
theorem fieldList?_eq_named (members : List (String × Json)) : fieldList? members =
    members.mapM fun p => (ofDocument? p.2.named).map fun s => (p.1, s) := by
  simp only [fieldList?_eq, ofSubdocument?_eq]

/-- What the items of a list of branches mean, each of them alone. -/
theorem branchList?_eq_named (items : List Json) :
    branchList? items = items.mapM fun j => ofDocument? j.named := by
  rw [branchList?_eq]
  exact congrArg (List.mapM · items) (funext ofSubdocument?_eq)

theorem ofDocument?_array (j : Json) :
    ofDocument? (document .array "items" j) = (ofDocument? j.named).map .array := by
  rw [← ofSubdocument?_eq]
  rfl

theorem ofDocument?_nullable (j : Json) :
    ofDocument? (document .nullable "inner" j) = (ofDocument? j.named).map .nullable := by
  rw [← ofSubdocument?_eq]
  rfl

theorem ofDocument?_optional (j : Json) :
    ofDocument? (document .optional "inner" j) = (ofDocument? j.named).map .optional := by
  rw [← ofSubdocument?_eq]
  rfl

theorem ofDocument?_union (items : List Json) :
    ofDocument? (document .union "anyOf" (.array items)) =
      (items.mapM fun j => ofDocument? j.named).map .union := by
  rw [← branchList?_eq_named]
  rfl

theorem ofDocument?_object {members : Keyed Json} (h : Keyed.Distinct members) :
    ofDocument? (document .object "fields" (.object members)) =
      (members.mapM fun p => (ofDocument? p.2.named).map fun s => (p.1, s)).map .object := by
  have hread : ofDocument? (document .object "fields" (.object members)) =
      ((fieldList? members).map Keyed.ofList).map .object := rfl
  rw [hread, fieldList?_eq_named]
  cases hfields : members.mapM fun p => (ofDocument? p.2.named).map fun s => (p.1, s) with
  | none => rfl
  | some fields =>
    have hdistinct : Keyed.Distinct fields := by
      rwa [Keyed.Distinct, Keyed.keys_of_mapM (fun j : Json => ofDocument? j.named) hfields]
    exact congrArg (some ∘ object) hdistinct.ofList_eq

/-! ## Documents with a hole -/

/-- A schema document with a hole in the place of one of the documents in it. -/
inductive Context where
  | hole
  | array (items : Context)
  | nullable (inner : Context)
  | optional (inner : Context)
  | field (before : List (String × Json)) (name : String) (inner : Context)
      (after : List (String × Json))
  | branch (before : List Json) (inner : Context) (after : List Json)

namespace Context

def plug : Context → Json → Json
  | hole, j => j
  | array items, j => document .array "items" (items.plug j)
  | nullable inner, j => document .nullable "inner" (inner.plug j)
  | optional inner, j => document .optional "inner" (inner.plug j)
  | field before name inner after, j =>
    document .object "fields" (.object (before ++ (name, inner.plug j) :: after))
  | branch before inner after, j =>
    document .union "anyOf" (.array (before ++ inner.plug j :: after))

/-- The schema of the document when a document that means `s` fills the hole. -/
def schema? : Context → Schema → Option Schema
  | hole, s => some s
  | array items, s => (items.schema? s).map .array
  | nullable inner, s => (inner.schema? s).map .nullable
  | optional inner, s => (inner.schema? s).map .optional
  | field before name inner after, s => do
    let front ← before.mapM fun p => (ofDocument? p.2.named).map fun s => (p.1, s)
    let s ← inner.schema? s
    let rest ← after.mapM fun p => (ofDocument? p.2.named).map fun s => (p.1, s)
    return .object (Keyed.ofList (front ++ (name, s) :: rest))
  | branch before inner after, s => do
    let front ← before.mapM fun j => ofDocument? j.named
    let s ← inner.schema? s
    let rest ← after.mapM fun j => ofDocument? j.named
    return .union (front ++ s :: rest)

end Context

theorem ofSubdocument?_plug (C : Context) (j : Json) :
    ofSubdocument? (C.plug j) = (ofSubdocument? j).bind C.schema? := by
  induction C with
  | hole => exact (Option.bind_fun_some _).symm
  | array items ih =>
    have hread : ofSubdocument? ((Context.array items).plug j) =
        (ofSubdocument? (items.plug j)).map .array := rfl
    rw [hread, ih, Option.map_bind]
    rfl
  | nullable inner ih =>
    have hread : ofSubdocument? ((Context.nullable inner).plug j) =
        (ofSubdocument? (inner.plug j)).map .nullable := rfl
    rw [hread, ih, Option.map_bind]
    rfl
  | optional inner ih =>
    have hread : ofSubdocument? ((Context.optional inner).plug j) =
        (ofSubdocument? (inner.plug j)).map .optional := rfl
    rw [hread, ih, Option.map_bind]
    rfl
  | field before name inner after ih =>
    have hread : ofSubdocument? ((Context.field before name inner after).plug j) =
        ((fieldList? (before ++ (name, inner.plug j) :: after)).map Keyed.ofList).map .object := rfl
    have hinner : (ofSubdocument? (inner.plug j)).map (fun s => (name, s)) =
        (ofSubdocument? j).bind fun s => (inner.schema? s).map fun s => (name, s) := by
      rw [ih, Option.map_bind]
      rfl
    rw [hread, fieldList?_eq_named, Related.mapM_around, ← ofSubdocument?_eq, hinner,
      Related.bind_around]
    cases ofSubdocument? j with
    | none => rfl
    | some s =>
      simp only [Context.schema?, Option.bind_eq_bind, Option.pure_def, Option.bind_some,
        Option.map_bind, Function.comp_def, Option.map_some, Option.bind_map]
  | branch before inner after ih =>
    have hread : ofSubdocument? ((Context.branch before inner after).plug j) =
        (branchList? (before ++ inner.plug j :: after)).map .union := rfl
    rw [hread, branchList?_eq_named, Related.mapM_around, ← ofSubdocument?_eq, ih,
      Related.bind_around]
    cases ofSubdocument? j with
    | none => rfl
    | some s =>
      simp only [Context.schema?, Option.bind_eq_bind, Option.pure_def, Option.bind_some,
        Option.map_bind, Function.comp_def, Option.map_some]

/-- A document inside others counts only through what it means alone. -/
theorem ofDocument?_plug {C : Context} (hC : C ≠ .hole) (j : Json) :
    ofDocument? (C.plug j) = (ofDocument? j.named).bind C.schema? := by
  have hwhole : ofDocument? (C.plug j) = ofSubdocument? (C.plug j) := by
    cases C with
    | hole => exact absurd rfl hC
    | array _ => exact ofDocument?_document _ (by decide) _
    | nullable _ => exact ofDocument?_document _ (by decide) _
    | optional _ => exact ofDocument?_document _ (by decide) _
    | field _ _ _ _ => exact ofDocument?_document _ (by decide) _
    | branch _ _ _ => exact ofDocument?_document _ (by decide) _
  rw [hwhole, ofSubdocument?_plug, ofSubdocument?_eq]

/-- Any value, its kind given by its place among the kinds. -/
def placedAny : Json := .object [("type", .number (.int 9))]

/-- Alone it is refused, as the items of an array it is any value. -/
theorem ofDocument?_placedAny : ofDocument? placedAny = none ∧
    ofDocument? (document .array "items" placedAny) = some (.array .any) :=
  ⟨rfl, rfl⟩

/-- A document means inside others what it means alone, its kind given by name. Only a kind that
is given by its place among the kinds is replaced for that. -/
theorem ofDocument?_compositional (j : Json) :
    (j.named = j ∨ ∃ n : Nat, n < SchemaKind.all.length ∧
      j.givenKind? = some (.number (.int n)) ∧ ofDocument? j = none) ∧
    ofDocument? (document .array "items" j) = (ofDocument? j.named).map .array ∧
    ofDocument? (document .nullable "inner" j) = (ofDocument? j.named).map .nullable ∧
    ofDocument? (document .optional "inner" j) = (ofDocument? j.named).map .optional ∧
    (∀ items, ofDocument? (document .union "anyOf" (.array items)) =
      (items.mapM fun j => ofDocument? j.named).map .union) ∧
    (∀ members, Keyed.Distinct members →
      ofDocument? (document .object "fields" (.object members)) =
        (members.mapM fun p => (ofDocument? p.2.named).map fun s => (p.1, s)).map .object) ∧
    ∀ C : Context, C ≠ .hole → ofDocument? (C.plug j) = (ofDocument? j.named).bind C.schema? :=
  ⟨named_cases j, ofDocument?_array j, ofDocument?_nullable j, ofDocument?_optional j,
    ofDocument?_union, fun _ h => ofDocument?_object h, fun _ h => ofDocument?_plug h j⟩

def rowContext : Context :=
  .array (.field [("key", bareDocument .never)] "cells" (.branch [] .hole [bareDocument .null]) [])

theorem ofDocument?_compositional_row :
    Keyed.Distinct [("a", placedAny), ("b", bareDocument .never)] ∧ rowContext ≠ .hole ∧
      ofDocument? (document .object "fields"
        (.object [("a", placedAny), ("b", bareDocument .never)])) =
          some (.object [("a", .any), ("b", .never)]) ∧
      ofDocument? (rowContext.plug placedAny) =
        some (.array (.object [("key", .never), ("cells", .union [.any, .null])])) := by
  have hdistinct : Keyed.Distinct [("a", placedAny), ("b", bareDocument .never)] :=
    show List.Nodup _ by decide
  have hcontext : rowContext ≠ .hole := fun e => by cases e
  obtain ⟨-, -, -, -, -, hobject, hplug⟩ := ofDocument?_compositional placedAny
  exact ⟨hdistinct, hcontext, hobject _ hdistinct, hplug _ hcontext⟩

end Schema

end GuardedData
