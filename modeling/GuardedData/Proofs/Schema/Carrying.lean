import GuardedData.Proofs.Schema.Documents
import GuardedData.Schema.Decoding

/-!
# Reading the document of a schema

An encoding carries the document of a schema over: its finite numbers stay, a
number that is not finite becomes null, and an integer stays a number or stops
the encoding (`Carrier`). What is read back is the schema, or nothing if one of
its literals is not `Readable` (`carried_eq_some_iff`).
-/

namespace GuardedData

section
variable {α β γ : Type}

theorem mapM_bind_mapM (g : α → Option β) (h : β → Option γ) (xs : List α) :
    (xs.mapM g).bind (List.mapM h) = xs.mapM fun x => (g x).bind h := by
  induction xs with
  | nil => rfl
  | cons x xs ih =>
    simp only [List.mapM_cons, ← ih]
    cases g x with
    | none => rfl
    | some b =>
      cases xs.mapM g <;> cases hb : h b <;> simp [hb]

theorem mapM_eq_some_self {g : α → Option α} {P : α → Prop} {xs : List α}
    (h : ∀ x ∈ xs, ∀ y, g x = some y ↔ P x ∧ y = x) (ys : List α) :
    xs.mapM g = some ys ↔ (∀ x ∈ xs, P x) ∧ ys = xs := by
  induction xs generalizing ys with
  | nil => simp [eq_comm]
  | cons x xs ih =>
    have hx := h x List.mem_cons_self
    have hxs := ih fun y hy => h y (List.mem_cons_of_mem _ hy)
    simp only [List.mapM_cons, Option.bind_eq_bind, Option.bind_eq_some_iff, hx, hxs,
      List.forall_mem_cons]
    constructor
    · rintro ⟨_, ⟨hp, rfl⟩, _, ⟨hps, rfl⟩, e⟩
      exact ⟨⟨hp, hps⟩, (Option.some.inj e).symm⟩
    · rintro ⟨⟨hp, hps⟩, rfl⟩
      exact ⟨x, ⟨hp, rfl⟩, xs, ⟨hps, rfl⟩, rfl⟩

end

namespace Literal

/-- The literal is read back: it is no big integer, and its number is finite. -/
def Readable : Literal → Prop
  | number x => x.isFinite = true
  | bigint _ => False
  | _ => True

end Literal

namespace Schema

/-- Every literal in the schema is read back. -/
def Readable (s : Schema) : Prop := ∀ l, Within (.literal l) s → l.Readable

theorem readable_literal {l : Literal} : (literal l).Readable ↔ l.Readable :=
  ⟨fun h => h l .refl, fun h _ hl => by cases hl; exact h⟩

theorem readable_array {s : Schema} : (array s).Readable ↔ s.Readable :=
  ⟨fun h l hl => h l (.array hl), fun h l hl => by cases hl with | array hl => exact h l hl⟩

theorem readable_nullable {s : Schema} : (nullable s).Readable ↔ s.Readable :=
  ⟨fun h l hl => h l (.nullable hl), fun h l hl => by cases hl with | nullable hl => exact h l hl⟩

theorem readable_optional {s : Schema} : (optional s).Readable ↔ s.Readable :=
  ⟨fun h l hl => h l (.optional hl), fun h l hl => by cases hl with | optional hl => exact h l hl⟩

theorem readable_object {fields : List (String × Schema)} :
    (object fields).Readable ↔ ∀ k s, (k, s) ∈ fields → s.Readable :=
  ⟨fun h _ _ hm l hl => h l (.field hm hl),
    fun h l hl => by cases hl with | field hm hl => exact h _ _ hm l hl⟩

theorem readable_union {branches : List Schema} :
    (union branches).Readable ↔ ∀ s ∈ branches, s.Readable :=
  ⟨fun h _ hm l hl => h l (.branch hm hl),
    fun h l hl => by cases hl with | branch hm hl => exact h _ hm l hl⟩

/-! ## Reading them back -/

/-- What a number becomes when a document is carried over: a binary64 number stays what it is or
is null, an integer becomes some number, if anything. -/
structure Carrier (f : Number → Option Json) : Prop where
  float (x : Float) : f (.float x) = some (Json.ofFloat x)
  int (n : Int) : f (.int n) = none ∨ ∃ m, f (.int n) = some (.number m)

/-- The schema that is read from the document when its numbers are carried over. -/
def carried (f : Number → Option Json) (s : Schema) : Option Schema :=
  (s.toDocument.mapNumbers? f).bind ofSubdocument?

section
variable {f : Number → Option Json}

theorem carried_document {α : Type} {s : Schema} {k : SchemaKind} {name : String} {content : Json}
    {read : Json → Option α} {g : α → Schema} (hs : s.toDocument = document k name content)
    (hread : ∀ j, ofSubdocument? (document k name j) = (read j).map g) :
    carried f s = ((content.mapNumbers? f).bind read).map g := by
  rw [carried, hs, mapNumbers?_document, Option.bind_map, Option.map_bind]
  exact congrArg _ (funext hread)

theorem carried_literal (hf : Carrier f) (l : Literal) (s : Schema) :
    carried f (.literal l) = some s ↔ l.Readable ∧ s = .literal l := by
  have hdocument : carried f (.literal l) =
      ((l.toDocument.mapNumbers? f).bind Literal.ofJson?).map .literal :=
    carried_document rfl fun _ => rfl
  have hsample : (l.toDocument.mapNumbers? f).bind Literal.ofJson? =
      (l.sample.mapNumbers? f).bind (Literal.ofParts? l.kindName) := by
    simp only [Literal.toDocument, Json.mapNumbers?, Json.mapMembers?]
    cases l.sample.mapNumbers? f <;> rfl
  rw [hdocument, hsample]
  cases l with
  | string t => exact ⟨fun h => ⟨trivial, (Option.some.inj h).symm⟩, fun h => by rw [h.2]; rfl⟩
  | bool b => exact ⟨fun h => ⟨trivial, (Option.some.inj h).symm⟩, fun h => by rw [h.2]; rfl⟩
  | number x =>
    rw [Literal.sample, Json.mapNumbers?, hf.float, Json.ofFloat]
    by_cases hx : x.isFinite = true
    · rw [if_pos hx]
      exact ⟨fun h => ⟨hx, (Option.some.inj h).symm⟩, fun h => by rw [h.2]; rfl⟩
    · rw [if_neg hx]
      refine ⟨fun h => ?_, fun h => absurd h.1 hx⟩
      cases h
  | bigint n =>
    refine ⟨fun h => ?_, fun h => h.1.elim⟩
    rw [Literal.sample, Json.mapNumbers?] at h
    rcases hf.int n with e | ⟨m, e⟩ <;> rw [e] at h <;> cases h

theorem carried_array (s : Schema) : carried f (.array s) = (carried f s).map .array :=
  carried_document rfl fun _ => rfl

theorem carried_nullable (s : Schema) : carried f (.nullable s) = (carried f s).map .nullable :=
  carried_document rfl fun _ => rfl

theorem carried_optional (s : Schema) : carried f (.optional s) = (carried f s).map .optional :=
  carried_document rfl fun _ => rfl

theorem fieldList?_eq (members : List (String × Json)) : fieldList? members =
    members.mapM fun p => (ofSubdocument? p.2).map fun s => (p.1, s) := by
  induction members with
  | nil => rfl
  | cons p rest ih =>
    simp only [fieldList?, ih, List.mapM_cons]
    cases ofSubdocument? p.2 <;> rfl

theorem branchList?_eq (items : List Json) : branchList? items = items.mapM ofSubdocument? := by
  induction items with
  | nil => rfl
  | cons j rest ih => simp only [branchList?, ih, List.mapM_cons]; rfl

theorem carried_object (fields : List (String × Schema)) : carried f (.object fields) =
    (fields.mapM fun p => (carried f p.2).map fun s => (p.1, s)).map
      fun ss => .object (Keyed.ofList ss) := by
  have hfields : ((fieldDocuments fields).mapM
      fun p : String × Json => (p.2.mapNumbers? f).map fun j => (p.1, j)).bind fieldList? =
        fields.mapM fun p => (carried f p.2).map fun s => (p.1, s) := by
    rw [funext fieldList?_eq, mapM_bind_mapM, fieldDocuments_eq, List.mapM_map]
    congr 1
    funext p
    show ((p.2.toDocument.mapNumbers? f).map _).bind _ = _
    rw [Option.bind_map, carried, Option.map_bind]
    rfl
  have hdocument : carried f (.object fields) =
      (((Json.object (fieldDocuments fields)).mapNumbers? f).bind fieldsOf?).map .object :=
    carried_document rfl fun _ => rfl
  have hread : fieldsOf? ∘ Json.object = Option.map Keyed.ofList ∘ fieldList? := rfl
  rw [hdocument, Json.mapNumbers?, Json.mapMembers?_eq, ← hfields, Option.bind_map, hread,
    ← Option.map_bind, Option.map_map]
  rfl

theorem carried_union (branches : List Schema) : carried f (.union branches) =
    (branches.mapM (carried f)).map .union := by
  have hbranches : ((branchDocuments branches).mapM (Json.mapNumbers? f)).bind branchList? =
      branches.mapM (carried f) := by
    rw [funext branchList?_eq, mapM_bind_mapM, branchDocuments_eq, List.mapM_map]
    rfl
  have hdocument : carried f (.union branches) =
      (((Json.array (branchDocuments branches)).mapNumbers? f).bind branchesOf?).map .union :=
    carried_document rfl fun _ => rfl
  rw [hdocument, Json.mapNumbers?, Json.mapItems?_eq, ← hbranches, Option.bind_map]
  rfl

theorem carried_of_eq {s : Schema} (h : carried f s = some s)
    (hs : ∀ l, Within (.literal l) s → False) (s' : Schema) :
    carried f s = some s' ↔ s.Readable ∧ s' = s := by
  rw [h]
  exact ⟨fun e => ⟨fun l hl => (hs l hl).elim, (Option.some.inj e).symm⟩,
    fun e => congrArg some e.2.symm⟩

theorem carried_of_map {s inner : Schema} {g : Schema → Schema} (he : s = g inner)
    (hg : carried f s = (carried f inner).map g) (hr : s.Readable ↔ inner.Readable)
    (ih : ∀ s', carried f inner = some s' ↔ inner.Readable ∧ s' = inner) (s' : Schema) :
    carried f s = some s' ↔ s.Readable ∧ s' = s := by
  rw [hg, Option.map_eq_some_iff, hr, he]
  constructor
  · rintro ⟨a, ha, rfl⟩
    obtain ⟨hi, rfl⟩ := (ih a).mp ha
    exact ⟨hi, rfl⟩
  · rintro ⟨hi, rfl⟩
    exact ⟨inner, (ih inner).mpr ⟨hi, rfl⟩, rfl⟩

theorem carried_object_eq_some_iff {fields : List (String × Schema)}
    (hd : Keyed.Distinct fields)
    (hc : ∀ p ∈ fields, ∀ s', carried f p.2 = some s' ↔ p.2.Readable ∧ s' = p.2) (s' : Schema) :
    carried f (.object fields) = some s' ↔ (object fields).Readable ∧ s' = object fields := by
  have hfields : ∀ p ∈ fields, ∀ q, (carried f p.2).map (fun s => (p.1, s)) = some q ↔
      p.2.Readable ∧ q = p := by
    intro p hp q
    rw [Option.map_eq_some_iff]
    constructor
    · rintro ⟨a, ha, rfl⟩
      obtain ⟨hr, rfl⟩ := (hc p hp a).mp ha
      exact ⟨hr, rfl⟩
    · rintro ⟨hr, rfl⟩
      exact ⟨q.2, (hc q hp q.2).mpr ⟨hr, rfl⟩, rfl⟩
  rw [carried_object, Option.map_eq_some_iff, readable_object]
  constructor
  · rintro ⟨ss, hss, rfl⟩
    obtain ⟨hr, rfl⟩ := (mapM_eq_some_self hfields ss).mp hss
    exact ⟨fun k s hm => hr (k, s) hm, congrArg Schema.object hd.ofList_eq⟩
  · rintro ⟨hr, rfl⟩
    exact ⟨fields, (mapM_eq_some_self hfields fields).mpr ⟨fun p hp => hr p.1 p.2 hp, rfl⟩,
      congrArg Schema.object hd.ofList_eq⟩

theorem carried_union_eq_some_iff {branches : List Schema}
    (hc : ∀ s ∈ branches, ∀ s', carried f s = some s' ↔ s.Readable ∧ s' = s) (s' : Schema) :
    carried f (.union branches) = some s' ↔ (union branches).Readable ∧ s' = union branches := by
  rw [carried_union, Option.map_eq_some_iff, readable_union]
  constructor
  · rintro ⟨ss, hss, rfl⟩
    obtain ⟨hr, rfl⟩ := (mapM_eq_some_self hc ss).mp hss
    exact ⟨hr, rfl⟩
  · rintro ⟨hr, rfl⟩
    exact ⟨branches, (mapM_eq_some_self hc branches).mpr ⟨hr, rfl⟩, rfl⟩

/-- Reading a document back gives the schema if all its literals are read back, and nothing
otherwise. -/
theorem carried_eq_some_iff (hf : Carrier f) {s : Schema} (hs : s.WellFormed) (s' : Schema) :
    carried f s = some s' ↔ s.Readable ∧ s' = s := by
  induction s generalizing s' with
  | undefined => exact carried_of_eq rfl (fun _ h => by cases h) s'
  | null => exact carried_of_eq rfl (fun _ h => by cases h) s'
  | any => exact carried_of_eq rfl (fun _ h => by cases h) s'
  | unknown => exact carried_of_eq rfl (fun _ h => by cases h) s'
  | never => exact carried_of_eq rfl (fun _ h => by cases h) s'
  | tag name => exact carried_of_eq rfl (fun _ h => by cases h) s'
  | literal l => rw [carried_literal hf, readable_literal]
  | array s ih =>
    exact carried_of_map rfl (carried_array s) readable_array (ih (hs.of_within (.array .refl))) s'
  | nullable s ih =>
    exact carried_of_map rfl (carried_nullable s) readable_nullable
      (ih (hs.of_within (.nullable .refl))) s'
  | optional s ih =>
    exact carried_of_map rfl (carried_optional s) readable_optional
      (ih (hs.of_within (.optional .refl))) s'
  | object fields ih =>
    exact carried_object_eq_some_iff (hs fields .refl)
      (fun p hp => ih p.1 p.2 hp (hs.of_within (.field hp .refl))) s'
  | union branches ih =>
    exact carried_union_eq_some_iff (fun b hb => ih b hb (hs.of_within (.branch hb .refl))) s'

end

end Schema

end GuardedData
