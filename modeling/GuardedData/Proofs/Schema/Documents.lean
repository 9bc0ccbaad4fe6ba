import GuardedData.Heap.Json
import GuardedData.Proofs.Json.Documents
import GuardedData.Proofs.Schema.Nodes
import GuardedData.Schema.Encoding

/-!
# The document of a schema

`toDocument` is the document of a schema with its numbers as they are. The
generic document and the text of a schema are this document carried over in two
ways (`toJson?_eq`, `toText_eq`).
-/

namespace GuardedData

namespace Literal

def sample : Literal → Json
  | string s => .string s
  | number x => .number (.float x)
  | bool b => .bool b
  | bigint n => .number (.int n)

/-- The document of a literal, its number as it is. -/
def toDocument (l : Literal) : Json :=
  .object [("kind", .string l.kindName), ("example", l.sample)]

end Literal

/-- What a generic document has in the place of a number. -/
def Number.inWord? : Number → Option Json
  | .int n => if fitsWord n then some (.number (.int n)) else none
  | .float x => some (Json.ofFloat x)

namespace Schema

/-- A document of a kind that holds nothing. -/
def bareDocument (k : SchemaKind) : Json := .object [("type", .string k.name)]

mutual

/-- The document of a schema, its numbers as they are. -/
def toDocument : Schema → Json
  | .tag name => document .tag "name" (.string name)
  | .literal value => document .literal "value" value.toDocument
  | .array items => document .array "items" (toDocument items)
  | .object fields => document .object "fields" (.object (fieldDocuments fields))
  | .nullable inner => document .nullable "inner" (toDocument inner)
  | .optional inner => document .optional "inner" (toDocument inner)
  | .union branches => document .union "anyOf" (.array (branchDocuments branches))
  | .undefined => bareDocument .undefined
  | .null => bareDocument .null
  | .any => bareDocument .any
  | .unknown => bareDocument .unknown
  | .never => bareDocument .never

def fieldDocuments : List (String × Schema) → List (String × Json)
  | [] => []
  | (k, s) :: rest => (k, toDocument s) :: fieldDocuments rest

def branchDocuments : List Schema → List Json
  | [] => []
  | s :: rest => toDocument s :: branchDocuments rest

end

theorem fieldDocuments_eq (fields : List (String × Schema)) :
    fieldDocuments fields = fields.map fun p => (p.1, p.2.toDocument) := by
  induction fields with
  | nil => rfl
  | cons p rest ih => rw [fieldDocuments, ih, List.map_cons]

theorem branchDocuments_eq (branches : List Schema) :
    branchDocuments branches = branches.map toDocument := by
  induction branches with
  | nil => rfl
  | cons s rest ih => rw [branchDocuments, ih, List.map_cons]

theorem mapNumbers?_document (f : Number → Option Json) (k : SchemaKind) (name : String)
    (content : Json) :
    (document k name content).mapNumbers? f = (content.mapNumbers? f).map (document k name) := by
  simp only [document, Json.mapNumbers?, Json.mapMembers?]
  cases content.mapNumbers? f <;> rfl


/-! ## The two encodings -/

theorem literal_toJson? (l : Literal) : l.toJson? = l.toDocument.mapNumbers? Number.inWord? := by
  simp only [Literal.toDocument, Json.mapNumbers?, Json.mapMembers?]
  cases l with
  | bigint n =>
    rw [Literal.toJson?, Literal.exampleToJson?, Literal.sample, Json.mapNumbers?, Number.inWord?]
    split <;> rfl
  | string s => rfl
  | number x => rfl
  | bool b => rfl

theorem fieldsToJson?_eq {fields : List (String × Schema)} (h : ∀ k s, (k, s) ∈ fields →
    s.toJson? = s.toDocument.mapNumbers? Number.inWord?) :
    fieldsToJson? fields = Json.mapMembers? Number.inWord? (fieldDocuments fields) := by
  induction fields with
  | nil => rfl
  | cons p rest ih =>
    have hrest := ih fun k s hm => h k s (List.mem_cons_of_mem _ hm)
    rw [fieldsToJson?, fieldDocuments, Json.mapMembers?, h p.1 p.2 List.mem_cons_self, hrest]

theorem branchesToJson?_eq {branches : List Schema} (h : ∀ s ∈ branches,
    s.toJson? = s.toDocument.mapNumbers? Number.inWord?) :
    branchesToJson? branches = Json.mapItems? Number.inWord? (branchDocuments branches) := by
  induction branches with
  | nil => rfl
  | cons s rest ih =>
    have hrest := ih fun s hm => h s (List.mem_cons_of_mem _ hm)
    rw [branchesToJson?, branchDocuments, Json.mapItems?, h s List.mem_cons_self, hrest]

/-- The generic document of a schema is its document, if the integers fit into 64 bits. -/
theorem toJson?_eq (s : Schema) : s.toJson? = s.toDocument.mapNumbers? Number.inWord? := by
  induction s with
  | undefined => rfl
  | null => rfl
  | any => rfl
  | unknown => rfl
  | never => rfl
  | tag name => rfl
  | literal l => rw [toJson?, literal_toJson?, toDocument, mapNumbers?_document]
  | array s ih => rw [toJson?, ih, toDocument, mapNumbers?_document]
  | nullable s ih => rw [toJson?, ih, toDocument, mapNumbers?_document]
  | optional s ih => rw [toJson?, ih, toDocument, mapNumbers?_document]
  | object fields ih =>
    rw [toJson?, fieldsToJson?_eq ih, toDocument, mapNumbers?_document, Json.mapNumbers?,
      Option.map_map]
    rfl
  | union branches ih =>
    rw [toJson?, branchesToJson?_eq ih, toDocument, mapNumbers?_document, Json.mapNumbers?,
      Option.map_map]
    rfl

theorem typeText : "\x7b\"type\":" = "\x7b" ++ Json.renderString "type" ++ ":" := by decide

theorem render_document (k : SchemaKind) (name : String) (content : Json) :
    (document k name content).render = documentText k name content.render := by
  simp only [document, documentText, Json.render, Json.renderMembers, typeText,
    String.intercalate_cons_cons, String.intercalate_singleton, ← String.append_assoc]

theorem render_bareDocument (k : SchemaKind) : (bareDocument k).render = bareText k := by
  simp only [bareDocument, bareText, Json.render, Json.renderMembers, typeText,
    String.intercalate_singleton, ← String.append_assoc]

theorem literal_toText (l : Literal) : l.toText = l.toDocument.render := by
  have hkind : "\x7b\"kind\":" = "\x7b" ++ Json.renderString "kind" ++ ":" := by decide
  have hexample : ",\"example\":" = "," ++ Json.renderString "example" ++ ":" := by decide
  have hsample : l.exampleToText = l.sample.render := by cases l <;> rfl
  simp only [Literal.toText, Literal.toDocument, Json.render, Json.renderMembers, hkind, hexample,
    hsample, String.intercalate_cons_cons, String.intercalate_singleton, ← String.append_assoc]

theorem fieldTexts_eq {fields : List (String × Schema)}
    (h : ∀ k s, (k, s) ∈ fields → s.toText = s.toDocument.render) :
    fieldTexts fields = Json.renderMembers (fieldDocuments fields) := by
  induction fields with
  | nil => rfl
  | cons p rest ih =>
    have hrest := ih fun k s hm => h k s (List.mem_cons_of_mem _ hm)
    rw [fieldTexts, fieldDocuments, Json.renderMembers, h p.1 p.2 List.mem_cons_self, hrest]

theorem branchTexts_eq {branches : List Schema}
    (h : ∀ s ∈ branches, s.toText = s.toDocument.render) :
    branchTexts branches = Json.renderItems (branchDocuments branches) := by
  induction branches with
  | nil => rfl
  | cons s rest ih =>
    have hrest := ih fun s hm => h s (List.mem_cons_of_mem _ hm)
    rw [branchTexts, branchDocuments, Json.renderItems, h s List.mem_cons_self, hrest]

theorem toText_eq (s : Schema) : s.toText = s.toDocument.render := by
  induction s with
  | undefined => exact (render_bareDocument _).symm
  | null => exact (render_bareDocument _).symm
  | any => exact (render_bareDocument _).symm
  | unknown => exact (render_bareDocument _).symm
  | never => exact (render_bareDocument _).symm
  | tag name => rw [toText, toDocument, render_document, Json.render]
  | literal l => rw [toText, literal_toText, toDocument, render_document]
  | array s ih => rw [toText, ih, toDocument, render_document]
  | nullable s ih => rw [toText, ih, toDocument, render_document]
  | optional s ih => rw [toText, ih, toDocument, render_document]
  | object fields ih => rw [toText, fieldTexts_eq ih, toDocument, render_document, Json.render]
  | union branches ih => rw [toText, branchTexts_eq ih, toDocument, render_document, Json.render]

/-! ## How deep it nests -/

section
variable {ok : Number → Prop} {d : Nat}

theorem fits_bareDocument {k : SchemaKind} : (bareDocument k).Fits ok d ↔ ∃ d', d = d' + 1 := by
  constructor
  · intro h
    cases h with
    | object _ => exact ⟨_, rfl⟩
  · rintro ⟨d, rfl⟩
    refine .object fun l j hm => ?_
    rw [(Prod.mk.inj (List.mem_singleton.mp hm)).2]
    exact .string _

/-- An object that names its kind and holds one more thing. -/
theorem fits_pair {tag kind name : String} {content : Json} :
    (Json.object [(tag, .string kind), (name, content)]).Fits ok d ↔
      ∃ d', d = d' + 1 ∧ content.Fits ok d' := by
  constructor
  · intro h
    exact h.inside (.member name (List.mem_cons_of_mem _ List.mem_cons_self))
  · rintro ⟨d, rfl, h⟩
    refine .object fun l j hm => ?_
    rcases List.mem_cons.mp hm with e | hm
    · rw [(Prod.mk.inj e).2]
      exact .string _
    · rw [(Prod.mk.inj (List.mem_singleton.mp hm)).2]
      exact h

theorem fits_fieldDocuments {fields : List (String × Schema)} :
    (Json.object (fieldDocuments fields)).Fits ok d ↔
      ∃ d', d = d' + 1 ∧ ∀ k s, (k, s) ∈ fields → s.toDocument.Fits ok d' := by
  rw [fieldDocuments_eq]
  constructor
  · intro h
    cases h with
    | object h => exact ⟨_, rfl, fun k s hm => h k _ (List.mem_map.mpr ⟨(k, s), hm, rfl⟩)⟩
  · rintro ⟨d, rfl, h⟩
    refine .object fun k j hm => ?_
    obtain ⟨p, hp, e⟩ := List.mem_map.mp hm
    rw [← (Prod.mk.inj e).2]
    exact h p.1 p.2 hp

theorem fits_branchDocuments {branches : List Schema} :
    (Json.array (branchDocuments branches)).Fits ok d ↔
      ∃ d', d = d' + 1 ∧ ∀ s ∈ branches, s.toDocument.Fits ok d' := by
  rw [branchDocuments_eq]
  constructor
  · intro h
    cases h with
    | array h => exact ⟨_, rfl, fun s hm => h _ (List.mem_map.mpr ⟨s, hm, rfl⟩)⟩
  · rintro ⟨d, rfl, h⟩
    refine .array fun j hm => ?_
    obtain ⟨s, hs, rfl⟩ := List.mem_map.mp hm
    exact h s hs

/-- The numbers of the document are those of the literals. -/
theorem fits_of_literals {ok' : Number → Prop} {s : Schema} (h : s.toDocument.Fits ok' d)
    (hl : ∀ l, Within (.literal l) s → ∀ d, l.sample.Fits ok d) : s.toDocument.Fits ok d := by
  induction s generalizing d with
  | undefined => exact fits_bareDocument.mpr (fits_bareDocument.mp h)
  | null => exact fits_bareDocument.mpr (fits_bareDocument.mp h)
  | any => exact fits_bareDocument.mpr (fits_bareDocument.mp h)
  | unknown => exact fits_bareDocument.mpr (fits_bareDocument.mp h)
  | never => exact fits_bareDocument.mpr (fits_bareDocument.mp h)
  | tag name =>
    obtain ⟨d, rfl, -⟩ := fits_pair.mp h
    exact fits_pair.mpr ⟨d, rfl, .string name⟩
  | literal l =>
    obtain ⟨_, rfl, hc⟩ := fits_pair.mp h
    obtain ⟨d, rfl, -⟩ := fits_pair.mp hc
    exact fits_pair.mpr ⟨_, rfl, fits_pair.mpr ⟨d, rfl, hl l .refl d⟩⟩
  | array s ih =>
    obtain ⟨d, rfl, hc⟩ := fits_pair.mp h
    exact fits_pair.mpr ⟨d, rfl, ih hc fun l hw => hl l (.array hw)⟩
  | nullable s ih =>
    obtain ⟨d, rfl, hc⟩ := fits_pair.mp h
    exact fits_pair.mpr ⟨d, rfl, ih hc fun l hw => hl l (.nullable hw)⟩
  | optional s ih =>
    obtain ⟨d, rfl, hc⟩ := fits_pair.mp h
    exact fits_pair.mpr ⟨d, rfl, ih hc fun l hw => hl l (.optional hw)⟩
  | object fields ih =>
    obtain ⟨_, rfl, hc⟩ := fits_pair.mp h
    obtain ⟨d, rfl, hs⟩ := fits_fieldDocuments.mp hc
    exact fits_pair.mpr ⟨_, rfl, fits_fieldDocuments.mpr
      ⟨d, rfl, fun k s hm => ih k s hm (hs k s hm) fun l hw => hl l (.field hm hw)⟩⟩
  | union branches ih =>
    obtain ⟨_, rfl, hc⟩ := fits_pair.mp h
    obtain ⟨d, rfl, hs⟩ := fits_branchDocuments.mp hc
    exact fits_pair.mpr ⟨_, rfl, fits_branchDocuments.mpr
      ⟨d, rfl, fun s hm => ih s hm (hs s hm) fun l hw => hl l (.branch hm hw)⟩⟩

end

end Schema

end GuardedData
