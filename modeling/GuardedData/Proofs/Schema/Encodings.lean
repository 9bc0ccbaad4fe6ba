import Mathlib.Algebra.Ring.Int.Defs
import GuardedData.Proofs.Schema.Repetition

/-!
# The two encodings of a schema

`s.Encodes j` says what the document `j` of a schema `s` is, kind by kind and
without either encoder: the kind stands in front, fields keep the order of their
declaration, and a number that is not finite is null. Every schema has such a
document. Its text is the one that is written at once, and the generic document
is the same, unless a literal is a big integer outside the ranges of 64 bits
(`Schema.encoders_agree`).
-/

namespace GuardedData

/-- The integer is in the range of 64 bits neither with a sign nor without. -/
def OutsideWords (n : Int) : Prop := ¬ (-2 ^ 63 ≤ n ∧ n < 2 ^ 63) ∧ ¬ (0 ≤ n ∧ n < 2 ^ 64)

theorem fitsWord_eq_false_iff {n : Int} : fitsWord n = false ↔ OutsideWords n := by
  have h63 : Nat.pow 2 63 = 2 ^ 63 := rfl
  have h64 : Nat.pow 2 64 = 2 ^ 64 := rfl
  simp only [fitsWord, OutsideWords, h63, h64, Bool.and_eq_false_iff, decide_eq_false_iff_not]
  omega

inductive Literal.Encodes : Literal → Json → Prop where
  | string (s : String) :
      Encodes (.string s) (.object [("kind", .string "string"), ("example", .string s)])
  | finite {x : Float} : x.isFinite = true →
      Encodes (.number x) (.object [("kind", .string "number"), ("example", .number (.float x))])
  | notFinite {x : Float} : x.isFinite = false →
      Encodes (.number x) (.object [("kind", .string "number"), ("example", .null)])
  | bool (b : Bool) :
      Encodes (.bool b) (.object [("kind", .string "boolean"), ("example", .bool b)])
  | bigint (n : Int) :
      Encodes (.bigint n) (.object [("kind", .string "bigint"), ("example", .number (.int n))])

namespace Schema

/-- The document of a schema. Fields and branches come with their documents, in order. -/
inductive Encodes : Schema → Json → Prop where
  | undefined : Encodes .undefined (.object [("type", .string "undefined")])
  | null : Encodes .null (.object [("type", .string "null")])
  | any : Encodes .any (.object [("type", .string "any")])
  | unknown : Encodes .unknown (.object [("type", .string "unknown")])
  | never : Encodes .never (.object [("type", .string "never")])
  | tag (name : String) :
      Encodes (.tag name) (.object [("type", .string "tag"), ("name", .string name)])
  | literal {l : Literal} {j : Json} : l.Encodes j →
      Encodes (.literal l) (.object [("type", .string "literal"), ("value", j)])
  | array {s : Schema} {j : Json} : Encodes s j →
      Encodes (.array s) (.object [("type", .string "array"), ("items", j)])
  | nullable {s : Schema} {j : Json} : Encodes s j →
      Encodes (.nullable s) (.object [("type", .string "nullable"), ("inner", j)])
  | optional {s : Schema} {j : Json} : Encodes s j →
      Encodes (.optional s) (.object [("type", .string "optional"), ("inner", j)])
  | object {fields : List ((String × Schema) × Json)} : (∀ e ∈ fields, Encodes e.1.2 e.2) →
      Encodes (.object (fields.map Prod.fst)) (.object [("type", .string "object"),
        ("fields", .object (fields.map fun e => (e.1.1, e.2)))])
  | union {branches : List (Schema × Json)} : (∀ e ∈ branches, Encodes e.1 e.2) →
      Encodes (.union (branches.map Prod.fst)) (.object [("type", .string "union"),
        ("anyOf", .array (branches.map Prod.snd))])

/-! ## The document and its text -/

theorem exists_pairs {α β : Type} {P : α → β → Prop} {as : List α}
    (h : ∀ a ∈ as, ∃ b, P a b) : ∃ es : List (α × β), es.map Prod.fst = as ∧
      ∀ e ∈ es, P e.1 e.2 := by
  induction as with
  | nil => exact ⟨[], rfl, nofun⟩
  | cons a rest ih =>
    obtain ⟨b, hb⟩ := h a List.mem_cons_self
    obtain ⟨es, hes, hP⟩ := ih fun x hx => h x (List.mem_cons_of_mem _ hx)
    exact ⟨(a, b) :: es, by rw [List.map_cons, hes], List.forall_mem_cons.mpr ⟨hb, hP⟩⟩

theorem exists_literal_encodes (l : Literal) : ∃ j, l.Encodes j := by
  cases l with
  | string s => exact ⟨_, .string s⟩
  | bool b => exact ⟨_, .bool b⟩
  | bigint n => exact ⟨_, .bigint n⟩
  | number x =>
    cases hx : x.isFinite with
    | true => exact ⟨_, .finite hx⟩
    | false => exact ⟨_, .notFinite hx⟩

theorem exists_encodes (s : Schema) : ∃ j, s.Encodes j := by
  induction s with
  | undefined => exact ⟨_, .undefined⟩
  | null => exact ⟨_, .null⟩
  | any => exact ⟨_, .any⟩
  | unknown => exact ⟨_, .unknown⟩
  | never => exact ⟨_, .never⟩
  | tag name => exact ⟨_, .tag name⟩
  | literal l =>
    obtain ⟨j, hj⟩ := exists_literal_encodes l
    exact ⟨_, .literal hj⟩
  | array s ih =>
    obtain ⟨j, hj⟩ := ih
    exact ⟨_, .array hj⟩
  | nullable s ih =>
    obtain ⟨j, hj⟩ := ih
    exact ⟨_, .nullable hj⟩
  | optional s ih =>
    obtain ⟨j, hj⟩ := ih
    exact ⟨_, .optional hj⟩
  | object fields ih =>
    have each : ∀ p ∈ fields, ∃ j, Encodes p.2 j := fun p hp => ih p.1 p.2 hp
    obtain ⟨es, rfl, hes⟩ := exists_pairs each
    exact ⟨_, .object hes⟩
  | union branches ih =>
    obtain ⟨es, rfl, hes⟩ := exists_pairs ih
    exact ⟨_, .union hes⟩

section
variable {s : Schema} {l : Literal} {j : Json}

theorem literal_toText_of_encodes (h : l.Encodes j) : l.toText = j.render := by
  rw [literal_toText]
  cases h with
  | string s => rfl
  | finite hx => rfl
  | bool b => rfl
  | bigint n => rfl
  | notFinite hx =>
    have hnull (x : Float) (hx : x.isFinite = false) :
        (Json.number (.float x)).render = Json.null.render := by
      simp [Json.render, Number.render, hx]
    simp only [Literal.toDocument, Literal.sample, Json.render, Json.renderMembers] at hnull ⊢
    rw [hnull _ hx]
    rfl

theorem fieldTexts_of_encodes {fields : List ((String × Schema) × Json)}
    (h : ∀ e ∈ fields, e.1.2.toText = e.2.render) : fieldTexts (fields.map Prod.fst) =
      Json.renderMembers (fields.map fun e => (e.1.1, e.2)) := by
  induction fields with
  | nil => rfl
  | cons e rest ih =>
    have hrest := ih fun e he => h e (List.mem_cons_of_mem _ he)
    simp only [List.map_cons, fieldTexts, Json.renderMembers, h e List.mem_cons_self, hrest]

theorem branchTexts_of_encodes {branches : List (Schema × Json)}
    (h : ∀ e ∈ branches, e.1.toText = e.2.render) : branchTexts (branches.map Prod.fst) =
      Json.renderItems (branches.map Prod.snd) := by
  induction branches with
  | nil => rfl
  | cons e rest ih =>
    have hrest := ih fun e he => h e (List.mem_cons_of_mem _ he)
    simp only [List.map_cons, branchTexts, Json.renderItems, h e List.mem_cons_self, hrest]

theorem Encodes.toText_eq (h : s.Encodes j) : s.toText = j.render := by
  induction h with
  | undefined => exact (render_bareDocument .undefined).symm
  | null => exact (render_bareDocument .null).symm
  | any => exact (render_bareDocument .any).symm
  | unknown => exact (render_bareDocument .unknown).symm
  | never => exact (render_bareDocument .never).symm
  | tag name => exact (render_document .tag "name" (.string name)).symm
  | literal hl =>
    rw [toText, literal_toText_of_encodes hl]
    exact (render_document .literal "value" _).symm
  | array _ ih =>
    rw [toText, ih]
    exact (render_document .array "items" _).symm
  | nullable _ ih =>
    rw [toText, ih]
    exact (render_document .nullable "inner" _).symm
  | optional _ ih =>
    rw [toText, ih]
    exact (render_document .optional "inner" _).symm
  | object _ ih =>
    change _ = (document .object "fields" (.object _)).render
    rw [toText, fieldTexts_of_encodes ih, render_document, Json.render]
  | union _ ih =>
    change _ = (document .union "anyOf" (.array _)).render
    rw [toText, branchTexts_of_encodes ih, render_document, Json.render]

/-! ## The generic document -/

theorem fieldsToJson?_eq_none {fields : List (String × Schema)} {k : String}
    (hm : (k, s) ∈ fields) (hs : s.toJson? = none) : fieldsToJson? fields = none := by
  induction fields with
  | nil => cases hm
  | cons p rest ih =>
    rw [fieldsToJson?]
    rcases List.mem_cons.mp hm with rfl | hm
    · rw [hs]
      rfl
    · rw [ih hm]
      cases p.2.toJson? <;> rfl

theorem branchesToJson?_eq_none {branches : List Schema} (hm : s ∈ branches)
    (hs : s.toJson? = none) : branchesToJson? branches = none := by
  induction branches with
  | nil => cases hm
  | cons b rest ih =>
    rw [branchesToJson?]
    rcases List.mem_cons.mp hm with rfl | hm
    · rw [hs]
      rfl
    · rw [ih hm]
      cases b.toJson? <;> rfl

/-- One integer that does not fit, wherever it is, and there is no generic document. -/
theorem toJson?_eq_none {n : Int} (hn : OutsideWords n) (hw : Within (.literal (.bigint n)) s) :
    s.toJson? = none := by
  induction hw with
  | refl =>
    rw [toJson?, Literal.toJson?, Literal.exampleToJson?, fitsWord_eq_false_iff.mpr hn]
    rfl
  | array _ ih => rw [toJson?, ih, Option.map_none]
  | nullable _ ih => rw [toJson?, ih, Option.map_none]
  | optional _ ih => rw [toJson?, ih, Option.map_none]
  | field hm _ ih => rw [toJson?, fieldsToJson?_eq_none hm ih, Option.map_none]
  | branch hm _ ih => rw [toJson?, branchesToJson?_eq_none hm ih, Option.map_none]

theorem literal_toJson?_of_encodes (h : l.Encodes j) (hl : ∀ n, l = .bigint n → ¬ OutsideWords n) :
    l.toJson? = some j := by
  cases h with
  | string s => rfl
  | bool b => rfl
  | finite hx => simp [Literal.toJson?, Literal.exampleToJson?, hx]; rfl
  | notFinite hx => simp [Literal.toJson?, Literal.exampleToJson?, hx]; rfl
  | bigint n =>
    have hn := hl n rfl
    rw [← fitsWord_eq_false_iff, Bool.not_eq_false] at hn
    rw [Literal.toJson?, Literal.exampleToJson?, if_pos hn]
    rfl

theorem fieldsToJson?_of_encodes {fields : List ((String × Schema) × Json)}
    (h : ∀ e ∈ fields, e.1.2.toJson? = some e.2) : fieldsToJson? (fields.map Prod.fst) =
      some (fields.map fun e => (e.1.1, e.2)) := by
  induction fields with
  | nil => rfl
  | cons e rest ih =>
    have hrest := ih fun e he => h e (List.mem_cons_of_mem _ he)
    simp only [List.map_cons, fieldsToJson?, h e List.mem_cons_self, hrest]
    rfl

theorem branchesToJson?_of_encodes {branches : List (Schema × Json)}
    (h : ∀ e ∈ branches, e.1.toJson? = some e.2) : branchesToJson? (branches.map Prod.fst) =
      some (branches.map Prod.snd) := by
  induction branches with
  | nil => rfl
  | cons e rest ih =>
    have hrest := ih fun e he => h e (List.mem_cons_of_mem _ he)
    simp only [List.map_cons, branchesToJson?, h e List.mem_cons_self, hrest]
    rfl

/-- Otherwise the generic document is the document. -/
theorem Encodes.toJson?_eq (h : s.Encodes j)
    (hs : ∀ n, Within (.literal (.bigint n)) s → ¬ OutsideWords n) : s.toJson? = some j := by
  induction h with
  | undefined => rfl
  | null => rfl
  | any => rfl
  | unknown => rfl
  | never => rfl
  | tag name => rfl
  | literal hl =>
    rw [toJson?, literal_toJson?_of_encodes hl fun n e => hs n (e ▸ .refl)]
    rfl
  | array _ ih =>
    rw [toJson?, ih fun n hw => hs n (.array hw)]
    rfl
  | nullable _ ih =>
    rw [toJson?, ih fun n hw => hs n (.nullable hw)]
    rfl
  | optional _ ih =>
    rw [toJson?, ih fun n hw => hs n (.optional hw)]
    rfl
  | object _ ih =>
    rw [toJson?, fieldsToJson?_of_encodes fun e he =>
      ih e he fun n hw => hs n (.field (List.mem_map_of_mem he) hw)]
    rfl
  | union _ ih =>
    rw [toJson?, branchesToJson?_of_encodes fun e he =>
      ih e he fun n hw => hs n (.branch (List.mem_map_of_mem he) hw)]
    rfl

/-! ## No name is repeated -/

theorem collapse_object_eq {members : Keyed Json} (hd : Keyed.Distinct members)
    (h : ∀ m ∈ members, m.2.collapse = m.2) : (Json.object members).collapse = .object members := by
  have same : ∀ m ∈ members, (m.1, m.2.collapse) = id m := fun m hm => by rw [h m hm]; rfl
  rw [Json.collapse_object hd, Json.collapseMembers_eq, List.map_congr_left same, List.map_id]

theorem collapse_array_eq {items : List Json} (h : ∀ j ∈ items, j.collapse = j) :
    (Json.array items).collapse = .array items := by
  have same : ∀ j ∈ items, j.collapse = id j := h
  rw [Json.collapse_array, List.map_congr_left same, List.map_id]

theorem collapse_pair {tag kind name : String} (hne : tag ≠ name) (h : j.collapse = j) :
    (Json.object [(tag, .string kind), (name, j)]).collapse =
      .object [(tag, .string kind), (name, j)] := by
  refine collapse_object_eq ?_ ?_
  · simpa [Keyed.Distinct, Keyed.keys] using hne
  · exact List.forall_mem_cons.mpr ⟨rfl, List.forall_mem_singleton.mpr h⟩

/-- No object of the document repeats a name, so that it is the same when its objects are built
member by member. -/
theorem Encodes.collapse_eq (h : s.Encodes j) (hs : s.WellFormed) : j.collapse = j := by
  induction h with
  | undefined => rfl
  | null => rfl
  | any => rfl
  | unknown => rfl
  | never => rfl
  | tag name => exact collapse_pair (by decide) rfl
  | literal hl =>
    refine collapse_pair (by decide) ?_
    cases hl <;> exact collapse_pair (by decide) rfl
  | array _ ih => exact collapse_pair (by decide) (ih (hs.of_within (.array .refl)))
  | nullable _ ih => exact collapse_pair (by decide) (ih (hs.of_within (.nullable .refl)))
  | optional _ ih => exact collapse_pair (by decide) (ih (hs.of_within (.optional .refl)))
  | @object fields _ ih =>
    refine collapse_pair (by decide) (collapse_object_eq ?_ ?_)
    · have hd := hs _ .refl
      simpa [Keyed.Distinct, Keyed.keys, Function.comp_def] using hd
    · rintro m hm
      obtain ⟨e, he, rfl⟩ := List.mem_map.mp hm
      exact ih e he (hs.of_within (.field (List.mem_map_of_mem he) .refl))
  | @union branches _ ih =>
    refine collapse_pair (by decide) (collapse_array_eq fun j hj => ?_)
    obtain ⟨e, he, rfl⟩ := List.mem_map.mp hj
    exact ih e he (hs.of_within (.branch (List.mem_map_of_mem he) .refl))

end

/-- The two encoders agree, and write the document of the schema: with its kinds first, its fields
in order, and null for a number that is not finite. Writing a text always succeeds; a generic
document is made exactly if no literal is a big integer outside the ranges of 64 bits, and it is
the same document then, and so of the same text. No object of it repeats a name if no declared
field is repeated, so that nothing is lost when its objects are built member by member. -/
theorem encoders_agree (s : Schema) : ∃ j, s.Encodes j ∧ s.toText = j.render ∧
    (s.toJson? = none ↔ ∃ n, Within (.literal (.bigint n)) s ∧ OutsideWords n) ∧
    (∀ j', s.toJson? = some j' → j' = j ∧ j'.render = s.toText) ∧
    (s.WellFormed → j.collapse = j) := by
  obtain ⟨j, hj⟩ := exists_encodes s
  have none_iff : s.toJson? = none ↔ ∃ n, Within (.literal (.bigint n)) s ∧ OutsideWords n := by
    constructor
    · intro hnone
      by_contra hs
      have made := hj.toJson?_eq fun n hw hn => hs ⟨n, hw, hn⟩
      rw [hnone] at made
      cases made
    · rintro ⟨n, hw, hn⟩
      exact toJson?_eq_none hn hw
  refine ⟨j, hj, hj.toText_eq, none_iff, fun j' hj' => ?_, hj.collapse_eq⟩
  have made := hj.toJson?_eq fun n hw hn => by
    rw [toJson?_eq_none hn hw] at hj'
    cases hj'
  obtain rfl := Option.some.inj (hj'.symm.trans made)
  exact ⟨rfl, hj.toText_eq.symm⟩

def counterSchema (limit : Int) : Schema :=
  .object [("count", .tag "bigint"), ("limit", .nullable (.literal (.bigint limit)))]

/-- The greatest integer of 64 bits is the last one with a generic document. -/
theorem encoders_agree_counter : (counterSchema (2 ^ 64)).toJson? = none ∧
    ∃ j, (counterSchema (2 ^ 64 - 1)).toJson? = some j ∧
      j.render = (counterSchema (2 ^ 64 - 1)).toText := by
  obtain ⟨_, -, -, none_iff, -, -⟩ := encoders_agree (counterSchema (2 ^ 64))
  obtain ⟨_, -, -, -, same, -⟩ := encoders_agree (counterSchema (2 ^ 64 - 1))
  constructor
  · refine none_iff.mpr ⟨2 ^ 64, ?_, by decide, by decide⟩
    exact .field (List.mem_cons_of_mem _ List.mem_cons_self) (.nullable .refl)
  · exact ⟨_, rfl, (same _ rfl).2⟩

end Schema

end GuardedData
