import GuardedData.Proofs.Schema.Accepted
import GuardedData.Proofs.Schema.Streaming

/-!
# Schemas that survive their encodings

A schema is read back from its generic document and from its text exactly if it
holds no big integer and no number that is not finite; otherwise nothing is
read (`ofDocument?_toJson?`, `ofText_toText`). The schema of an accepted document is always one of
the former, so that it can be written and read again.
-/

namespace GuardedData.Schema

/-- The finite numbers among the literals are read from their texts. -/
def NumbersReadBack (s : Schema) : Prop :=
  ∀ x, Within (.literal (.number x)) s → (Number.float x).ReadsBack

theorem carrier_inWord? : Carrier Number.inWord? where
  float _ := rfl
  int n := by
    rw [Number.inWord?]
    split
    · exact .inr ⟨_, rfl⟩
    · exact .inl rfl

theorem carrier_reread : Carrier Number.reread where
  float _ := rfl
  int n := by
    rw [Number.reread]
    cases Number.read (toString n).toList with
    | none => exact .inl rfl
    | some p => exact .inr ⟨p.1, rfl⟩

/-- The document of a schema holds one thing at most, and not under `type`. -/
theorem toDocument_cases (s : Schema) : (∃ k, s.toDocument = bareDocument k) ∨
    ∃ k name content, name ≠ "type" ∧ s.toDocument = document k name content := by
  cases s with
  | undefined => exact .inl ⟨_, rfl⟩
  | null => exact .inl ⟨_, rfl⟩
  | any => exact .inl ⟨_, rfl⟩
  | unknown => exact .inl ⟨_, rfl⟩
  | never => exact .inl ⟨_, rfl⟩
  | tag name => exact .inr ⟨_, _, _, by decide, rfl⟩
  | literal l => exact .inr ⟨_, _, _, by decide, rfl⟩
  | array s => exact .inr ⟨_, _, _, by decide, rfl⟩
  | object fields => exact .inr ⟨_, _, _, by decide, rfl⟩
  | nullable s => exact .inr ⟨_, _, _, by decide, rfl⟩
  | optional s => exact .inr ⟨_, _, _, by decide, rfl⟩
  | union branches => exact .inr ⟨_, _, _, by decide, rfl⟩

theorem ofDocument?_document (k : SchemaKind) {name : String} (hname : name ≠ "type") (j : Json) :
    ofDocument? (document k name j) = ofSubdocument? (document k name j) := by
  have hnamed : isNamed (document k name j) = true := by
    simp [isNamed, document, Keyed.only?, hname, Json.string?]
  rw [ofDocument?, if_pos hnamed]

/-! ## Through a generic document -/

theorem ofDocument?_toJson? (s : Schema) :
    s.toJson?.bind ofDocument? = carried Number.inWord? s := by
  rw [toJson?_eq, carried]
  rcases toDocument_cases s with ⟨k, e⟩ | ⟨k, name, content, hname, e⟩
  · rw [e]
    rfl
  · rw [e, mapNumbers?_document, Option.bind_map, Option.bind_map]
    exact congrArg _ (funext fun j => ofDocument?_document k hname j)

/-! ## Through a text -/

theorem ofText_eq_ok {text : String} {j : Json} (h : readOutermost text.toList = .ok (j, []))
    (s : Schema) : ofText text = .ok s ↔ ofDocument? j = some s := by
  rw [ofText, h, Except.ok_bind]
  dsimp only
  cases ofDocument? j with
  | none => constructor <;> intro h <;> cases h
  | some s' =>
    show Except.ok s' = Except.ok s ↔ some s' = some s
    rw [Except.ok.injEq, Option.some.injEq]

theorem ofText_toText {s : Schema} (hs : s.toDocument.Fits Number.ReadsBack Json.maxDepth)
    (s' : Schema) : ofText s.toText = .ok s' ↔ carried Number.reread s = some s' := by
  rw [toText_eq, carried]
  rcases toDocument_cases s with ⟨k, e⟩ | ⟨k, name, content, hname, e⟩
  · rw [e, ofText_eq_ok (readOutermost_bareDocument k)]
    rfl
  · have hcontent : content.Fits Number.ReadsBack (Json.maxDepth - 1) := by
      rw [e] at hs
      obtain ⟨d, hd, h⟩ := hs.inside (.member name (List.mem_cons_of_mem _ List.mem_cons_self))
      rwa [hd]
    have hread := readOutermost_document k hname hcontent
    rw [e, mapNumbers?_document]
    cases hj : content.mapNumbers? Number.reread with
    | none =>
      rw [hj] at hread
      rw [ofText, hread]
      constructor <;> intro h <;> cases h
    | some j =>
      rw [hj] at hread
      rw [ofText_eq_ok hread, ofDocument?_document k hname]
      rfl

theorem fits_readsBack {s : Schema} {ok : Number → Prop} {d : Nat} (hs : s.toDocument.Fits ok d)
    (hn : s.NumbersReadBack) : s.toDocument.Fits Number.ReadsBack d := by
  refine fits_of_literals hs fun l hl d => ?_
  cases l with
  | string t => exact .string t
  | number x => exact .number (hn x hl)
  | bool b => exact .bool b
  | bigint n => exact .number trivial

/-! ## Accepted documents -/

section
variable {S : Schema} {d : Nat}

theorem Stored.read_document (hS : Stored d S) : S.toJson?.bind ofDocument? = some S := by
  rw [ofDocument?_toJson?]
  exact (carried_eq_some_iff carrier_inWord? hS.wellFormed S).mpr ⟨hS.readable, rfl⟩

theorem Stored.read_text (hS : Stored d S) (hd : d ≤ Json.maxDepth) (hn : S.NumbersReadBack) :
    ofText S.toText = .ok S := by
  rw [ofText_toText (fits_readsBack (hS.fits.mono hd) hn)]
  exact (carried_eq_some_iff carrier_reread hS.wellFormed S).mpr ⟨hS.readable, rfl⟩

theorem stored_of_ofDocument? {j : Json} (h : ofDocument? j = some S)
    (hj : j.Fits Number.IsFinite d) : Stored d S := by
  unfold ofDocument? at h
  split at h
  · exact stored_of_ofSubdocument? h hj
  · cases h

theorem stored_of_ofText {text : String} (h : ofText text = .ok S) :
    Stored Json.maxDepth S := by
  obtain ⟨⟨j, rest⟩, hj, h⟩ := Except.bind_eq_ok.mp h
  cases hs : ofDocument? j with
  | none => simp only [hs] at h; cases h
  | some s =>
    simp only [hs] at h
    split at h
    · cases h
      exact stored_of_ofDocument? hs (readOutermost_fits hj)
    · cases h

end

/-- A schema is read back from its encodings exactly if its literals are, and no other schema
ever is. The schema of an accepted document is read back. -/
theorem round_trip_iff (S : Schema) :
    (S.WellFormed →
      (∀ S', S.toJson?.bind ofDocument? = some S' ↔ S.Readable ∧ S' = S) ∧
      (S.toDocument.Fits (fun _ => True) Json.maxDepth → S.NumbersReadBack →
        ∀ S', ofText S.toText = .ok S' ↔ S.Readable ∧ S' = S)) ∧
    (∀ j d, j.Fits Number.IsFinite d → ofDocument? j = some S →
      S.toJson?.bind ofDocument? = some S ∧
      (d ≤ Json.maxDepth → S.NumbersReadBack → ofText S.toText = .ok S)) ∧
    (∀ text, ofText text = .ok S →
      S.toJson?.bind ofDocument? = some S ∧
      (S.NumbersReadBack → ofText S.toText = .ok S)) := by
  refine ⟨fun hS => ⟨fun S' => ?_, fun hd hn S' => ?_⟩, fun j d hj h => ?_, fun text h => ?_⟩
  · rw [ofDocument?_toJson?]
    exact carried_eq_some_iff carrier_inWord? hS S'
  · rw [ofText_toText (fits_readsBack hd hn)]
    exact carried_eq_some_iff carrier_reread hS S'
  · have hS := stored_of_ofDocument? h hj
    exact ⟨hS.read_document, hS.read_text⟩
  · have hS := stored_of_ofText h
    exact ⟨hS.read_document, hS.read_text (Nat.le_refl _)⟩

/-- The names of its fields are names that the format uses itself. -/
def namesakeSchema : Schema :=
  .object [("type", .literal (.string "kind")),
    ("fields", .array (.union [.literal (.number 2.5), .optional .any]))]

theorem stored_namesakeSchema : Stored Json.maxDepth namesakeSchema := by
  show Stored 127 namesakeSchema
  refine stored_object (show List.Nodup _ by decide) fun k s hm => ?_
  simp only [List.mem_cons, Prod.mk.injEq, List.not_mem_nil, or_false] at hm
  rcases hm with ⟨-, rfl⟩ | ⟨-, rfl⟩
  · exact stored_literal trivial (fits_pair.mpr ⟨_, rfl, .string _⟩)
  · refine Stored.array (stored_union fun s hm => ?_)
    simp only [List.mem_cons, List.not_mem_nil, or_false] at hm
    rcases hm with rfl | rfl
    · exact stored_literal (show Float.isFinite 2.5 = true by decide +kernel)
        (fits_pair.mpr ⟨_, rfl, .number (show Float.isFinite 2.5 = true by decide +kernel)⟩)
    · exact Stored.optional
        (stored_leaf (fun _ hn => by cases hn) (fun _ hn => by cases hn)
          (fits_bareDocument.mpr ⟨_, rfl⟩))

theorem numbersReadBack_namesakeSchema : namesakeSchema.NumbersReadBack := by
  have hread : Number.read (Number.float 2.5).render.toList = some (.float 2.5, []) := by
    decide +kernel
  intro x hx
  cases hx with
  | field hm hx =>
    simp only [List.mem_cons, Prod.mk.injEq, List.not_mem_nil, or_false] at hm
    rcases hm with ⟨-, rfl⟩ | ⟨-, rfl⟩
    · cases hx
    · cases hx with
      | array hx =>
        cases hx with
        | branch hm hx =>
          simp only [List.mem_cons, List.not_mem_nil, or_false] at hm
          rcases hm with rfl | rfl
          · cases hx
            exact fun _ => hread
          · rcases hx with _ | _ | _ | _ | hx
            cases hx

/-- The schema is read back from both encodings, and its document is an accepted one. -/
theorem round_trip_iff_namesake :
    namesakeSchema.toJson?.bind ofDocument? = some namesakeSchema ∧
      ofText namesakeSchema.toText = .ok namesakeSchema ∧
      ofDocument? namesakeSchema.toDocument = some namesakeSchema := by
  have hS := stored_namesakeSchema
  have hn := numbersReadBack_namesakeSchema
  have hd : namesakeSchema.toDocument.Fits (fun _ => True) Json.maxDepth :=
    hS.fits.imp fun _ _ => trivial
  have haccepted : ofDocument? namesakeSchema.toDocument = some namesakeSchema := rfl
  obtain ⟨hencodings, hdocuments, htexts⟩ := round_trip_iff namesakeSchema
  have hread : ofText namesakeSchema.toText = .ok namesakeSchema :=
    ((hencodings hS.wellFormed).2 hd hn namesakeSchema).mpr ⟨hS.readable, rfl⟩
  exact ⟨(hdocuments _ _ hS.fits haccepted).1, (htexts _ hread).2 hn, haccepted⟩

end GuardedData.Schema
