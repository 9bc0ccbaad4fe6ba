import GuardedData.Proofs.Json.Rest
import GuardedData.Proofs.Schema.Repetition
import GuardedData.Proofs.Schema.Streaming

/-!
# The two readings of a text

`ofText` reads the outermost document member by member and stops at a kind that
cannot be right; `ofGenericText` reads a whole generic document first. Of a text
that is JSON, the first reader reads the same document or stops because no
schema is in it (`readOutermost_of_value`). If no name is repeated in vain, the
two readings are the same (`ofText_eq_ofGenericText`).
-/

namespace GuardedData.Schema

section
variable {cs rest : List Char} {j : Json} {members : Keyed Json}

/-- No kind is named: none that a whole document could have. -/
def Misnamed (kind : Option Json) : Prop := ∀ k : SchemaKind, kind ≠ some (.string k.name)

theorem ofDocument?_of_misnamed (h : Misnamed j.givenKind?) : ofDocument? j = none := by
  rw [ofDocument?, isNamed_eq]
  cases hk : j.givenKind?.bind SchemaKind.ofJson? with
  | none =>
    rw [ofSubdocument?_eq_none hk]
    split <;> rfl
  | some k =>
    obtain ⟨kind, hkind, hk⟩ := Option.bind_eq_some_iff.mp hk
    rcases SchemaKind.ofJson?_cases hk with rfl | ⟨n, -, rfl⟩
    · exact absurd hkind (h k)
    · rw [hkind]
      rfl

/-- A kind is read as any value is, or refused. -/
theorem readKind_of_value {d : Nat} (h : Json.value (d + 1) cs = some (j, rest)) :
    readKind cs = .ok (j, rest) ∨ readKind cs = .error .mismatched ∧ Misnamed (some j) := by
  rw [Json.value] at h
  split at h
  · next r e =>
    obtain ⟨⟨items, _⟩, -, hj⟩ := Option.map_eq_some_iff.mp h
    obtain ⟨rfl, -⟩ := Prod.mk.inj hj
    unfold readKind
    rw [e]
    exact .inr ⟨rfl, fun k hk => by cases hk⟩
  · next r e =>
    obtain ⟨⟨items, _⟩, -, hj⟩ := Option.map_eq_some_iff.mp h
    obtain ⟨rfl, -⟩ := Prod.mk.inj hj
    unfold readKind
    rw [e]
    exact .inr ⟨rfl, fun k hk => by cases hk⟩
  · unfold readKind
    split
    · next e => exact .inr ⟨rfl, by simp_all⟩
    · next e => exact .inr ⟨rfl, by simp_all⟩
    · rw [h]
      cases j with
      | string name =>
        dsimp only
        cases hname : SchemaKind.ofName? name with
        | some k => exact .inl rfl
        | none =>
          refine .inr ⟨rfl, fun k hk => ?_⟩
          have e : name = k.name := Json.string.inj (Option.some.inj hk)
          rw [e, ofName?_name] at hname
          cases hname
      | null => exact .inr ⟨rfl, fun k hk => by cases hk⟩
      | bool _ => exact .inr ⟨rfl, fun k hk => by cases hk⟩
      | number _ => exact .inr ⟨rfl, fun k hk => by cases hk⟩
      | array _ => exact .inr ⟨rfl, fun k hk => by cases hk⟩
      | object _ => exact .inr ⟨rfl, fun k hk => by cases hk⟩

/-- A member is read as any member is, or its kind is refused. -/
theorem readMember_of_member (seen : Bool) {p : String × Json}
    (h : Json.member innerValue cs = some (p, rest)) :
    (readMember seen cs = .ok (p, rest) ∧ ¬ (p.1 = "type" ∧ seen = true)) ∨
      (readMember seen cs = .error .mismatched ∧ p.1 = "type" ∧
        (seen = true ∨ Misnamed (some p.2))) := by
  obtain ⟨⟨name, rest₁⟩, hname, h⟩ := Option.bind_eq_some_iff.mp h
  obtain ⟨rest₂, hcolon, h⟩ := Option.bind_eq_some_iff.mp h
  obtain ⟨⟨j, rest₃⟩, hj, h⟩ := Option.bind_eq_some_iff.mp h
  obtain ⟨rfl, rfl⟩ := Prod.mk.inj (Option.some.inj h)
  rw [readMember, hname, orMalformed_some, Except.ok_bind]
  dsimp only at hcolon ⊢
  by_cases htype : name = "type"
  · cases seen with
    | true =>
      refine .inr ⟨?_, htype, .inl rfl⟩
      rw [if_pos (by simp [htype])]
      rfl
    | false =>
      rw [if_neg (by simp), hcolon, orMalformed_some, Except.ok_bind, if_pos htype]
      rcases readKind_of_value hj with hk | ⟨hk, hmis⟩
      · rw [hk]
        exact .inl ⟨rfl, by simp⟩
      · rw [hk]
        exact .inr ⟨rfl, htype, .inr hmis⟩
  · refine .inl ⟨?_, fun e => htype e.1⟩
    rw [if_neg (by simp [htype]), hcolon, orMalformed_some, Except.ok_bind, if_neg htype, hj]
    rfl

/-- One member and the next ones, the last member, and one that is refused. -/
theorem readMembers_comma {seen : Bool} {p : String × Json} {rest' : List Char}
    (h : readMember seen cs = .ok (p, rest)) (hnext : Json.skipSpace rest = ',' :: rest')
    (bound : Nat) : readMembers (bound + 1) seen cs = (do
      let (members, rest) ← readMembers bound (seen || p.1 = "type") rest'
      return (p :: members, rest)) := by
  rw [readMembers_succ, h, Except.ok_bind]
  dsimp only
  rw [hnext]
  rfl

theorem readMembers_brace {seen : Bool} {p : String × Json} {rest' : List Char}
    (h : readMember seen cs = .ok (p, rest)) (hnext : Json.skipSpace rest = '}' :: rest')
    (bound : Nat) : readMembers (bound + 1) seen cs = .ok ([p], rest') := by
  rw [readMembers_succ, h, Except.ok_bind]
  dsimp only
  rw [hnext]
  rfl

theorem readMembers_error {seen : Bool} {e : ReadError} (h : readMember seen cs = .error e)
    (bound : Nat) : readMembers (bound + 1) seen cs = .error e := by
  rw [readMembers_succ, h]
  rfl

/-- Why the members with this list of names and kinds are refused: the kind is there once more, or
it is misnamed. -/
def Refused (members : Keyed Json) : Bool → Prop
  | true => "type" ∈ Keyed.keys members
  | false => Misnamed (Keyed.only? "type" members)

/-- Members are refused with a member in front if they are refused after it. -/
theorem Refused.cons {seen : Bool} {p : String × Json}
    (h : Refused members (seen || p.1 = "type")) (hp : ¬ (p.1 = "type" ∧ seen = true)) :
    Refused (p :: members) seen := by
  cases seen with
  | true => exact List.mem_cons_of_mem _ h
  | false =>
    intro k
    rw [Keyed.only?]
    by_cases htype : p.1 = "type"
    · have hmem : "type" ∈ Keyed.keys members := by simpa [Refused, htype] using h
      have hagain : (members.any fun q => q.1 = "type") = true := by
        obtain ⟨q, hq, e⟩ := List.mem_map.mp hmem
        exact List.any_eq_true.mpr ⟨q, hq, decide_eq_true e⟩
      rw [if_pos htype, if_pos hagain]
      exact fun e => by cases e
    · rw [if_neg htype]
      have hmis : Misnamed (Keyed.only? "type" members) := by simpa [Refused, htype] using h
      exact hmis k

theorem refused_of_kind {seen : Bool} {p : String × Json} (htype : p.1 = "type")
    (h : seen = true ∨ Misnamed (some p.2)) : Refused (p :: members) seen := by
  cases seen with
  | true => exact List.mem_map.mpr ⟨p, List.mem_cons_self, htype⟩
  | false =>
    have hmis : Misnamed (some p.2) := h.resolve_left (by decide)
    intro k
    rw [Keyed.only?, if_pos htype]
    split
    · exact fun e => by cases e
    · exact hmis k

/-- The members are read as any members are, or the kind is refused. -/
theorem readMembers_of_elements {bound : Nat} (seen : Bool)
    (h : Json.elements (Json.member innerValue) '}' bound cs = some (members, rest)) :
    readMembers bound seen cs = .ok (members, rest) ∨
      (readMembers bound seen cs = .error .mismatched ∧ Refused members seen) := by
  induction bound generalizing seen cs members rest with
  | zero => cases h
  | succ bound ih =>
    obtain ⟨n, p, members, rest₁, hn, hp, rfl, hnext⟩ := Json.elements_cases h
    obtain rfl := Nat.succ.inj hn
    rcases readMember_of_member seen hp with ⟨hread, hseen⟩ | ⟨hread, htype, hbad⟩
    · rcases hnext with ⟨rest₂, hcomma, hs⟩ | ⟨hclose, rfl⟩
      · rw [readMembers_comma hread hcomma]
        rcases ih (seen || p.1 = "type") hs with hm | ⟨hm, hbad⟩
        · rw [hm]
          exact .inl rfl
        · rw [hm]
          exact .inr ⟨rfl, hbad.cons hseen⟩
      · exact .inl (readMembers_brace hread hclose bound)
    · exact .inr ⟨readMembers_error hread bound, refused_of_kind htype hbad⟩

theorem readItems_kind {c : Char} {r : List Char} (e : Json.skipSpace cs = c :: r) (hc : c ≠ ']') :
    readItems cs = (do
      let (kind, rest) ← readKind (c :: r)
      match Json.skipSpace rest with
      | ',' :: rest => do
        let (items, rest) ← orMalformed (Json.elements innerValue ']' (rest.length + 1) rest)
        return (kind :: items, rest)
      | ']' :: rest => return ([kind], rest)
      | _ => throw .malformed) := by
  unfold readItems
  rw [e]
  split
  · next e => exact absurd (List.cons.inj e).1 hc
  · rfl

theorem readItems_comma {c : Char} {r rest' : List Char} (e : Json.skipSpace cs = c :: r)
    (hc : c ≠ ']') (hkind : readKind (c :: r) = .ok (j, rest))
    (hnext : Json.skipSpace rest = ',' :: rest') : readItems cs = (do
      let (items, rest) ← orMalformed (Json.elements innerValue ']' (rest'.length + 1) rest')
      return (j :: items, rest)) := by
  rw [readItems_kind e hc, hkind, Except.ok_bind]
  dsimp only
  rw [hnext]
  rfl

theorem readItems_bracket {c : Char} {r rest' : List Char} (e : Json.skipSpace cs = c :: r)
    (hc : c ≠ ']') (hkind : readKind (c :: r) = .ok (j, rest))
    (hnext : Json.skipSpace rest = ']' :: rest') : readItems cs = .ok ([j], rest') := by
  rw [readItems_kind e hc, hkind, Except.ok_bind]
  dsimp only
  rw [hnext]
  rfl

theorem readItems_error {c : Char} {r : List Char} (e : Json.skipSpace cs = c :: r) (hc : c ≠ ']')
    {error : ReadError} (hkind : readKind (c :: r) = .error error) :
    readItems cs = .error error := by
  rw [readItems_kind e hc, hkind]
  rfl

/-- The items are read as any items are, or the kind in front is refused. -/
theorem readItems_of_separated {items : List Json}
    (h : Json.separated innerValue ']' cs = some (items, rest)) :
    readItems cs = .ok (items, rest) ∨
      (readItems cs = .error .mismatched ∧ Misnamed (Json.givenKind? (.array items))) := by
  unfold Json.separated at h
  split at h
  · cases h
  · next c r e =>
    split at h
    · next hc =>
      obtain ⟨rfl, rfl⟩ := Prod.mk.inj (Option.some.inj h)
      refine .inr ⟨?_, fun k hk => by cases hk⟩
      unfold readItems
      rw [e, hc]
      rfl
    · next hc =>
      obtain ⟨n, kind, items, rest', -, hkind, rfl, hnext⟩ := Json.elements_cases h
      rcases readKind_of_value hkind with hread | ⟨hread, hmis⟩
      · left
        rcases hnext with ⟨rest'', hcomma, hs⟩ | ⟨hclose, rfl⟩
        · have hs' := Json.elements_bound (Json.value_suffix _) hs
          rw [readItems_comma e hc hread hcomma]
          exact congrArg (orMalformed · >>= _) hs'
        · exact readItems_bracket e hc hread hclose
      · exact .inr ⟨readItems_error e hc hread, hmis⟩

theorem readOutermost_bracket {r : List Char} (e : Json.skipSpace cs = '[' :: r) :
    readOutermost cs = (do
      let (items, rest) ← readItems r
      return (.array items, rest)) := by
  unfold readOutermost
  rw [e]
  rfl

theorem readOutermost_object {r : List Char} (e : Json.skipSpace cs = '{' :: r) :
    readOutermost cs = match Json.skipSpace r with
      | '}' :: rest => .ok (.object [], rest)
      | rest => do
        let (members, rest) ← readMembers (rest.length + 1) false rest
        return (.object members, rest) := by
  unfold readOutermost
  rw [e]
  rfl

theorem readOutermost_empty {r r' : List Char} (e : Json.skipSpace cs = '{' :: r)
    (e' : Json.skipSpace r = '}' :: r') : readOutermost cs = .ok (.object [], r') := by
  rw [readOutermost_object e, e']
  rfl

theorem readOutermost_members {c : Char} {r r' : List Char} (e : Json.skipSpace cs = '{' :: r)
    (e' : Json.skipSpace r = c :: r') (hc : c ≠ '}') : readOutermost cs = (do
      let (members, rest) ← readMembers (r'.length + 1 + 1) false (c :: r')
      return (.object members, rest)) := by
  rw [readOutermost_object e, e']
  split
  · next e => exact absurd (List.cons.inj e).1 hc
  · rfl

theorem value_of_parse {text : String} (h : Json.parse text = some j) :
    ∃ rest, Json.value Json.maxDepth text.toList = some (j, rest) ∧
      (Json.skipSpace rest).isEmpty = true := by
  unfold Json.parse at h
  split at h
  · next j' rest hv =>
    split at h
    · next hrest =>
      obtain rfl := Option.some.inj h
      exact ⟨rest, hv, hrest⟩
    · cases h
  · cases h

/-- Of a document the outermost one is read as it is, or it holds no schema. -/
theorem readOutermost_of_value (h : Json.value Json.maxDepth cs = some (j, rest)) :
    readOutermost cs = .ok (j, rest) ∨
      (readOutermost cs = .error .mismatched ∧ ofDocument? j = none) := by
  rw [show Json.maxDepth = 126 + 1 from rfl, Json.value] at h
  split at h
  · next r e =>
    obtain ⟨⟨items, rest'⟩, hs, hj⟩ := Option.map_eq_some_iff.mp h
    obtain ⟨rfl, rfl⟩ := Prod.mk.inj hj
    rw [readOutermost_bracket e]
    rcases readItems_of_separated hs with hread | ⟨hread, hmis⟩
    · rw [hread]
      exact .inl rfl
    · rw [hread]
      exact .inr ⟨rfl, ofDocument?_of_misnamed hmis⟩
  · next r e =>
    obtain ⟨⟨members, rest'⟩, hs, hj⟩ := Option.map_eq_some_iff.mp h
    obtain ⟨rfl, rfl⟩ := Prod.mk.inj hj
    unfold Json.separated at hs
    split at hs
    · cases hs
    · next c r' e' =>
      split at hs
      · next hc =>
        obtain ⟨rfl, rfl⟩ := Prod.mk.inj (Option.some.inj hs)
        exact .inl (readOutermost_empty e (hc ▸ e'))
      · next hc =>
        rw [readOutermost_members e e' hc]
        have hs' := Json.elements_mono (Nat.le_succ _) hs
        rcases readMembers_of_elements false hs' with hread | ⟨hread, hmis⟩
        · left
          rw [hread]
          rfl
        · right
          rw [hread]
          exact ⟨rfl, ofDocument?_of_misnamed hmis⟩
  · next hb hc =>
    left
    unfold readOutermost
    split
    · next e => exact absurd e (by simp_all)
    · next e => exact absurd e (by simp_all)
    · rw [h]
      rfl

end

/-- An unrepeated text is read as the same schema in both ways, or it is of another form in both.
Of fields under one name both keep the first position and the last schema. -/
theorem ofText_eq_ofGenericText {text : String} {j : Json} (hp : Json.parse text = some j)
    (hj : Unrepeated j) :
    ((∃ s, ofText text = .ok s ∧ ofGenericText text = .ok s) ∨
      (ofText text = .error .mismatched ∧ ofGenericText text = .error .mismatched)) ∧
    ∀ members : Keyed Json, RepeatsAccepted members →
      (∀ k j, (k, j) ∈ members → Unrepeated j) →
      fieldsOf? (Json.object members).collapse = fieldsOf? (.object members) ∧
      ∀ fields, fieldsOf? (.object members) = some fields →
        Keyed.keys fields = (Keyed.keys members).eraseDups ∧
          ∀ k, Keyed.get? k fields = (Keyed.get? k members.reverse).bind ofSubdocument? := by
  refine ⟨?_, fun members hr hm => ⟨?_, fun fields hf => fields_of_members hf⟩⟩
  · have hgeneric : Json.read text = some j.collapse := by rw [Json.read, hp]; rfl
    obtain ⟨rest, hv, hrest⟩ := value_of_parse hp
    rw [ofGenericText, hgeneric]
    dsimp only
    rw [hj.ofDocument?_collapse, ofText]
    rcases readOutermost_of_value hv with hread | ⟨hread, hnone⟩
    · rw [hread, Except.ok_bind]
      dsimp only
      cases ofDocument? j with
      | none => exact .inr ⟨rfl, rfl⟩
      | some s =>
        refine .inl ⟨s, ?_, rfl⟩
        dsimp only
        rw [if_pos hrest]
        rfl
    · rw [hread, hnone]
      exact .inr ⟨rfl, rfl⟩
  · exact fieldsOf?_collapse hr fun k j h => (hm k j h).readsAlike.schema

/-- A document of a kind that holds nothing, as an array. -/
def bareItems (k : SchemaKind) : Json := .array [.string k.name]

/-- The fields of a document in which one is given twice. -/
def repeatedFields : Keyed Json :=
  [("a", bareItems .any), ("b", bareItems .null), ("a", bareItems .never)]

/-- That document, its kind last. -/
def repeatedDocument : Json :=
  .object [("fields", .object repeatedFields), ("type", .string "object")]

def repeatedText : String :=
  "\x7b\"fields\":\x7b\"a\":[\"any\"],\"b\":[\"null\"],\"a\":[\"never\"]\x7d,\"type\":\"object\"\x7d"

theorem unrepeated_repeatedDocument : Unrepeated repeatedDocument := by
  have hfields : ∀ k j, (k, j) ∈ repeatedFields → ∃ kind, j = bareItems kind := by
    intro k j hm
    simp only [repeatedFields, List.mem_cons, Prod.mk.injEq, List.not_mem_nil, or_false] at hm
    rcases hm with ⟨-, rfl⟩ | ⟨-, rfl⟩ | ⟨-, rfl⟩ <;> exact ⟨_, rfl⟩
  refine .fieldsMember (show List.Nodup _ by decide) rfl List.mem_cons_self (fun k j hm hk => ?_)
    (fun k j hm => ?_) (fun k j hm _ => ?_)
  · rcases List.mem_cons.mp hm with e | hm
    · exact absurd (Prod.mk.inj e).1 hk
    · rw [(Prod.mk.inj (List.mem_singleton.mp hm)).2]
      exact .string _
  · obtain ⟨kind, rfl⟩ := hfields k j hm
    refine .array fun j hj => ?_
    rw [List.mem_singleton.mp hj]
    exact .string _
  · simp only [repeatedFields, List.mem_cons, Prod.mk.injEq, List.not_mem_nil, or_false] at hm
    rcases hm with ⟨-, rfl⟩ | ⟨-, rfl⟩ | ⟨-, rfl⟩ <;> rfl

/-- The field that is given twice comes first and is never there. -/
theorem ofText_eq_ofGenericText_repeated :
    Json.parse repeatedText = some repeatedDocument ∧ Unrepeated repeatedDocument ∧
      ofText repeatedText = .ok (.object [("a", .never), ("b", .null)]) ∧
      ofGenericText repeatedText = .ok (.object [("a", .never), ("b", .null)]) := by
  have hparse : Json.parse repeatedText = some repeatedDocument := rfl
  have hread : readOutermost repeatedText.toList = .ok (repeatedDocument, []) := rfl
  have htext : ofText repeatedText = .ok (.object [("a", .never), ("b", .null)]) :=
    (ofText_eq_ok hread _).mpr rfl
  obtain ⟨⟨s, hs, hgeneric⟩ | ⟨hs, -⟩, -⟩ :=
    ofText_eq_ofGenericText hparse unrepeated_repeatedDocument
  · rw [htext] at hs
    rw [← Except.ok.inj hs] at hgeneric
    exact ⟨hparse, unrepeated_repeatedDocument, htext, hgeneric⟩
  · rw [htext] at hs
    cases hs

end GuardedData.Schema
