import GuardedData.Proofs.Json.Printing
import GuardedData.Proofs.Json.Reading
import GuardedData.Proofs.Schema.Documents
import GuardedData.Schema.Reading

/-!
# The outermost document of a text

The outermost document is read member by member, the others as a whole. What is
read fits (`readOutermost_fits`), and the document of a schema is read from its
text, but for the numbers in it (`readOutermost_document`).
-/

namespace GuardedData

theorem Except.ok_bind {ε α β : Type} (a : α) (f : α → Except ε β) :
    (Except.ok a >>= f) = f a := rfl

theorem Except.bind_eq_ok {ε α β : Type} {x : Except ε α} {f : α → Except ε β} {b : β} :
    x >>= f = .ok b ↔ ∃ a, x = .ok a ∧ f a = .ok b := by
  cases x with
  | error e => exact ⟨fun h => (by cases h), fun ⟨_, h, _⟩ => (by cases h)⟩
  | ok a => exact ⟨fun h => ⟨a, rfl, h⟩, fun ⟨_, e, h⟩ => Except.ok.inj e ▸ h⟩

namespace Schema

theorem orMalformed_some {α : Type} (a : α) : orMalformed (some a) = .ok a := rfl

theorem orMalformed_eq_ok {α : Type} {x : Option α} {a : α} :
    orMalformed x = .ok a ↔ x = some a := by
  cases x with
  | none => constructor <;> intro h <;> cases h
  | some b =>
    exact ⟨fun h => congrArg some (Except.ok.inj h), fun h => congrArg _ (Option.some.inj h)⟩

/-! ## What is read -/

theorem readKind_fits {cs rest : List Char} {j : Json} (h : readKind cs = .ok (j, rest)) (d : Nat) :
    j.Fits Number.IsFinite d := by
  unfold readKind at h
  split at h
  · cases h
  · cases h
  · split at h
    · cases h
    · split at h
      · cases h
      · obtain ⟨rfl, -⟩ := Prod.mk.inj (Except.ok.inj h)
        exact .string _
    · cases h

/-- One member of the outermost object, and the text after it. -/
def readMember (seen : Bool) (cs : List Char) :
    Except ReadError ((String × Json) × List Char) := do
  let (name, rest) ← orMalformed (Json.memberName cs)
  if name = "type" && seen then throw .mismatched
  let rest ← orMalformed (Json.skipColon rest)
  let (j, rest) ← if name = "type" then readKind rest else orMalformed (innerValue rest)
  return ((name, j), rest)

theorem readMembers_succ (bound : Nat) (seen : Bool) (cs : List Char) :
    readMembers (bound + 1) seen cs = (do
      let (p, rest) ← readMember seen cs
      match Json.skipSpace rest with
      | ',' :: rest => do
        let (members, rest) ← readMembers bound (seen || p.1 = "type") rest
        return (p :: members, rest)
      | '}' :: rest => return ([p], rest)
      | _ => throw .malformed) := by
  rw [readMembers, readMember, bind_assoc]
  refine bind_congr fun (name, rest) => ?_
  dsimp only
  by_cases hseen : (decide (name = "type") && seen) = true
  · rw [if_pos hseen, if_pos hseen]
    rfl
  · rw [if_neg hseen, if_neg hseen, bind_assoc]
    refine bind_congr fun rest => ?_
    by_cases hkind : name = "type"
    · rw [if_pos hkind, if_pos hkind, bind_assoc]
      rfl
    · rw [if_neg hkind, if_neg hkind, bind_assoc]
      rfl

theorem readMember_fits {seen : Bool} {cs rest : List Char} {p : String × Json}
    (h : readMember seen cs = .ok (p, rest)) :
    p.2.Fits Number.IsFinite (Json.maxDepth - 1) := by
  obtain ⟨⟨name, rest₁⟩, -, h⟩ := Except.bind_eq_ok.mp h
  dsimp only at h
  split at h
  · cases h
  · obtain ⟨rest₂, -, h⟩ := Except.bind_eq_ok.mp h
    split at h
    · obtain ⟨⟨j, rest₃⟩, hj, h⟩ := Except.bind_eq_ok.mp h
      obtain ⟨rfl, rfl⟩ := Prod.mk.inj (Except.ok.inj h)
      exact readKind_fits hj _
    · obtain ⟨⟨j, rest₃⟩, hj, h⟩ := Except.bind_eq_ok.mp h
      obtain ⟨rfl, rfl⟩ := Prod.mk.inj (Except.ok.inj h)
      exact Json.value_fits (orMalformed_eq_ok.mp hj)

theorem readMembers_fits {bound : Nat} {seen : Bool} {cs rest : List Char}
    {members : List (String × Json)} (h : readMembers bound seen cs = .ok (members, rest)) :
    ∀ p ∈ members, p.2.Fits Number.IsFinite (Json.maxDepth - 1) := by
  induction bound generalizing seen cs members rest with
  | zero => cases h
  | succ bound ih =>
    rw [readMembers_succ] at h
    obtain ⟨⟨p, rest₁⟩, hp, h⟩ := Except.bind_eq_ok.mp h
    have hfits := readMember_fits hp
    dsimp only at h
    split at h
    · obtain ⟨⟨members', rest₂⟩, hm, h⟩ := Except.bind_eq_ok.mp h
      obtain ⟨rfl, rfl⟩ := Prod.mk.inj (Except.ok.inj h)
      exact List.forall_mem_cons.mpr ⟨hfits, ih hm⟩
    · obtain ⟨rfl, rfl⟩ := Prod.mk.inj (Except.ok.inj h)
      exact List.forall_mem_singleton.mpr hfits
    · cases h

theorem readItems_fits {cs rest : List Char} {items : List Json}
    (h : readItems cs = .ok (items, rest)) :
    ∀ j ∈ items, j.Fits Number.IsFinite (Json.maxDepth - 1) := by
  unfold readItems at h
  split at h
  · cases h
  · obtain ⟨⟨kind, rest₁⟩, hkind, h⟩ := Except.bind_eq_ok.mp h
    have hfits := readKind_fits hkind (Json.maxDepth - 1)
    dsimp only at h
    split at h
    · obtain ⟨⟨items', rest₂⟩, hi, h⟩ := Except.bind_eq_ok.mp h
      obtain ⟨rfl, rfl⟩ := Prod.mk.inj (Except.ok.inj h)
      exact List.forall_mem_cons.mpr
        ⟨hfits, Json.elements_forall Json.value_fits (orMalformed_eq_ok.mp hi)⟩
    · obtain ⟨rfl, rfl⟩ := Prod.mk.inj (Except.ok.inj h)
      exact List.forall_mem_singleton.mpr hfits
    · cases h

theorem readOutermost_fits {cs rest : List Char} {j : Json}
    (h : readOutermost cs = .ok (j, rest)) : j.Fits Number.IsFinite Json.maxDepth := by
  unfold readOutermost at h
  split at h
  · split at h
    · obtain ⟨rfl, -⟩ := Prod.mk.inj (Except.ok.inj h)
      exact .object (d := Json.maxDepth - 1) fun _ _ hm => by cases hm
    · obtain ⟨⟨members, rest₁⟩, hm, h⟩ := Except.bind_eq_ok.mp h
      obtain ⟨rfl, -⟩ := Prod.mk.inj (Except.ok.inj h)
      exact .object (d := Json.maxDepth - 1) fun k j hj => readMembers_fits hm (k, j) hj
  · obtain ⟨⟨items, rest₁⟩, hi, h⟩ := Except.bind_eq_ok.mp h
    obtain ⟨rfl, -⟩ := Prod.mk.inj (Except.ok.inj h)
    exact .array (d := Json.maxDepth - 1) (readItems_fits hi)
  · exact Json.scalar_fits (orMalformed_eq_ok.mp h) _

/-! ## Reading the text of a schema -/

theorem ofName?_name (k : SchemaKind) : SchemaKind.ofName? k.name = some k := by
  cases k <;> rfl

theorem readKind_name (k : SchemaKind) (rest : List Char) :
    readKind ((Json.string k.name).render.toList ++ rest) = .ok (.string k.name, rest) := by
  have hopens : Json.Opens ((Json.string k.name).render.toList ++ rest) := by
    rw [Json.render, Json.toList_renderString]
    exact Json.opens_quote _
  have hscalar : Json.scalar ((Json.string k.name).render.toList ++ rest) =
      some (.string k.name, rest) := by
    rw [Json.render, Json.toList_renderString, List.cons_append, List.append_assoc]
    show (Json.readString (k.name.toList.flatMap Json.escapeChar ++ '"' :: rest)).map _ = _
    rw [Json.readString_escaped]
    rfl
  unfold readKind
  rw [hopens.skipSpace]
  split
  · next e =>
    rw [Json.render, Json.toList_renderString] at e
    exact absurd (List.cons.inj e).1 (by decide)
  · next e =>
    rw [Json.render, Json.toList_renderString] at e
    exact absurd (List.cons.inj e).1 (by decide)
  · rw [hscalar]
    dsimp only
    rw [ofName?_name]

theorem readMember_kind (k : SchemaKind) (rest : List Char) :
    readMember false (Json.memberText ("type", .string k.name) ++ rest) =
      .ok (("type", .string k.name), rest) := by
  rw [readMember, Json.memberName_memberText, orMalformed_some, Except.ok_bind]
  simp only [Bool.and_false]
  rw [Json.skipColon_colon, orMalformed_some, Except.ok_bind, readKind_name]
  rfl

theorem readMember_content {name : String} (hname : name ≠ "type") {content : Json}
    (hcontent : content.Fits Number.ReadsBack (Json.maxDepth - 1)) (seen : Bool)
    {rest : List Char} (hrest : Number.Follows rest) :
    readMember seen (Json.memberText (name, content) ++ rest) =
      orMalformed ((content.mapNumbers? Number.reread).map fun j => ((name, j), rest)) := by
  have hseen : ¬ (decide (name = "type") && seen) = true := by simp [hname]
  rw [readMember, Json.memberName_memberText, orMalformed_some, Except.ok_bind]
  dsimp only
  rw [if_neg hseen, Json.skipColon_colon, orMalformed_some, Except.ok_bind, if_neg hname,
    innerValue, Json.value_render hcontent hrest]
  cases content.mapNumbers? Number.reread <;> rfl

theorem readOutermost_brace {cs : List Char} (h : Json.Opens cs) :
    readOutermost ('{' :: cs) = (do
      let (members, rest) ← readMembers (cs.length + 1) false cs
      return (.object members, rest)) := by
  have hbrace : Json.skipSpace ('{' :: cs) = '{' :: cs := rfl
  unfold readOutermost
  rw [hbrace]
  split
  · next e =>
    obtain ⟨-, rfl⟩ := List.cons.inj e
    rw [h.skipSpace]
    split
    · obtain ⟨c, r, hc, -, -, hne⟩ := h
      exact absurd (List.cons.inj hc).1.symm hne
    · rfl
  · next e => exact absurd (List.cons.inj e).1 (by decide)
  · next hne _ => exact absurd rfl (hne cs)

/-- The kind as the last member, and as one before others. -/
theorem readMembers_kind_last (bound : Nat) (k : SchemaKind) (rest : List Char) :
    readMembers (bound + 1) false (Json.memberText ("type", .string k.name) ++ '}' :: rest) =
      .ok ([("type", .string k.name)], rest) := by
  rw [readMembers_succ, readMember_kind]
  rfl

theorem readMembers_kind_before (bound : Nat) (k : SchemaKind) (rest : List Char) :
    readMembers (bound + 1) false (Json.memberText ("type", .string k.name) ++ ',' :: rest) = (do
      let (members, rest) ← readMembers bound true rest
      return (("type", .string k.name) :: members, rest)) := by
  rw [readMembers_succ, readMember_kind]
  rfl

theorem readMembers_content {name : String} (hname : name ≠ "type") {content : Json}
    (hcontent : content.Fits Number.ReadsBack (Json.maxDepth - 1)) (bound : Nat) (seen : Bool)
    (rest : List Char) :
    readMembers (bound + 1) seen (Json.memberText (name, content) ++ '}' :: rest) =
      orMalformed ((content.mapNumbers? Number.reread).map fun j => ([(name, j)], rest)) := by
  have hfollows : Number.Follows ('}' :: rest) := .inr (.inr rfl)
  rw [readMembers_succ, readMember_content hname hcontent seen hfollows]
  cases content.mapNumbers? Number.reread <;> rfl

theorem readOutermost_bareDocument (k : SchemaKind) :
    readOutermost (bareDocument k).render.toList = .ok (bareDocument k, []) := by
  rw [bareDocument, Json.toList_render_object, List.map_cons, List.map_nil,
    List.intercalate_singleton, readOutermost_brace (Json.opens_memberText _ _),
    readMembers_kind_last]
  rfl

/-- The text of a document of a kind that holds something under another name than `type`. -/
theorem readOutermost_document (k : SchemaKind) {name : String} (hname : name ≠ "type")
    {content : Json} (hcontent : content.Fits Number.ReadsBack (Json.maxDepth - 1)) :
    readOutermost (document k name content).render.toList =
      orMalformed ((content.mapNumbers? Number.reread).map fun j => (document k name j, [])) := by
  have hlength : ∀ cs, ∃ n,
      (Json.memberText ("type", .string k.name) ++ ',' :: cs).length = n + 1 := fun _ => ⟨_, rfl⟩
  rw [document, Json.toList_render_object, List.map_cons, List.map_cons, List.map_nil,
    Json.intercalate_comma_cons, List.intercalate_singleton, List.append_assoc, List.cons_append,
    readOutermost_brace (Json.opens_memberText _ _), readMembers_kind_before]
  obtain ⟨n, hn⟩ := hlength (Json.memberText (name, content) ++ ['}'])
  rw [hn, readMembers_content hname hcontent]
  cases content.mapNumbers? Number.reread <;> rfl

end Schema

end GuardedData
