import GuardedData.Proofs.Check.Widening

/-!
# The order of fields and branches

`s.Rearranged t` says that two schemas differ only by the order of branches and
fields, by unions that are spliced into unions, and by modifiers that are put
twice, in any number of places at any depth. What is accepted does not depend on
that (`Rearranged.equivalent`), though a check may meet another mismatch first.
-/

namespace GuardedData

namespace Schema

/-- The schemas differ only by how fields and branches are arranged. -/
inductive Rearranged : Schema → Schema → Prop where
  | refl (s : Schema) : Rearranged s s
  | symm {s t : Schema} : Rearranged s t → Rearranged t s
  | trans {s t u : Schema} : Rearranged s t → Rearranged t u → Rearranged s u
  | inside {s t : Schema} (C : Template) : Rearranged s t → Rearranged (C.fill s) (C.fill t)
  | branches {as bs : List Schema} : as.Perm bs → Rearranged (.union as) (.union bs)
  | fields {fs gs : List (String × Schema)} : fs.Perm gs → Rearranged (.object fs) (.object gs)
  | splice (before inner after : List Schema) :
      Rearranged (.union (before ++ .union inner :: after)) (.union (before ++ inner ++ after))
  | nullableTwice (s : Schema) : Rearranged (.nullable (.nullable s)) (.nullable s)
  | optionalTwice (s : Schema) : Rearranged (.optional (.optional s)) (.optional s)

/-! ## Rearranged parts -/

theorem Template.fill_branch (before after : List Schema) (s : Schema) :
    (Template.union (before.map fixed ++ hole :: after.map fixed)).fill s =
      .union (before ++ s :: after) := by
  simp [fill, fillBranches_eq, Function.comp_def]

theorem Template.fill_field (before after : List (String × Schema)) (k : String) (s : Schema) :
    (Template.object (before.map (fun p => (p.1, fixed p.2)) ++ (k, hole) ::
      after.map fun p => (p.1, fixed p.2))).fill s = .object (before ++ (k, s) :: after) := by
  simp [fill, fillFields_eq, Function.comp_def]

/-- A relation that leads from a schema to itself, from one to the next, and from what fills a
template to the whole. -/
structure Congruence (R : Schema → Schema → Prop) : Prop where
  refl (s : Schema) : R s s
  trans {s t u : Schema} : R s t → R t u → R s u
  inside (C : Template) {s t : Schema} : R s t → R (C.fill s) (C.fill t)

namespace Congruence

section
variable {R : Schema → Schema → Prop} {s t : Schema} (hR : Congruence R)
include hR

theorem branch (hr : R s t) (before after : List Schema) :
    R (.union (before ++ s :: after)) (.union (before ++ t :: after)) := by
  rw [← Template.fill_branch before after s, ← Template.fill_branch before after t]
  exact hR.inside _ hr

theorem field (hr : R s t) (k : String) (before after : List (String × Schema)) :
    R (.object (before ++ (k, s) :: after)) (.object (before ++ (k, t) :: after)) := by
  rw [← Template.fill_field before after k s, ← Template.fill_field before after k t]
  exact hR.inside _ hr

/-- All branches may be replaced at once: one is after the other, behind those that are done. -/
theorem branchwise {as bs : List Schema} (hr : List.Forall₂ R as bs) (before : List Schema) :
    R (.union (before ++ as)) (.union (before ++ bs)) := by
  induction hr generalizing before with
  | nil => exact hR.refl _
  | @cons a b _ _ hab _ ih =>
    have rest := ih (before ++ [b])
    rw [← List.append_cons, ← List.append_cons] at rest
    exact hR.trans (hR.branch hab before _) rest

/-- All fields may be replaced at once. -/
theorem fieldwise {fs gs : List (String × Schema)}
    (hr : List.Forall₂ (fun p q => p.1 = q.1 ∧ R p.2 q.2) fs gs)
    (before : List (String × Schema)) : R (.object (before ++ fs)) (.object (before ++ gs)) := by
  induction hr generalizing before with
  | nil => exact hR.refl _
  | @cons p q _ _ hpq _ ih =>
    obtain ⟨k, s⟩ := p
    obtain ⟨_, t⟩ := q
    obtain ⟨rfl, hst⟩ := hpq
    have rest := ih (before ++ [(k, t)])
    rw [← List.append_cons, ← List.append_cons] at rest
    exact hR.trans (hR.field hst k before _) rest

end

end Congruence

theorem Rearranged.congruence : Congruence Rearranged := ⟨.refl, .trans, fun C => .inside C⟩

/-! ## What is accepted -/

section
variable {c : Catalogue} {h : Heap} {s t : Schema}

theorem equivalent_iff :
    s.Equivalent c h t ↔ ∀ v, check c h s v = .ok () ↔ check c h t v = .ok () := by
  refine forall_congr' fun v => ?_
  rw [Bool.eq_iff_iff, conforms_iff, conforms_iff]

theorem refines_of_subset_branches {as bs : List Schema} (hs : as ⊆ bs) :
    (union as).Refines c h (.union bs) :=
  .union fun b hb => ⟨b, hs hb, .refl b⟩

theorem refines_of_subset_fields {fs gs : List (String × Schema)} (hs : gs ⊆ fs) :
    (object fs).Refines c h (.object gs) :=
  .object fun p hp => ⟨p, hs hp, rfl, .refl p.2⟩

/-- A branch of the inner union is tried in its place. -/
theorem equivalent_splice (before inner after : List Schema) :
    (union (before ++ .union inner :: after)).Equivalent c h
      (.union (before ++ inner ++ after)) := by
  rw [equivalent_iff]
  intro v
  simp only [check_union_eq_ok_iff, List.mem_append, List.mem_cons, or_and_right, exists_or,
    exists_eq_left, or_assoc]

theorem equivalent_nullableTwice (s : Schema) :
    (nullable (nullable s)).Equivalent c h (.nullable s) := by
  rw [equivalent_iff]
  intro v
  simp only [check_nullable_eq_ok_iff]
  constructor
  · rintro ⟨hu, hn | ⟨-, hv⟩⟩
    · exact ⟨hu, .inl hn⟩
    · exact ⟨hu, hv⟩
  · rintro ⟨hu, hv⟩
    exact ⟨hu, .inr ⟨hu, hv⟩⟩

theorem equivalent_optionalTwice (s : Schema) :
    (optional (optional s)).Equivalent c h (.optional s) := by
  rw [equivalent_iff]
  intro v
  simp only [check_optional_eq_ok_iff, or_self_left]

theorem Rearranged.equivalent (hr : s.Rearranged t) : s.Equivalent c h t := by
  induction hr with
  | refl s => exact fun _ => rfl
  | symm _ ih => exact fun v => (ih v).symm
  | trans _ _ ih ih' => exact fun v => (ih v).trans (ih' v)
  | inside C _ ih => exact ih.fill C
  | branches hp =>
    exact equivalent_iff_refines.mpr
      ⟨refines_of_subset_branches hp.subset, refines_of_subset_branches hp.symm.subset⟩
  | fields hp =>
    exact equivalent_iff_refines.mpr
      ⟨refines_of_subset_fields hp.symm.subset, refines_of_subset_fields hp.subset⟩
  | splice before inner after => exact equivalent_splice before inner after
  | nullableTwice s => exact equivalent_nullableTwice s
  | optionalTwice s => exact equivalent_optionalTwice s

/-- A value is accepted or refused however fields and branches are arranged. -/
theorem conforms_of_rearranged (hr : s.Rearranged t) (c : Catalogue) (h : Heap) (v : Value) :
    conforms c h s v = conforms c h t v :=
  hr.equivalent v

end

/-- A ticket with a price, which may be a text, a number or null, and with one note or a list. -/
def ticket : Schema :=
  .object [("price", .union [.tag "string", .union [.tag "number", .null]]),
    ("notes", .union [.tag "string", .array (.nullable (.nullable .any))])]

/-- The same ticket, written down more shortly and in another order. -/
def shortTicket : Schema :=
  .object [("notes", .union [.tag "string", .array (.nullable .any)]),
    ("price", .union [.null, .tag "string", .tag "number"])]

theorem rearranged_ticket : ticket.Rearranged shortTicket := by
  have list : (array (.nullable (.nullable .any))).Rearranged (.array (.nullable .any)) :=
    (Rearranged.nullableTwice .any).inside (.array .hole)
  have notes := Rearranged.congruence.branchwise
    (.cons (.refl (.tag "string")) (.cons list .nil)) []
  have spliced : (union [.tag "string", .union [.tag "number", .null]]).Rearranged
      (.union [.tag "string", .tag "number", .null]) :=
    .splice [.tag "string"] [.tag "number", .null] []
  have turned : [tag "string", tag "number", null].Perm [null, tag "string", tag "number"] :=
    (List.Perm.swap _ _ _).cons _ |>.trans (.swap _ _ _)
  have price := spliced.trans (.branches turned)
  have swapped := Rearranged.fields (List.Perm.swap
    ("notes", union [.tag "string", .array (.nullable (.nullable .any))])
    ("price", union [.tag "string", .union [.tag "number", .null]]) [])
  have parts : List.Forall₂ (fun p q : String × Schema => p.1 = q.1 ∧ p.2.Rearranged q.2)
      [("notes", .union [.tag "string", .array (.nullable (.nullable .any))]),
        ("price", .union [.tag "string", .union [.tag "number", .null]])]
      [("notes", .union [.tag "string", .array (.nullable .any)]),
        ("price", .union [.null, .tag "string", .tag "number"])] :=
    .cons ⟨rfl, notes⟩ (.cons ⟨rfl, price⟩ .nil)
  exact swapped.trans (Rearranged.congruence.fieldwise parts [])

def wrongTicket : Heap :=
  Heap.empty.setObject 0 ((Std.ExtTreeMap.insert ∅ "price" (.bool true)).insert "notes" .null)

/-- Both refuse the object, but report different fields. -/
theorem conforms_of_rearranged_ticket :
    conforms .builtin wrongTicket ticket (.object 0) =
        conforms .builtin wrongTicket shortTicket (.object 0) ∧
      check .builtin wrongTicket ticket (.object 0) = .error
        ⟨.unionExhausted, "string, number, null", "boolean", [.field "price"]⟩ ∧
      check .builtin wrongTicket shortTicket (.object 0) = .error
        ⟨.unionExhausted, "string, array<nullable<any>>", "null", [.field "notes"]⟩ :=
  ⟨conforms_of_rearranged rearranged_ticket .builtin wrongTicket (.object 0), by decide, by decide⟩

end Schema

end GuardedData
