import GuardedData.Proofs.Check.Acceptance

/-!
# Changes of a catalogue

A check looks up the tags of its schema and nothing else, so catalogues that
agree on those give the same result (`check_of_agreesOn`). A tag that is not
registered accepts nothing, so a catalogue with more tags accepts whatever the
smaller one does (`check_mono`).
-/

namespace GuardedData

namespace Catalogue

/-- Both catalogues have the same predicate, or none, for every tag of the schema. -/
def AgreesOn (c c' : Catalogue) (s : Schema) : Prop :=
  ∀ name, Schema.Within (.tag name) s → c'.entries[name]? = c.entries[name]?

/-- Whatever a tag accepts it also accepts by the other catalogue. -/
def Extends (c c' : Catalogue) : Prop :=
  ∀ (name : String) (h : Heap) (v : Value),
    c.accepts? h name v = some true → c'.accepts? h name v = some true

def registerAll (c : Catalogue) (tags : List (String × TagPredicate)) : Catalogue :=
  tags.foldl (fun c tag => c.register tag.1 tag.2) c

section
variable {c c' : Catalogue} {s n : Schema} {name : String} {p : TagPredicate}

theorem AgreesOn.of_within (ha : c.AgreesOn c' s) (hn : Schema.Within n s) : c.AgreesOn c' n :=
  fun name hname => ha name (hname.trans hn)

theorem getElem?_register_ne (c : Catalogue) (p : TagPredicate) {other : String}
    (hne : other ≠ name) : (c.register other p).entries[name]? = c.entries[name]? := by
  rw [register, Std.ExtTreeMap.getElem?_insert, if_neg]
  exact fun e => hne (Std.LawfulEqCmp.eq_of_compare e)

/-- A tag that is not among those that are registered stays as it was. -/
theorem getElem?_registerAll {tags : List (String × TagPredicate)}
    (hne : ∀ tag ∈ tags, tag.1 ≠ name) :
    (c.registerAll tags).entries[name]? = c.entries[name]? := by
  induction tags generalizing c with
  | nil => rfl
  | cons tag tags ih =>
    obtain ⟨htag, htags⟩ := List.forall_mem_cons.mp hne
    exact (ih htags).trans (c.getElem?_register_ne tag.2 htag)

/-- New tags take nothing away. -/
theorem extends_registerAll {tags : List (String × TagPredicate)}
    (hnew : ∀ tag ∈ tags, c.contains tag.1 = false) : c.Extends (c.registerAll tags) := by
  intro name h v hv
  have known : c.contains name = true := by
    cases he : c.entries[name]? with
    | none => simp [accepts?, he] at hv
    | some p => simp [contains, Std.ExtTreeMap.contains_eq_isSome_getElem?, he]
  have same : (c.registerAll tags).entries[name]? = c.entries[name]? := by
    refine getElem?_registerAll fun tag htag e => ?_
    rw [← e, hnew tag htag] at known
    cases known
  rw [accepts?, same]
  exact hv

end

end Catalogue

section
variable {c c' : Catalogue} {h : Heap} {s : Schema} {v : Value}

theorem check_of_agreesOn (ha : c.AgreesOn c' s) : check c' h s v = check c h s v := by
  induction s generalizing v with
  | undefined | null | literal | any | unknown | never => rfl
  | tag name => rw [check, check, Catalogue.accepts?, Catalogue.accepts?, ha name .refl]
  | array items ih =>
    cases v with
    | array r =>
      exact checkElements_of_map_eq
        (List.map_congr_left fun x _ => ih (ha.of_within (.array .refl))) 0
    | _ => rfl
  | object fields ih =>
    rw [check, check]
    split
    · rfl
    · exact checkFields_congr fun k s hm => ih k s hm (ha.of_within (.field hm .refl))
  | nullable inner ih => rw [check, check, ih (ha.of_within (.nullable .refl))]
  | optional inner ih => rw [check, check, ih (ha.of_within (.optional .refl))]
  | union branches ih =>
    rw [check, check, acceptsSome_congr fun b hb => ih b hb (ha.of_within (.branch hb .refl))]

theorem check_tag_eq_ok_iff {name : String} :
    check c h (.tag name) v = .ok () ↔ c.accepts? h name v = some true := by
  rw [check, require_eq_ok_iff, beq_iff_eq]

/-- A catalogue that accepts more by each tag accepts more by each schema. -/
theorem check_mono (hc : c.Extends c') (hv : check c h s v = .ok ()) : check c' h s v = .ok () := by
  induction s generalizing v with
  | undefined | null | literal | any | unknown | never => exact hv
  | tag name => exact check_tag_eq_ok_iff.mpr (hc name h v (check_tag_eq_ok_iff.mp hv))
  | array items ih =>
    obtain ⟨r, rfl, hall⟩ := check_array_eq_ok_iff.mp hv
    exact check_array_eq_ok_iff.mpr ⟨r, rfl, fun x hx => ih (hall x hx)⟩
  | object fields ih =>
    obtain ⟨hu, hn, hall⟩ := check_object_eq_ok_iff.mp hv
    exact check_object_eq_ok_iff.mpr ⟨hu, hn, fun k s hm => ih k s hm (hall k s hm)⟩
  | nullable inner ih =>
    obtain ⟨hu, hv⟩ := check_nullable_eq_ok_iff.mp hv
    exact check_nullable_eq_ok_iff.mpr ⟨hu, hv.imp_right ih⟩
  | optional inner ih =>
    exact check_optional_eq_ok_iff.mpr ((check_optional_eq_ok_iff.mp hv).imp_right ih)
  | union branches ih =>
    obtain ⟨b, hb, hv⟩ := check_union_eq_ok_iff.mp hv
    exact check_union_eq_ok_iff.mpr ⟨b, hb, ih b hb hv⟩

end

end GuardedData
