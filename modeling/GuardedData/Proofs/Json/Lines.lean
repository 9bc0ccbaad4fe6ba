import GuardedData.Proofs.Json.Printing

/-!
# Objects of texts on one line

The text of an object of texts, whatever characters these have, is read back as
the object (`read_ofTexts`), and has no control characters, so that it takes one
line (`printable_ofTexts`).
-/

namespace GuardedData.Json

/-- The object that has texts under names. -/
def ofTexts (texts : Keyed String) : Json := .object (texts.map fun p => (p.1, .string p.2))

/-- No control character, and so no end of a line. -/
def Printable (cs : List Char) : Prop := ∀ c ∈ cs, 0x20 ≤ c.toNat

section
variable {texts : Keyed String} {cs ds : List Char}

/-! ## Read back -/

theorem fits_ofTexts (texts : Keyed String) : (ofTexts texts).Fits Number.ReadsBack 1 := by
  refine .object fun k j hm => ?_
  obtain ⟨p, -, hp⟩ := List.mem_map.mp hm
  obtain ⟨-, rfl⟩ := Prod.mk.inj hp
  exact .string p.2

theorem mapNumbers?_ofTexts (f : Number → Option Json) (texts : Keyed String) :
    (ofTexts texts).mapNumbers? f = some (ofTexts texts) := by
  have hmembers : mapMembers? f (texts.map fun p => (p.1, .string p.2)) =
      some (texts.map fun p => (p.1, .string p.2)) := by
    induction texts with
    | nil => rfl
    | cons p texts ih =>
      rw [List.map_cons, mapMembers?, ih]
      rfl
  rw [ofTexts, mapNumbers?, hmembers]
  rfl

theorem collapse_ofTexts (hd : Keyed.Distinct texts) :
    (ofTexts texts).collapse = ofTexts texts := by
  have hmembers : collapseMembers (texts.map fun p => (p.1, .string p.2)) =
      texts.map fun p => (p.1, .string p.2) := by
    clear hd
    induction texts with
    | nil => rfl
    | cons p texts ih =>
      rw [List.map_cons, collapseMembers, ih]
      rfl
  have hdistinct : Keyed.Distinct (texts.map fun p => (p.1, Json.string p.2)) := by
    rw [Keyed.Distinct, Keyed.keys, List.map_map]
    exact hd
  rw [ofTexts, collapse, hmembers, hdistinct.ofList_eq]

theorem read_ofTexts (hd : Keyed.Distinct texts) :
    read (ofTexts texts).render = some (ofTexts texts) := by
  have hfits : (ofTexts texts).Fits Number.ReadsBack maxDepth :=
    (fits_ofTexts texts).mono (by decide)
  have hvalue := value_render hfits (show Number.Follows [] from trivial)
  rw [List.append_nil, mapNumbers?_ofTexts] at hvalue
  rw [read, parse, hvalue]
  show some (ofTexts texts).collapse = _
  rw [collapse_ofTexts hd]

/-! ## On one line -/

theorem Printable.append (hc : Printable cs) (hd : Printable ds) : Printable (cs ++ ds) :=
  fun c hm => (List.mem_append.mp hm).elim (hc c) (hd c)

theorem Printable.cons {c : Char} (hc : 0x20 ≤ c.toNat) (hd : Printable ds) : Printable (c :: ds) :=
  List.forall_mem_cons.mpr ⟨hc, hd⟩

theorem printable_nil : Printable [] := fun _ hm => absurd hm List.not_mem_nil

theorem printable_intercalate {ls : List (List Char)} (h : ∀ l ∈ ls, Printable l) :
    Printable ([','].intercalate ls) := by
  induction ls with
  | nil => exact printable_nil
  | cons l ls ih =>
    have hl := h l List.mem_cons_self
    cases ls with
    | nil => exact List.intercalate_singleton ▸ hl
    | cons l' ls =>
      rw [intercalate_comma_cons]
      exact hl.append (.cons (by decide) (ih fun x hx => h x (List.mem_cons_of_mem _ hx)))

theorem le_hexDigit : ∀ n < 16, 0x20 ≤ (hexDigit n).toNat := by decide

/-- Escapes leave no control character. -/
theorem printable_escapeChar (c : Char) : Printable (escapeChar c) := by
  unfold escapeChar
  split
  iterate 7 exact .cons (by decide) (.cons (by decide) printable_nil)
  · split
    · next hc =>
      have escape : Printable ['\\', 'u', '0', '0'] :=
        .cons (by decide) (.cons (by decide) (.cons (by decide) (.cons (by decide) printable_nil)))
      exact escape.append (.cons (le_hexDigit _ (by omega))
        (.cons (le_hexDigit _ (by omega)) printable_nil))
    · next hc => exact .cons (Nat.le_of_not_lt hc) printable_nil

theorem printable_escaped (s : List Char) : Printable (s.flatMap escapeChar) := fun c hm => by
  obtain ⟨x, -, hx⟩ := List.mem_flatMap.mp hm
  exact printable_escapeChar x c hx

/-- The text of an object of texts is one line. -/
theorem printable_ofTexts (texts : Keyed String) : Printable (ofTexts texts).render.toList := by
  rw [ofTexts, toList_render_object]
  refine .cons (by decide) ((printable_intercalate fun l hl => ?_).append
    (.cons (by decide) printable_nil))
  obtain ⟨q, hq, rfl⟩ := List.mem_map.mp hl
  obtain ⟨p, -, rfl⟩ := List.mem_map.mp hq
  rw [memberText, render, toList_renderString]
  exact .cons (by decide) ((printable_escaped _).append (.cons (by decide) (.cons (by decide)
    (.cons (by decide) ((printable_escaped _).append (.cons (by decide) printable_nil))))))

end

end GuardedData.Json
