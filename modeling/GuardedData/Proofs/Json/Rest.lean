import GuardedData.Json.Reader
import GuardedData.Proofs.Json.Numbers

/-!
# What a reader leaves

A reader leaves an end of its text (`value_suffix`). Each element of a list
takes at least its comma, so that the length of the text is enough as a bound
on their number (`elements_bound`).
-/

namespace GuardedData

section
variable {cs rest : List Char}

theorem suffix_of_map {α β : Type} {x : Option (α × List Char)} {f : α → β} {b : β}
    (hx : ∀ {a r}, x = some (a, r) → r <:+ cs)
    (h : (x.map fun (a, r) => (f a, r)) = some (b, rest)) : rest <:+ cs := by
  obtain ⟨⟨a, r⟩, ha, e⟩ := Option.map_eq_some_iff.mp h
  obtain ⟨-, rfl⟩ := Prod.mk.inj e
  exact hx ha

namespace Number

theorem exponentSign_suffix (cs : List Char) : (exponentSign cs).2 <:+ cs := by
  unfold exponentSign
  split
  · exact List.suffix_cons _ _
  · exact List.suffix_cons _ _
  · exact List.suffix_rfl

theorem readExponent_suffix {negative : Bool} {m : Nat} {e : Int} {n : Number}
    (h : readExponent negative m e cs = some (n, rest)) : rest <:+ cs := by
  rw [readExponent_eq] at h
  simp only [Option.ite_none_left_eq_some, Option.map_eq_some_iff] at h
  obtain ⟨-, _, -, e⟩ := h
  obtain ⟨-, rfl⟩ := Prod.mk.inj e
  exact (List.dropWhile_suffix _).trans (exponentSign_suffix cs)

theorem readTail_suffix {negative : Bool} {m k : Nat} {n : Number}
    (h : readTail negative m k cs = some (n, rest)) : rest <:+ cs := by
  have parts : ∀ {x : Option Number} {r : List Char}, r <:+ cs →
      x.map (fun n => (n, r)) = some (n, rest) → rest <:+ cs := by
    intro x r hr h
    obtain ⟨_, -, e⟩ := Option.map_eq_some_iff.mp h
    obtain ⟨-, rfl⟩ := Prod.mk.inj e
    exact hr
  unfold readTail at h
  split at h
  · next cs =>
    have hrest : cs.dropWhile Char.isDigit <:+ '.' :: cs :=
      (List.dropWhile_suffix _).trans (List.suffix_cons _ _)
    simp only at h
    split at h
    · cases h
    · split at h
      · next e =>
        rw [e] at hrest
        split at h
        · exact (readExponent_suffix h).trans ((List.suffix_cons _ _).trans hrest)
        · exact parts (e ▸ hrest) h
      · exact parts (List.nil_suffix) h
  · split at h
    · exact (readExponent_suffix h).trans (List.suffix_cons _ _)
    · split at h
      · obtain ⟨-, rfl⟩ := Prod.mk.inj (Option.some.inj h)
        exact List.suffix_rfl
      · exact parts List.suffix_rfl h
  · split at h
    · obtain ⟨-, rfl⟩ := Prod.mk.inj (Option.some.inj h)
      exact List.suffix_rfl
    · exact parts List.suffix_rfl h

theorem readUnsigned_suffix {negative : Bool} {n : Number}
    (h : readUnsigned negative cs = some (n, rest)) : rest <:+ cs := by
  unfold readUnsigned at h
  simp only at h
  split at h
  · cases h
  · split at h
    · cases h
    · exact (readTail_suffix h).trans (List.dropWhile_suffix _)

theorem read_suffix {n : Number} (h : read cs = some (n, rest)) : rest <:+ cs := by
  unfold read at h
  split at h
  · exact (readUnsigned_suffix h).trans (List.suffix_cons _ _)
  · exact readUnsigned_suffix h

end Number

namespace Json

theorem skipSpace_suffix (cs : List Char) : skipSpace cs <:+ cs := List.dropWhile_suffix _

theorem stringBody_suffix {s : List Char} (h : stringBody cs = some (s, rest)) : rest <:+ cs := by
  fun_induction stringBody cs generalizing s rest with
  | case1 => cases h
  | case2 =>
    obtain ⟨-, rfl⟩ := Prod.mk.inj (Option.some.inj h)
    exact List.suffix_cons _ _
  | case3 => cases h
  | case4 => cases h
  | case5 => cases h
  | case6 a b c d n _ _ _ e f g h' rest' _ _ _ ih =>
    exact (suffix_of_map ih h).trans
      (List.suffix_append ['\\', 'u', a, b, c, d, '\\', 'u', e, f, g, h'] rest')
  | case7 => cases h
  | case8 => cases h
  | case9 a b c d rest' _ _ _ _ ih =>
    exact (suffix_of_map ih h).trans (List.suffix_append ['\\', 'u', a, b, c, d] rest')
  | case10 => cases h
  | case11 e rest' _ c _ ih =>
    exact (suffix_of_map ih h).trans (List.suffix_append ['\\', e] rest')
  | case12 => cases h
  | case13 c rest' _ _ _ _ ih => exact (suffix_of_map ih h).trans (List.suffix_cons _ _)

theorem readString_suffix {s : String} (h : readString cs = some (s, rest)) : rest <:+ cs :=
  suffix_of_map stringBody_suffix h

theorem scalar_suffix {j : Json} (h : scalar cs = some (j, rest)) : rest <:+ cs := by
  unfold scalar at h
  split at h
  · obtain ⟨-, rfl⟩ := Prod.mk.inj (Option.some.inj h)
    exact List.suffix_append ['n', 'u', 'l', 'l'] _
  · obtain ⟨-, rfl⟩ := Prod.mk.inj (Option.some.inj h)
    exact List.suffix_append ['t', 'r', 'u', 'e'] _
  · obtain ⟨-, rfl⟩ := Prod.mk.inj (Option.some.inj h)
    exact List.suffix_append ['f', 'a', 'l', 's', 'e'] _
  · exact (suffix_of_map readString_suffix h).trans (List.suffix_cons _ _)
  · exact suffix_of_map Number.read_suffix h

theorem memberName_suffix {name : String} (h : memberName cs = some (name, rest)) :
    rest <:+ cs := by
  unfold memberName at h
  split at h
  · next e =>
    exact (readString_suffix h).trans ((List.suffix_cons _ _).trans (e ▸ skipSpace_suffix cs))
  · cases h

theorem skipColon_suffix (h : skipColon cs = some rest) : rest <:+ cs := by
  unfold skipColon at h
  split at h
  · next e =>
    obtain rfl := Option.some.inj h
    exact (List.suffix_cons _ _).trans (e ▸ skipSpace_suffix cs)
  · cases h

/-! ## Lists -/

section
variable {α : Type} {element : Reader α} {close : Char}

/-- A list has a first element, and after it the next ones or the closing bracket. -/
theorem elements_cases {bound : Nat} {as : List α}
    (h : elements element close bound cs = some (as, rest)) :
    ∃ n a as' rest', bound = n + 1 ∧ element cs = some (a, rest') ∧ as = a :: as' ∧
      ((∃ rest'', skipSpace rest' = ',' :: rest'' ∧
          elements element close n rest'' = some (as', rest)) ∨
        (skipSpace rest' = close :: rest ∧ as' = [])) := by
  cases bound with
  | zero => cases h
  | succ n =>
    rw [elements] at h
    split at h
    · cases h
    · next a rest' ha =>
      refine ⟨n, a, ?_⟩
      split at h
      · next rest'' e =>
        obtain ⟨⟨as', rest''⟩, hs, he⟩ := Option.map_eq_some_iff.mp h
        obtain ⟨rfl, rfl⟩ := Prod.mk.inj he
        exact ⟨as', rest', rfl, ha, rfl, .inl ⟨_, e, hs⟩⟩
      · next c rest'' _ e =>
        split at h
        · next hc =>
          obtain ⟨rfl, rfl⟩ := Prod.mk.inj (Option.some.inj h)
          exact ⟨[], rest', rfl, ha, rfl, .inr ⟨hc ▸ e, rfl⟩⟩
        · cases h
      · cases h

/-- What the reader leaves is always an end of the text. -/
def LeavesSuffix (element : Reader α) : Prop :=
  ∀ ⦃cs a rest⦄, element cs = some (a, rest) → rest <:+ cs

theorem LeavesSuffix.elements (he : LeavesSuffix element) (bound : Nat) :
    LeavesSuffix (Json.elements element close bound) := by
  induction bound with
  | zero =>
    intro cs as rest h
    cases h
  | succ bound ih =>
    intro cs as rest h
    obtain ⟨n, a, as', r, hn, ha, -, hnext⟩ := elements_cases h
    obtain rfl := Nat.succ.inj hn
    have hr : skipSpace r <:+ cs := (skipSpace_suffix r).trans (he ha)
    rcases hnext with ⟨r', e, hs⟩ | ⟨e, -⟩
    · rw [e] at hr
      exact (ih hs).trans ((List.suffix_cons _ _).trans hr)
    · rw [e] at hr
      exact (List.suffix_cons _ _).trans hr

theorem LeavesSuffix.separated (he : LeavesSuffix element) :
    LeavesSuffix (Json.separated element close) := by
  intro cs as rest h
  have hcs := skipSpace_suffix cs
  unfold Json.separated at h
  split at h
  · cases h
  · next c r e =>
    rw [e] at hcs
    split at h
    · obtain ⟨-, rfl⟩ := Prod.mk.inj (Option.some.inj h)
      exact (List.suffix_cons _ _).trans hcs
    · exact (he.elements _ h).trans hcs

theorem LeavesSuffix.member (he : LeavesSuffix element) : LeavesSuffix (Json.member element) := by
  intro cs p rest h
  obtain ⟨⟨name, r₁⟩, hname, h⟩ := Option.bind_eq_some_iff.mp h
  obtain ⟨r₂, hcolon, h⟩ := Option.bind_eq_some_iff.mp h
  obtain ⟨⟨a, r₃⟩, ha, h⟩ := Option.bind_eq_some_iff.mp h
  obtain ⟨-, rfl⟩ := Prod.mk.inj (Option.some.inj h)
  exact (he ha).trans ((skipColon_suffix hcolon).trans (memberName_suffix hname))

theorem elements_mono {bound bound' : Nat} (hb : bound ≤ bound') {cs rest : List Char}
    {as : List α} (h : elements element close bound cs = some (as, rest)) :
    elements element close bound' cs = some (as, rest) := by
  induction bound generalizing bound' cs rest as with
  | zero => cases h
  | succ bound ih =>
    obtain ⟨bound', rfl⟩ : ∃ n, bound' = n + 1 := ⟨bound' - 1, by omega⟩
    rw [elements] at h ⊢
    cases ha : element cs with
    | none => rw [ha] at h; cases h
    | some p =>
      obtain ⟨a, r⟩ := p
      rw [ha] at h
      dsimp only at h ⊢
      split at h
      · obtain ⟨⟨as', r'⟩, hs, e⟩ := Option.map_eq_some_iff.mp h
        rw [ih (by omega) hs]
        exact congrArg some e
      · exact h
      · cases h

/-- The length of the text bounds the number of elements. -/
theorem elements_bound (he : LeavesSuffix element) {bound : Nat} {cs rest : List Char}
    {as : List α} (h : elements element close bound cs = some (as, rest)) :
    elements element close (cs.length + 1) cs = some (as, rest) := by
  induction bound generalizing cs rest as with
  | zero => cases h
  | succ bound ih =>
    rw [elements] at h ⊢
    cases ha : element cs with
    | none => rw [ha] at h; cases h
    | some p =>
      obtain ⟨a, r⟩ := p
      rw [ha] at h
      dsimp only at h ⊢
      have hr : (skipSpace r).length ≤ cs.length :=
        ((skipSpace_suffix r).trans (he ha)).length_le
      split at h
      · next r' e =>
        rw [e, List.length_cons] at hr
        obtain ⟨⟨as', r''⟩, hs, e⟩ := Option.map_eq_some_iff.mp h
        rw [elements_mono hr (ih hs)]
        exact congrArg some e
      · exact h
      · cases h

end

theorem value_suffix (d : Nat) : LeavesSuffix (value d) := by
  induction d with
  | zero =>
    intro cs j rest h
    exact (scalar_suffix h).trans (skipSpace_suffix cs)
  | succ d ih =>
    intro cs j rest h
    have hcs := skipSpace_suffix cs
    rw [value] at h
    split at h
    · next r e =>
      rw [e] at hcs
      exact (suffix_of_map (fun hs => ih.separated hs) h).trans ((List.suffix_cons _ _).trans hcs)
    · next r e =>
      rw [e] at hcs
      exact (suffix_of_map (fun hs => ih.member.separated hs) h).trans
        ((List.suffix_cons _ _).trans hcs)
    · exact (scalar_suffix h).trans hcs

end Json

end

end GuardedData
