import GuardedData.Json.Reader
import GuardedData.Proofs.Json.Documents
import GuardedData.Proofs.Json.Numbers

/-!
# What is read

A document that was read nests no deeper than the reader allows, and its
numbers are finite (`value_fits`).
-/

namespace GuardedData.Json

section
variable {α : Type} {element : Reader α} {close : Char} {P : α → Prop}

theorem elements_forall (h : ∀ {cs rest a}, element cs = some (a, rest) → P a) {bound : Nat}
    {cs rest : List Char} {as : List α}
    (he : elements element close bound cs = some (as, rest)) : ∀ a ∈ as, P a := by
  induction bound generalizing cs as with
  | zero => cases he
  | succ bound ih =>
    rw [elements] at he
    split at he
    · cases he
    · next a rest' ha =>
      have hp : P a := h ha
      split at he
      · obtain ⟨⟨as', rest''⟩, hs, e⟩ := Option.map_eq_some_iff.mp he
        obtain ⟨rfl, rfl⟩ := Prod.mk.inj e
        exact List.forall_mem_cons.mpr ⟨hp, ih hs⟩
      · split at he
        · obtain ⟨rfl, -⟩ := Prod.mk.inj (Option.some.inj he)
          exact List.forall_mem_singleton.mpr hp
        · cases he
      · cases he

theorem separated_forall (h : ∀ {cs rest a}, element cs = some (a, rest) → P a)
    {cs rest : List Char} {as : List α} (he : separated element close cs = some (as, rest)) :
    ∀ a ∈ as, P a := by
  unfold separated at he
  split at he
  · cases he
  · split at he
    · obtain ⟨rfl, -⟩ := Prod.mk.inj (Option.some.inj he)
      exact List.forall_mem_nil P
    · exact elements_forall h he

theorem member_value {read : Reader α} {cs rest : List Char} {p : String × α}
    (h : member read cs = some (p, rest)) : ∃ cs', read cs' = some (p.2, rest) := by
  obtain ⟨_, _, h⟩ := Option.bind_eq_some_iff.mp h
  obtain ⟨cs', _, h⟩ := Option.bind_eq_some_iff.mp h
  obtain ⟨_, hv, h⟩ := Option.bind_eq_some_iff.mp h
  obtain ⟨rfl, rfl⟩ := Prod.mk.inj (Option.some.inj h)
  exact ⟨cs', hv⟩

end

theorem scalar_fits {cs rest : List Char} {j : Json} (h : scalar cs = some (j, rest)) (d : Nat) :
    j.Fits Number.IsFinite d := by
  unfold scalar at h
  split at h
  · obtain ⟨rfl, -⟩ := Prod.mk.inj (Option.some.inj h)
    exact .null
  · obtain ⟨rfl, -⟩ := Prod.mk.inj (Option.some.inj h)
    exact .bool true
  · obtain ⟨rfl, -⟩ := Prod.mk.inj (Option.some.inj h)
    exact .bool false
  · obtain ⟨⟨s, _⟩, _, e⟩ := Option.map_eq_some_iff.mp h
    obtain ⟨rfl, -⟩ := Prod.mk.inj e
    exact .string s
  · obtain ⟨⟨n, _⟩, hn, e⟩ := Option.map_eq_some_iff.mp h
    obtain ⟨rfl, -⟩ := Prod.mk.inj e
    exact .number (Number.isFinite_of_read hn)

theorem value_fits {d : Nat} {cs rest : List Char} {j : Json} (h : value d cs = some (j, rest)) :
    j.Fits Number.IsFinite d := by
  induction d generalizing cs rest j with
  | zero => exact scalar_fits h 0
  | succ d ih =>
    rw [value] at h
    split at h
    · obtain ⟨⟨items, _⟩, hs, e⟩ := Option.map_eq_some_iff.mp h
      obtain ⟨rfl, -⟩ := Prod.mk.inj e
      exact .array (separated_forall ih hs)
    · obtain ⟨⟨members, _⟩, hs, e⟩ := Option.map_eq_some_iff.mp h
      obtain ⟨rfl, -⟩ := Prod.mk.inj e
      have hmember : ∀ {cs rest} {p : String × Json}, member (value d) cs = some (p, rest) →
          p.2.Fits Number.IsFinite d := fun hp =>
        have ⟨_, hv⟩ := member_value hp
        ih hv
      exact .object fun k j hm => separated_forall hmember hs (k, j) hm
    · exact scalar_fits h _

end GuardedData.Json
