import Mathlib.Data.List.Forall2
import Mathlib.Data.Option.Defs

/-!
# Related item by item

What follows for single items of two lists that are related one after the other,
and of two optional items. Lists are related if what is in the same place is
(`forall₂_iff_getElem?`); a relation of items that is symmetric or transitive
makes one of lists, and of optional items, that is. A partial function of the
items of a list relates them to what it gives (`exists_of_mem_mapM`).
-/

namespace GuardedData.Related

section
variable {α β γ δ : Type} {R S : α → β → Prop} {T : γ → δ → Prop} {xs : List α} {ys : List β}
  {y : β} {a : Option α} {b : Option β}

/-! ## Lists -/

theorem exists_of_mem (hr : List.Forall₂ R xs ys) (hy : y ∈ ys) : ∃ x ∈ xs, R x y := by
  induction hr with
  | nil => cases hy
  | cons hxy _ ih =>
    rcases List.mem_cons.mp hy with rfl | hy
    · exact ⟨_, List.mem_cons_self, hxy⟩
    · obtain ⟨x, hx, hxy⟩ := ih hy
      exact ⟨x, List.mem_cons_of_mem _ hx, hxy⟩

theorem rel_getElem? (hr : List.Forall₂ R xs ys) (i : Nat) : Option.Rel R xs[i]? ys[i]? := by
  induction hr generalizing i with
  | nil => exact .none
  | cons hxy _ ih =>
    cases i with
    | zero => exact .some hxy
    | succ i => exact ih i

theorem forall₂_iff_getElem? :
    List.Forall₂ R xs ys ↔ ∀ i : Nat, Option.Rel R xs[i]? ys[i]? := by
  refine ⟨rel_getElem?, fun h => ?_⟩
  induction xs generalizing ys with
  | nil =>
    cases ys with
    | nil => exact .nil
    | cons y ys => cases h 0
  | cons x xs ih =>
    cases ys with
    | nil => cases h 0
    | cons y ys =>
      refine .cons ?_ (ih fun i => h (i + 1))
      cases h 0 with
      | some hxy => exact hxy

theorem forall₂_imp (hr : List.Forall₂ R xs ys) (h : ∀ x ∈ xs, ∀ y ∈ ys, R x y → S x y) :
    List.Forall₂ S xs ys := by
  induction hr with
  | nil => exact .nil
  | cons hxy _ ih =>
    exact .cons (h _ List.mem_cons_self _ List.mem_cons_self hxy)
      (ih fun x hx y hy => h x (List.mem_cons_of_mem _ hx) y (List.mem_cons_of_mem _ hy))

theorem map_eq {f : α → γ} {e : β → γ} (hr : List.Forall₂ R xs ys)
    (h : ∀ x ∈ xs, ∀ y ∈ ys, R x y → e y = f x) : ys.map e = xs.map f := by
  rw [← List.forall₂_eq_eq_eq, List.forall₂_map_left_iff, List.forall₂_map_right_iff]
  exact (forall₂_imp hr h).flip

/-- Related items that are related the other way round just where the first one has a property. -/
theorem forall₂_iff_forall {T : β → α → Prop} {P : α → Prop} (hr : List.Forall₂ R xs ys)
    (h : ∀ x ∈ xs, ∀ y ∈ ys, R x y → (T y x ↔ P x)) :
    List.Forall₂ T ys xs ↔ ∀ x ∈ xs, P x := by
  induction hr with
  | nil => exact ⟨fun _ => nofun, fun _ => .nil⟩
  | cons hxy _ ih =>
    rw [List.forall₂_cons, List.forall_mem_cons,
      h _ List.mem_cons_self _ List.mem_cons_self hxy,
      ih fun x hx y hy => h x (List.mem_cons_of_mem _ hx) y (List.mem_cons_of_mem _ hy)]

/-- A comparison of lists that compares them item by item relates them so. -/
theorem iff_forall₂ {g : List α → List β → Bool} {e : α → β → Bool} (hnil : g [] [] = true)
    (hleft : ∀ x xs, g (x :: xs) [] = false) (hright : ∀ y ys, g [] (y :: ys) = false)
    (hcons : ∀ x xs y ys, g (x :: xs) (y :: ys) = (e x y && g xs ys)) :
    g xs ys = true ↔ List.Forall₂ (fun x y => e x y = true) xs ys := by
  induction xs generalizing ys with
  | nil =>
    cases ys with
    | nil => exact ⟨fun _ => .nil, fun _ => hnil⟩
    | cons y ys =>
      rw [hright]
      exact ⟨nofun, nofun⟩
  | cons x xs ih =>
    cases ys with
    | nil =>
      rw [hleft]
      exact ⟨nofun, nofun⟩
    | cons y ys => rw [hcons, Bool.and_eq_true, ih, List.forall₂_cons]

theorem beq_iff_forall₂ [BEq α] {xs ys : List α} :
    (xs == ys) = true ↔ List.Forall₂ (fun x y => (x == y) = true) xs ys :=
  iff_forall₂ rfl (fun _ _ => rfl) (fun _ _ => rfl) fun _ _ _ _ => rfl

theorem list_beq_self_iff [BEq α] {xs : List α} :
    (xs == xs) = true ↔ ∀ x ∈ xs, (x == x) = true :=
  beq_iff_forall₂.trans List.forall₂_same

theorem forall₂_symm {U : α → α → Prop} {xs ys : List α}
    (hU : ∀ x ∈ xs, ∀ y ∈ ys, U x y → U y x) (hr : List.Forall₂ U xs ys) :
    List.Forall₂ U ys xs :=
  (forall₂_imp hr hU).flip

theorem forall₂_trans {U : α → α → Prop} {xs ys zs : List α}
    (hU : ∀ x ∈ xs, ∀ y z, U x y → U y z → U x z) (hxy : List.Forall₂ U xs ys)
    (hyz : List.Forall₂ U ys zs) : List.Forall₂ U xs zs := by
  induction hxy generalizing zs with
  | nil => exact hyz
  | cons h _ ih =>
    cases hyz with
    | cons h' hyz =>
      exact .cons (hU _ List.mem_cons_self _ _ h h')
        (ih (fun x hx => hU x (List.mem_cons_of_mem _ hx)) hyz)

/-- Lists are compared by a partial equivalence if their items are. -/
instance partialEquivBEq_list [BEq α] [PartialEquivBEq α] : PartialEquivBEq (List α) where
  symm h := beq_iff_forall₂.mpr
    (forall₂_symm (fun _ _ _ _ => PartialEquivBEq.symm) (beq_iff_forall₂.mp h))
  trans h h' := beq_iff_forall₂.mpr (forall₂_trans (fun _ _ _ _ => PartialEquivBEq.trans)
    (beq_iff_forall₂.mp h) (beq_iff_forall₂.mp h'))

/-! ## Partial functions of the items -/

theorem exists_of_mem_mapM {g : α → Option β} (h : xs.mapM g = some ys) (hy : y ∈ ys) :
    ∃ x ∈ xs, g x = some y := by
  induction xs generalizing ys with
  | nil =>
    obtain rfl := Option.some.inj h
    cases hy
  | cons x xs ih =>
    rw [List.mapM_cons] at h
    obtain ⟨z, hz, h⟩ := Option.bind_eq_some_iff.mp h
    obtain ⟨zs, hzs, h⟩ := Option.bind_eq_some_iff.mp h
    obtain rfl := Option.some.inj h
    rcases List.mem_cons.mp hy with rfl | hy
    · exact ⟨x, List.mem_cons_self, hz⟩
    · obtain ⟨x', hx', e⟩ := ih hzs hy
      exact ⟨x', List.mem_cons_of_mem _ hx', e⟩

theorem mapM_around (g : α → Option β) (before after : List α) (x : α) :
    (before ++ x :: after).mapM g = (before.mapM g).bind fun front =>
      (g x).bind fun y => (after.mapM g).bind fun rest => some (front ++ y :: rest) := by
  rw [List.mapM_append, List.mapM_cons]
  cases before.mapM g with
  | none => rfl
  | some front =>
    cases g x with
    | none => rfl
    | some y => cases after.mapM g <;> rfl

/-! ## Optional items -/

theorem eq_none_iff (hr : Option.Rel R a b) : a = none ↔ b = none := by
  cases hr with
  | some _ => exact ⟨nofun, nofun⟩
  | none => exact ⟨fun _ => rfl, fun _ => rfl⟩

theorem exists_of_eq_some (hr : Option.Rel R a b) (hb : b = some y) : ∃ x, a = some x ∧ R x y := by
  subst hb
  cases hr with
  | some hxy => exact ⟨_, rfl, hxy⟩

theorem rel_imp (hr : Option.Rel R a b) (h : ∀ x y, a = some x → b = some y → R x y → S x y) :
    Option.Rel S a b := by
  cases hr with
  | some hxy => exact .some (h _ _ rfl rfl hxy)
  | none => exact .none

theorem eq_of_rel {a b : Option α} (hr : Option.Rel Eq a b) : a = b := by
  cases hr with
  | some hxy => rw [hxy]
  | none => rfl

theorem rel_refl {U : α → α → Prop} (hU : ∀ x, U x x) (a : Option α) : Option.Rel U a a := by
  cases a with
  | none => exact .none
  | some x => exact .some (hU x)

theorem rel_symm {U : α → α → Prop} (hU : ∀ {x y}, U x y → U y x) {a b : Option α}
    (hab : Option.Rel U a b) : Option.Rel U b a := by
  cases hab with
  | none => exact .none
  | some hxy => exact .some (hU hxy)

theorem rel_trans {U : α → α → Prop} (hU : ∀ {x y z}, U x y → U y z → U x z) {a b c : Option α}
    (hab : Option.Rel U a b) (hbc : Option.Rel U b c) : Option.Rel U a c := by
  cases hab with
  | none => exact hbc
  | some hxy =>
    cases hbc with
    | some hyz => exact .some (hU hxy hyz)

theorem rel_map {f : α → γ} {g : β → δ} (hr : Option.Rel R a b)
    (h : ∀ x y, R x y → T (f x) (g y)) : Option.Rel T (a.map f) (b.map g) := by
  cases hr with
  | some hxy => exact .some (h _ _ hxy)
  | none => exact .none

theorem rel_bind {f : α → Option γ} {g : β → Option δ} (hr : Option.Rel R a b)
    (h : ∀ x y, R x y → Option.Rel T (f x) (g y)) : Option.Rel T (a.bind f) (b.bind g) := by
  cases hr with
  | some hxy => exact h _ _ hxy
  | none => exact .none

theorem rel_getD {x : α} (hr : Option.Rel R a b) (hxy : R x y) : R (a.getD x) (b.getD y) := by
  cases hr with
  | some h => exact h
  | none => exact hxy

/-- What is tried in the middle may be tried first. -/
theorem bind_around (x : Option α) (y : Option β) (f : β → Option γ) (g : α → γ → Option δ) :
    (x.bind fun a => (y.bind f).bind (g a)) =
      y.bind fun b => x.bind fun a => (f b).bind (g a) := by
  cases y with
  | none => cases x <;> rfl
  | some b => rfl

end

end GuardedData.Related
