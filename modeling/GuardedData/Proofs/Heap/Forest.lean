import GuardedData.Proofs.Heap.Graph

/-!
# Trees and forests

The graph of a value is a tree when no two slots in it hold one handle and no
handle lies inside itself. `Forest h D G` says this of a part `G` of a heap: it
has the handle `D`, which nothing in it holds, and with a handle what that
holds. A write of a fresh tree to a slot of a forest leaves a forest
(`Forest.setSlot`).
-/

namespace GuardedData.Heap

/-- No two slots in the graph of the value hold one handle, and none lies inside itself. -/
structure IsTree (h : Heap) (v : Value) : Prop where
  unshared : ∀ {a b : Handle} {st st' : PathStep} {t : Handle}, h.Reaches v a → h.Reaches v b →
    h.child? a st = some t.toValue → h.child? b st' = some t.toValue → a = b ∧ st = st'
  acyclic : ∀ {t : Handle} {p : Path}, h.Reaches v t → h.follow t.toValue p = some t.toValue →
    p = []

/-- No two slots in `G` hold one handle, and none holds `D`. -/
structure Forest (h : Heap) (D : Handle) (G : Handle → Prop) : Prop where
  root : G D
  closed : ∀ {a : Handle} {st : PathStep} {t : Handle}, G a → h.child? a st = some t.toValue → G t
  unshared : ∀ {a b : Handle} {st st' : PathStep} {t : Handle}, G a → G b →
    h.child? a st = some t.toValue → h.child? b st' = some t.toValue → a = b ∧ st = st'
  root_free : ∀ {a : Handle} {st : PathStep}, G a → h.child? a st ≠ some D.toValue

theorem isTree_of_scalar {h : Heap} {v : Value} (hv : v.handle? = none) : h.IsTree v where
  unshared ha := absurd ha (not_reaches_of_scalar hv)
  acyclic ht := absurd ht (not_reaches_of_scalar hv)

theorem isTree_of_empty {h : Heap} {t : Handle} (he : ∀ st, h.child? t st = none) :
    h.IsTree t.toValue where
  unshared ha _ hc _ := by
    rw [eq_of_reaches_of_empty he ha, he] at hc
    cases hc
  acyclic := by
    intro u p hu hp
    rw [eq_of_reaches_of_empty he hu] at hp
    cases p with
    | nil => rfl
    | cons st p => simp [follow_cons, he] at hp

theorem IsTree.forest {h : Heap} {D : Handle} (ht : h.IsTree D.toValue) :
    h.Forest D (h.Reaches D.toValue) where
  root := .refl h D
  closed ha hc := ha.child hc
  unshared := ht.unshared
  root_free := by
    rintro a st ⟨p, hp⟩ hc
    simpa using ht.acyclic (.refl h D) (follow_snoc hp hc)

section
variable {h h' : Heap} {D t : Handle} {G G' : Handle → Prop} {v : Value} {p q : Path}

/-- A part of a forest whose cells did not change is a forest. -/
theorem Forest.congr (F : h.Forest D G) (hG : ∀ t, G' t → G t)
    (hs : ∀ t, G t → h.SameCell h' t) (root : G' D)
    (closed : ∀ {a st t}, G' a → h'.child? a st = some t.toValue → G' t) : h'.Forest D G' where
  root := root
  closed := closed
  unshared ha hb hc hc' := by
    rw [(hs _ (hG _ ha)).child?] at hc
    rw [(hs _ (hG _ hb)).child?] at hc'
    exact F.unshared (hG _ ha) (hG _ hb) hc hc'
  root_free ha hc := by
    rw [(hs _ (hG _ ha)).child?] at hc
    exact F.root_free (hG _ ha) hc

/-! ## Writing a fresh tree -/

section
variable {T : Handle} {key : Key} {st : PathStep} {x : Value}

/-- The graph of a fresh value is not touched by the write. -/
theorem sameCell_of_fresh (hT : G T) (fresh : ∀ u, h.Reaches x u → ¬ G u) :
    ∀ u, h.Reaches x u → h.SameCell (h.setSlot T key x) u := by
  intro u hu
  refine sameCell_setSlot ?_ x
  rintro rfl
  exact fresh T hu hT

/-- A path in the forest after the write runs as before, or through the value written. -/
theorem Forest.follow_setSlot (F : h.Forest D G) (hT : G T) (hw : h.Writable T key st)
    (fresh : ∀ u, h.Reaches x u → ¬ G u) {a u : Handle} (ha : G a)
    (hp : (h.setSlot T key x).follow a.toValue p = some u.toValue) :
    (h.follow a.toValue p = some u.toValue ∧ G u) ∨ h.Reaches x u := by
  induction p generalizing a with
  | nil =>
    obtain rfl := Handle.toValue_inj.mp (Option.some.inj hp)
    exact .inl ⟨rfl, ha⟩
  | cons st' p ih =>
    rw [follow_cons, Option.bind_eq_some_iff] at hp
    obtain ⟨w, hc, hp⟩ := hp
    rcases child?_setSlot_cases hw hc with ⟨_, _, rfl⟩ | ⟨_, hc⟩
    · exact .inr ((reaches_congr (sameCell_of_fresh hT fresh)).mp ⟨p, hp⟩)
    · cases hh : w.handle? with
      | none => exact absurd ⟨p, hp⟩ (not_reaches_of_scalar hh)
      | some b =>
        obtain rfl := Value.handle?_eq_some_iff.mp hh
        rcases ih (F.closed ha hc) hp with ⟨hf, hu⟩ | hu
        · exact .inl ⟨by rw [follow_cons, hc]; exact hf, hu⟩
        · exact .inr hu

/-- After a fresh tree is written to a slot, no two slots hold one handle still. -/
theorem Forest.setSlot (F : h.Forest D G) (hw : h.Writable T key st)
    (hx : h.IsTree x) (fresh : ∀ u, h.Reaches x u → ¬ G u)
    (hG : ∀ u, G' u → G u ∨ h.Reaches x u) (root : G' D)
    (closed : ∀ {a st t}, G' a → (h.setSlot T key x).child? a st = some t.toValue → G' t) :
    (h.setSlot T key x).Forest D G' := by
  -- A child in the slot or in the fresh tree is in the fresh tree, any other in the old forest.
  have old : ∀ {a st' t}, G' a → h.child? a st' = some t.toValue →
      (G a ∧ G t) ∨ (h.Reaches x a ∧ h.Reaches x t) := by
    intro a st' t ha hc
    rcases hG a ha with ha | ha
    · exact .inl ⟨ha, F.closed ha hc⟩
    · exact .inr ⟨ha, ha.child hc⟩
  refine ⟨root, closed, ?_, ?_⟩
  · intro a b s1 s2 t ha hb h1 h2
    rcases child?_setSlot_cases hw h1 with ⟨ea, es, e1⟩ | ⟨_, c1⟩ <;>
      rcases child?_setSlot_cases hw h2 with ⟨eb, es', e2⟩ | ⟨_, c2⟩
    · exact ⟨ea.trans eb.symm, es.trans es'.symm⟩
    · subst e1
      rcases old hb c2 with ⟨_, ht⟩ | ⟨⟨p, hp⟩, _⟩
      · exact absurd ht (fresh t (.refl h t))
      · simpa using hx.acyclic (.refl h t) (follow_snoc hp c2)
    · subst e2
      rcases old ha c1 with ⟨_, ht⟩ | ⟨⟨p, hp⟩, _⟩
      · exact absurd ht (fresh t (.refl h t))
      · simpa using hx.acyclic (.refl h t) (follow_snoc hp c1)
    · rcases old ha c1 with ⟨ga, gt⟩ | ⟨ra, rt⟩ <;> rcases old hb c2 with ⟨gb, gt'⟩ | ⟨rb, rt'⟩
      · exact F.unshared ga gb c1 c2
      · exact absurd gt (fresh t rt')
      · exact absurd gt' (fresh t rt)
      · exact hx.unshared ra rb c1 c2
  · intro a s1 ha h1
    rcases child?_setSlot_cases hw h1 with ⟨_, _, e⟩ | ⟨_, c1⟩
    · subst e
      exact fresh D (.refl h D) F.root
    · rcases old ha c1 with ⟨ga, _⟩ | ⟨_, rt⟩
      · exact F.root_free ga c1
      · exact fresh D rt F.root

end

end

end GuardedData.Heap
