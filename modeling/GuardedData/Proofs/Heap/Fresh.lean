import GuardedData.Proofs.Heap.Properties
import GuardedData.Proofs.Heap.Walk

/-!
# Building fresh trees

`g.Grows g'` says that a heap got new cells and kept those it had.
`Built g g' vs` says that the values were built meanwhile: they are trees apart
from each other, in cells that `g` did not have. There is one lemma for each way
to build a value out of values that were built before.
-/

namespace GuardedData.Heap

/-- The other heap has the cells of this one as they are, and maybe new ones. -/
structure Grows (g g' : Heap) : Prop where
  next : g.next ≤ g'.next
  cells : ∀ t : Handle, t.ref < g.next → g.SameCell g' t
  allocated : ∀ t, g.Allocated t → g'.Allocated t
  depth : g.depth ≤ g'.depth

/-- The values are trees apart from each other, built while the heap grew. -/
structure Built (g g' : Heap) (vs : List Value) : Prop where
  grows : g.Grows g'
  apart : ∃ l, g'.WalkAll vs l ∧ l.Nodup ∧
    ∀ t ∈ l, g.next ≤ t.ref ∧ t.ref < g'.next ∧ g'.Allocated t

section
variable {g g₁ g' : Heap} {v : Value} {vs : List Value} {t : Handle} {n : Nat}

/-! ## Growing -/

theorem Grows.refl (g : Heap) : g.Grows g :=
  ⟨Nat.le_refl _, fun t _ => .refl g t, fun _ h => h, Nat.le_refl _⟩

theorem Grows.trans (h1 : g.Grows g₁) (h2 : g₁.Grows g') : g.Grows g' where
  next := Nat.le_trans h1.next h2.next
  cells t ht := (h1.cells t ht).trans (h2.cells t (Nat.lt_of_lt_of_le ht h1.next))
  allocated t ht := h2.allocated t (h1.allocated t ht)
  depth := Nat.le_trans h1.depth h2.depth

theorem grows_allocObject (g : Heap) (p : Properties) : g.Grows (g.allocObject p).2 where
  next := Nat.le_succ _
  cells t ht := by
    cases t with
    | object r => exact object_setObject_ne g (Nat.ne_of_gt ht) p
    | array r => rfl
  allocated t ht := by
    cases t with
    | object r => exact Std.ExtTreeMap.mem_insert.mpr (.inr ht)
    | array r => exact ht
  depth := Nat.add_le_add_right Std.ExtTreeMap.size_le_size_insert _

theorem grows_allocArray (g : Heap) (items : List Value) : g.Grows (g.allocArray items).2 where
  next := Nat.le_succ _
  cells t ht := by
    cases t with
    | object r => rfl
    | array r => exact array_setArray_ne g (Nat.ne_of_gt ht) items
  allocated t ht := by
    cases t with
    | object r => exact ht
    | array r => exact Std.ExtTreeMap.mem_insert.mpr (.inr ht)
  depth := Nat.add_le_add_left Std.ExtTreeMap.size_le_size_insert _

theorem Grows.object_allocObject {p : Properties} (hg : (g.allocObject p).2.Grows g') :
    g'.object g.next = p :=
  Eq.trans (hg.cells (.object g.next) (Nat.lt_succ_self _)) (object_setObject_self g g.next p)

theorem Grows.array_allocArray (hg : (g.allocArray vs).2.Grows g') : g'.array g.next = vs :=
  Eq.trans (hg.cells (.array g.next) (Nat.lt_succ_self _)) (array_setArray_self g g.next vs)

/-! ## Building -/

theorem built_nil (g : Heap) : Built g g [] :=
  ⟨.refl g, [], .nil, List.nodup_nil, fun _ ht => absurd ht List.not_mem_nil⟩

/-- Values built one after the other are apart. -/
theorem Built.cons (hv : Built g g₁ [v]) (hvs : Built g₁ g' vs) : Built g g' (v :: vs) := by
  obtain ⟨grows, l, hl, hnd, hin⟩ := hv
  obtain ⟨grows', l', hl', hnd', hin'⟩ := hvs
  refine ⟨grows.trans grows', l ++ l', ?_, ?_, ?_⟩
  · cases hl with
    | cons hv hnil =>
      cases hnil with
      | nil =>
        rw [List.append_nil] at hin ⊢
        exact .cons (hv.congr fun t ht => grows'.cells t (hin t ht).2.1) hl'
  · refine List.nodup_append.mpr ⟨hnd, hnd', fun t ht u hu e => ?_⟩
    subst e
    exact Nat.not_le_of_lt (hin t ht).2.1 (hin' t hu).1
  · intro t ht
    rcases List.mem_append.mp ht with ht | ht
    · obtain ⟨hge, hlt, ha⟩ := hin t ht
      exact ⟨hge, Nat.lt_of_lt_of_le hlt grows'.next, grows'.allocated t ha⟩
    · obtain ⟨hge, hlt, ha⟩ := hin' t ht
      exact ⟨Nat.le_trans grows.next hge, hlt, ha⟩

/-- What is no handle is built when what it holds is. -/
theorem Built.inline (hb : Built g g' v.parts) (hv : v.handle? = none) : Built g g' [v] := by
  obtain ⟨grows, l, hl, hnd, hin⟩ := hb
  have hc : g'.contents v = v.parts := by cases v <;> first | rfl | cases hv
  have hw : g'.Walk v (v.handle?.toList ++ l) := .through (hc ▸ hl)
  rw [hv] at hw
  exact ⟨grows, l ++ [], .cons hw .nil, by rwa [List.append_nil],
    fun t ht => hin t (List.append_nil l ▸ ht)⟩

theorem built_scalar (g : Heap) (hv : v.handle? = none) (hp : v.parts = []) : Built g g [v] :=
  .inline (hp ▸ built_nil g) hv

/-- A new cell is apart from what was built before it, and holds it. -/
theorem Built.cell (hb : Built g g₁ vs) (hg : g₁.Grows g') (ht : t.ref = g₁.next)
    (hlt : t.ref < g'.next) (ha : g'.Allocated t) (hc : vs.Perm (g'.contents t.toValue)) :
    Built g g' [t.toValue] := by
  obtain ⟨grows, l, hl, hnd, hin⟩ := hb
  have hkept : g'.WalkAll vs l := hl.congr fun u hu => hg.cells u (hin u hu).2.1
  obtain ⟨l', hl', hperm⟩ := hkept.perm hc
  have hin' : ∀ u ∈ l', g.next ≤ u.ref ∧ u.ref < g₁.next ∧ g₁.Allocated u :=
    fun u hu => hin u (hperm.mem_iff.mpr hu)
  have hw : g'.Walk t.toValue (t :: l') := by
    have hw := Walk.through hl'
    rwa [Handle.handle?_toValue] at hw
  refine ⟨grows.trans hg, t :: l' ++ [], .cons hw .nil, ?_, ?_⟩ <;> rw [List.append_nil]
  · refine List.nodup_cons.mpr ⟨fun hm => ?_, hperm.nodup_iff.mp hnd⟩
    exact Nat.ne_of_lt (hin' t hm).2.1 ht
  · intro u hu
    rcases List.mem_cons.mp hu with rfl | hu
    · exact ⟨ht ▸ grows.next, hlt, ha⟩
    · obtain ⟨hge, hlt, ha⟩ := hin' u hu
      exact ⟨hge, Nat.lt_of_lt_of_le hlt hg.next, hg.allocated u ha⟩

theorem Built.array (hb : Built g g₁ vs) :
    Built g (g₁.allocArray vs).2 [(g₁.allocArray vs).1] := by
  refine hb.cell (t := .array g₁.next) (grows_allocArray g₁ vs) rfl (Nat.lt_succ_self _)
    (Std.ExtTreeMap.mem_insert.mpr (.inl Std.ReflCmp.compare_self)) ?_
  exact .of_eq (Grows.refl (g₁.allocArray vs).2).array_allocArray.symm

theorem Built.object {pairs : Keyed Value} (hb : Built g g₁ (pairs.map Prod.snd))
    (hd : Keyed.Distinct pairs) : Built g (g₁.allocFields pairs).2 [(g₁.allocFields pairs).1] := by
  refine hb.cell (t := .object g₁.next) (grows_allocObject g₁ _) rfl (Nat.lt_succ_self _)
    (Std.ExtTreeMap.mem_insert.mpr (.inl Std.ReflCmp.compare_self)) ?_
  show (pairs.map Prod.snd).Perm
    (((g₁.allocObject (Properties.ofPairs pairs)).2.object g₁.next).toList.map Prod.snd)
  rw [(Grows.refl (g₁.allocObject _).2).object_allocObject]
  exact ((Properties.toList_ofPairs hd).map _).symm

/-! ## What was built -/

theorem Built.reaches (hb : Built g g' vs) (hv : v ∈ vs) (hr : g'.Reaches v t) :
    g.next ≤ t.ref ∧ t.ref < g'.next := by
  obtain ⟨_, l, hl, _, hin⟩ := hb
  obtain ⟨l', hw, hsub⟩ := hl.of_mem hv
  obtain ⟨p, hp⟩ := hr
  obtain ⟨hge, hlt, _⟩ := hin t (hsub.subset (hw.of_follow hp).2)
  exact ⟨hge, hlt⟩

theorem Built.backs (hb : Built g g' vs) (hv : v ∈ vs) : g'.Backs v := by
  obtain ⟨_, l, hl, _, hin⟩ := hb
  obtain ⟨l', hw, hsub⟩ := hl.of_mem hv
  rintro t ⟨p, hp⟩
  obtain ⟨_, hlt, ha⟩ := hin t (hsub.subset (hw.of_follow hp).2)
  exact ⟨ha, hlt⟩

theorem Built.tree (hb : Built g g' vs) (hv : v ∈ vs) : g'.Tree v := by
  obtain ⟨_, l, hl, hnd, _⟩ := hb
  obtain ⟨l', hw, hsub⟩ := hl.of_mem hv
  exact ⟨l', hw, hnd.sublist hsub⟩

theorem Built.acyclic (hb : Built g g' vs) (hv : v ∈ vs) : g'.Acyclic v :=
  (hb.tree hv).acyclic

/-- What was built is no deeper than there are cells. -/
theorem Built.shallow (hb : Built g g' vs) (hv : v ∈ vs) : g'.Shallow g'.depth v :=
  (hb.acyclic hv).shallow (hb.backs hv)

end

end GuardedData.Heap
