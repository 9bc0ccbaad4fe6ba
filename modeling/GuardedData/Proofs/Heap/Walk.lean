import Mathlib.Data.List.Perm.Subperm
import GuardedData.Proofs.Heap.Graph

/-!
# Walking through a value

`h.contents v` is what a value holds directly: the values of fields and
elements, and what is in a map or set. `h.Walk v l` walks through everything
that a value holds and meets the handles `l` on the way; the walk ends only if
no handle lies inside itself. A value is a `Tree` if no handle is met twice.
`h.Shallow n v` says that no path through the slots of a value meets more than
`n` handles. Nothing that is `Acyclic` and lies in cells that were given out is
deeper than there are cells (`Acyclic.shallow`).
-/

namespace GuardedData

/-- What a map or a set holds. -/
def Value.parts : Value → List Value
  | .map entries => entries.flatMap fun e => [e.1, e.2]
  | .set items => items
  | _ => []

/-- The handle has a cell of its own. -/
def Heap.Allocated (h : Heap) : Handle → Prop
  | .object r => r ∈ h.objects
  | .array r => r ∈ h.arrays

instance (h : Heap) (t : Handle) : Decidable (h.Allocated t) :=
  match t with
  | .object r => inferInstanceAs (Decidable (r ∈ h.objects))
  | .array r => inferInstanceAs (Decidable (r ∈ h.arrays))

namespace Heap

/-- What a value holds directly. -/
def contents (h : Heap) : Value → List Value
  | .object r => (h.object r).toList.map Prod.snd
  | .array r => h.array r
  | v => v.parts

mutual

/-- The walk through a value meets the handles, in order. -/
inductive Walk (h : Heap) : Value → List Handle → Prop where
  | through {v : Value} {l : List Handle} : WalkAll h (h.contents v) l →
      Walk h v (v.handle?.toList ++ l)

/-- The walk through values one after the other. -/
inductive WalkAll (h : Heap) : List Value → List Handle → Prop where
  | nil : WalkAll h [] []
  | cons {v : Value} {vs : List Value} {l ls : List Handle} : Walk h v l → WalkAll h vs ls →
      WalkAll h (v :: vs) (l ++ ls)

end

/-- The walk through the value ends and meets no handle twice. -/
def Tree (h : Heap) (v : Value) : Prop := ∃ l, h.Walk v l ∧ l.Nodup

/-- No path through the slots of the value meets more than `n` handles. -/
def Shallow (h : Heap) (n : Nat) (v : Value) : Prop :=
  ∀ (p : Path) (t : Handle), h.follow v p = some t.toValue → p.length < n

/-- Nothing in the graph of the value holds itself. -/
def Acyclic (h : Heap) (v : Value) : Prop :=
  ∀ (t : Handle) (p : Path), h.Reaches v t → h.follow t.toValue p = some t.toValue → p = []

/-- What is in the graph of the value has cells, under numbers that were given out. -/
def Backs (h : Heap) (v : Value) : Prop := ∀ t, h.Reaches v t → h.Allocated t ∧ t.ref < h.next

section
variable {h h' : Heap} {v w x : Value} {vs : List Value} {t u : Handle} {st : PathStep} {p : Path}
  {l : List Handle} {n m : Nat}

theorem mem_contents_of_child? (hc : h.child? t st = some w) : w ∈ h.contents t.toValue := by
  cases t with
  | object r =>
    cases st with
    | field k =>
      have hk : (k, w) ∈ (h.object r).toList :=
        Std.ExtTreeMap.mem_toList_iff_getElem?_eq_some.mpr hc
      exact List.mem_map.mpr ⟨_, hk, rfl⟩
    | index i => cases hc
  | array r =>
    cases st with
    | field k => cases hc
    | index i => exact List.mem_of_getElem? hc

theorem exists_child?_of_mem_contents (hx : x ∈ h.contents t.toValue) :
    ∃ st, h.child? t st = some x := by
  cases t with
  | object r =>
    obtain ⟨p, hp, rfl⟩ := List.mem_map.mp hx
    exact ⟨.field p.1, Std.ExtTreeMap.mem_toList_iff_getElem?_eq_some.mp hp⟩
  | array r =>
    obtain ⟨i, hi⟩ := List.mem_iff_getElem?.mp hx
    exact ⟨.index i, hi⟩

theorem contents_congr (hs : ∀ t, v.handle? = some t → h.SameCell h' t) :
    h'.contents v = h.contents v := by
  cases v with
  | object r =>
    have same : h'.object r = h.object r := hs _ rfl
    rw [contents, contents, same]
  | array r =>
    have same : h'.array r = h.array r := hs _ rfl
    rw [contents, contents, same]
  | _ => rfl

/-! ## What a walk meets -/

theorem WalkAll.of_mem (hw : h.WalkAll vs l) (hx : x ∈ vs) :
    ∃ l', h.Walk x l' ∧ l'.Sublist l := by
  induction vs generalizing l with
  | nil => cases hx
  | cons v vs ih =>
    cases hw with
    | cons hv hvs =>
      rcases List.mem_cons.mp hx with rfl | hx
      · exact ⟨_, hv, List.sublist_append_left _ _⟩
      · obtain ⟨l', hl, hsub⟩ := ih hvs hx
        exact ⟨l', hl, hsub.trans (List.sublist_append_right _ _)⟩

/-- The walk through a handle meets it first. -/
theorem Walk.handle_inv (hw : h.Walk t.toValue l) :
    ∃ l', l = t :: l' ∧ h.WalkAll (h.contents t.toValue) l' := by
  generalize e : t.toValue = v at hw
  cases hw with
  | through hl =>
    subst e
    exact ⟨_, by rw [Handle.handle?_toValue]; rfl, hl⟩

/-- After a handle the walk meets what its children meet. -/
theorem Walk.child (hw : h.Walk t.toValue l) (hc : h.child? t st = some w) :
    ∃ l', h.Walk w l' ∧ (t :: l').Sublist l := by
  obtain ⟨l₀, rfl, hl⟩ := hw.handle_inv
  obtain ⟨l', hw', hsub⟩ := hl.of_mem (mem_contents_of_child? hc)
  exact ⟨l', hw', hsub.cons_cons t⟩

/-- A path through slots is part of the walk. -/
theorem Walk.of_follow (hw : h.Walk v l) (hp : h.follow v p = some t.toValue) :
    p.length < l.length ∧ t ∈ l := by
  induction p generalizing v l with
  | nil =>
    obtain rfl := Option.some.inj hp
    obtain ⟨l', rfl, -⟩ := hw.handle_inv
    exact ⟨Nat.succ_pos _, List.mem_cons_self⟩
  | cons st p ih =>
    obtain ⟨u, x, rfl, hc, hp⟩ := follow_cons_inv hp
    obtain ⟨l', hx, hsub⟩ := hw.child hc
    obtain ⟨hlt, hm⟩ := ih hx hp
    exact ⟨Nat.lt_of_lt_of_le (Nat.succ_lt_succ hlt) hsub.length_le,
      hsub.subset (List.mem_cons_of_mem u hm)⟩

mutual

/-- The walk depends on the cells that it meets only. -/
theorem Walk.congr : ∀ {v : Value} {l : List Handle}, h.Walk v l →
    (∀ t ∈ l, h.SameCell h' t) → h'.Walk v l
  | v, _, .through hl, hs => by
    have same : h'.contents v = h.contents v := contents_congr fun t ht =>
      hs t (List.mem_append_left _ (Option.mem_toList.mpr ht))
    exact .through (same ▸ hl.congr fun t ht => hs t (List.mem_append_right _ ht))

/-- So does that through several values. -/
theorem WalkAll.congr : ∀ {vs : List Value} {l : List Handle}, h.WalkAll vs l →
    (∀ t ∈ l, h.SameCell h' t) → h'.WalkAll vs l
  | _, _, .nil, _ => .nil
  | _, _, .cons hv hvs, hs =>
    .cons (hv.congr fun t ht => hs t (List.mem_append_left _ ht))
      (hvs.congr fun t ht => hs t (List.mem_append_right _ ht))

end

/-- The walk through the same values in another order meets the same handles. -/
theorem WalkAll.perm {ws : List Value} (hw : h.WalkAll vs l) (hp : vs.Perm ws) :
    ∃ l', h.WalkAll ws l' ∧ l.Perm l' := by
  induction hp generalizing l with
  | nil => exact ⟨l, hw, .refl l⟩
  | cons x _ ih =>
    cases hw with
    | cons hx hvs =>
      obtain ⟨l', hl', hperm⟩ := ih hvs
      exact ⟨_, .cons hx hl', hperm.append_left _⟩
  | swap x y _ =>
    cases hw with
    | cons hy hw =>
      cases hw with
      | cons hx hvs =>
        refine ⟨_, .cons hx (.cons hy hvs), ?_⟩
        rw [← List.append_assoc, ← List.append_assoc]
        exact List.perm_append_comm.append_right _
  | trans _ _ ih1 ih2 =>
    obtain ⟨l1, h1, p1⟩ := ih1 hw
    obtain ⟨l2, h2, p2⟩ := ih2 h1
    exact ⟨l2, h2, p1.trans p2⟩

/-! ## Shallow values -/

/-- There are no more handles with a cell than the depth of the heap says. -/
theorem length_le_depth (hn : l.Nodup) (ha : ∀ t ∈ l, h.Allocated t) : l.length ≤ h.depth := by
  have hsub : l ⊆ h.objects.keys.map Handle.object ++ h.arrays.keys.map Handle.array := by
    intro t ht
    have hall := ha t ht
    cases t with
    | object r =>
      exact List.mem_append_left _ (List.mem_map_of_mem (Std.ExtTreeMap.mem_keys.mpr hall))
    | array r =>
      exact List.mem_append_right _ (List.mem_map_of_mem (Std.ExtTreeMap.mem_keys.mpr hall))
  have hle := (hn.subperm hsub).length_le
  simpa [Std.ExtTreeMap.length_keys, depth] using hle

theorem Shallow.mono (hv : h.Shallow n v) (hle : n ≤ m) : h.Shallow m v :=
  fun p t hp => Nat.lt_of_lt_of_le (hv p t hp) hle

theorem Shallow.child (hv : h.Shallow (n + 1) t.toValue) (hc : h.child? t st = some w) :
    h.Shallow n w := by
  intro p u hp
  refine Nat.lt_of_succ_lt_succ (hv (st :: p) u ?_)
  rw [follow_cons, hc]
  exact hp

theorem Shallow.exists_succ (hv : h.Shallow n t.toValue) : ∃ m, n = m + 1 :=
  Nat.exists_eq_succ_of_ne_zero (Nat.ne_of_gt (hv [] t rfl))

theorem Shallow.of_mem (hv : h.Shallow (n + 1) t.toValue) (hx : x ∈ h.contents t.toValue) :
    h.Shallow n x := by
  obtain ⟨st, hc⟩ := exists_child?_of_mem_contents hx
  exact hv.child hc

theorem handle?_of_shallow_zero (hv : h.Shallow 0 v) : v.handle? = none := by
  cases e : v.handle? with
  | none => rfl
  | some t =>
    obtain rfl := Value.handle?_eq_some_iff.mp e
    exact absurd (hv [] t rfl) (Nat.not_lt_zero _)

/-- The handles on a path without cycles are all different. -/
theorem Acyclic.exists_nodup (hv : h.Acyclic v) (hp : h.follow v p = some t.toValue) :
    ∃ l : List Handle, l.length = p.length + 1 ∧ l.Nodup ∧ ∀ u ∈ l, h.Reaches v u := by
  induction p generalizing v with
  | nil =>
    refine ⟨[t], rfl, List.nodup_cons.mpr ⟨List.not_mem_nil, List.nodup_nil⟩, fun u hu => ?_⟩
    obtain rfl := List.mem_singleton.mp hu
    exact ⟨[], hp⟩
  | cons st p ih =>
    obtain ⟨a, x, rfl, hc, hp⟩ := follow_cons_inv hp
    obtain ⟨l, hl, hnd, hr⟩ :=
      ih (fun u q hu => hv u q (.of_child hc hu)) hp
    refine ⟨a :: l, congrArg (· + 1) hl, List.nodup_cons.mpr ⟨fun ha => ?_, hnd⟩, fun u hu => ?_⟩
    · obtain ⟨q, hq⟩ := hr a ha
      have hcycle := hv a (st :: q) (.refl h a) (by rw [follow_cons, hc]; exact hq)
      cases hcycle
    · rcases List.mem_cons.mp hu with rfl | hu
      · exact .refl h u
      · exact .of_child hc (hr u hu)

/-- What holds nothing that holds itself is no deeper than there are cells. -/
theorem Acyclic.shallow (hv : h.Acyclic v) (hb : h.Backs v) : h.Shallow h.depth v := by
  intro p t hp
  obtain ⟨l, hl, hnd, hr⟩ := hv.exists_nodup hp
  have hle : l.length ≤ h.depth := length_le_depth hnd fun u hu => (hb u (hr u hu)).1
  rwa [hl] at hle

/-- Nothing in a value holds itself if the walk through it ends: the paths to such a handle, once
and again round, would be as long as one likes. -/
theorem Walk.acyclic (hw : h.Walk v l) : h.Acyclic v := by
  intro t p ht hp
  by_contra hne
  have long (k : Nat) : ∃ q, h.follow v q = some t.toValue ∧ k ≤ q.length := by
    induction k with
    | zero =>
      obtain ⟨q, hq⟩ := ht
      exact ⟨q, hq, Nat.zero_le _⟩
    | succ k ih =>
      obtain ⟨q, hq, hle⟩ := ih
      refine ⟨q ++ p, by rw [follow_append, hq]; exact hp, ?_⟩
      rw [List.length_append]
      exact Nat.add_le_add hle (List.length_pos_of_ne_nil hne)
  obtain ⟨q, hq, hle⟩ := long l.length
  exact Nat.not_lt_of_le hle (hw.of_follow hq).1

theorem Tree.acyclic (ht : h.Tree v) : h.Acyclic v := by
  obtain ⟨l, hw, -⟩ := ht
  exact hw.acyclic

end

end Heap

end GuardedData
