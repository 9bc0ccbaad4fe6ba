import GuardedData.Proofs.Check.Declared
import GuardedData.Proofs.Heap.Copy

/-!
# Shared and cyclic data

`s.depth` is how deep a schema is nested: it leads no further than so many steps
into the data (`Leads.length_le`), through modifiers and unions without a step
and through a field or an element with one. A value is checked like the tree that
copies it down to the depth of the schema, whatever it shares and whether or not
it holds itself.
-/

namespace GuardedData

namespace Schema

mutual

/-- How many fields and elements are nested in each other. -/
def depth : Schema → Nat
  | .array items => depth items + 1
  | .object fields => fieldsDepth fields + 1
  | .nullable inner => depth inner
  | .optional inner => depth inner
  | .union branches => branchesDepth branches
  | _ => 0

def fieldsDepth : List (String × Schema) → Nat
  | [] => 0
  | (_, s) :: rest => max (depth s) (fieldsDepth rest)

def branchesDepth : List Schema → Nat
  | [] => 0
  | s :: rest => max (depth s) (branchesDepth rest)

end

section
variable {s n : Schema} {p : Path}

theorem depth_le_fieldsDepth {fields : List (String × Schema)} {k : String}
    (hm : (k, s) ∈ fields) : s.depth ≤ fieldsDepth fields := by
  induction fields with
  | nil => cases hm
  | cons f rest ih =>
    rcases List.mem_cons.mp hm with rfl | hm
    · exact Nat.le_max_left _ _
    · exact Nat.le_trans (ih hm) (Nat.le_max_right _ _)

theorem depth_le_branchesDepth {branches : List Schema} (hm : s ∈ branches) :
    s.depth ≤ branchesDepth branches := by
  induction branches with
  | nil => cases hm
  | cons b rest ih =>
    rcases List.mem_cons.mp hm with rfl | hm
    · exact Nat.le_max_left _ _
    · exact Nat.le_trans (ih hm) (Nat.le_max_right _ _)

/-- A schema leads into the data step by step, and no deeper than it is nested. -/
theorem Leads.length_le (hl : s.Leads p n) : p.length + n.depth ≤ s.depth := by
  induction hl with
  | here s => exact Nat.le_of_eq (Nat.zero_add _)
  | nullable _ ih => exact ih
  | optional _ ih => exact ih
  | branch hb _ ih => exact Nat.le_trans ih (depth_le_branchesDepth hb)
  | field hk _ ih =>
    rw [List.length_cons, Nat.add_right_comm]
    exact Nat.succ_le_succ (Nat.le_trans ih (depth_le_fieldsDepth hk))
  | element _ _ ih =>
    rw [List.length_cons, Nat.add_right_comm]
    exact Nat.succ_le_succ ih

end

end Schema

namespace Heap

section
variable {h g : Heap} {v w : Value} {r r' : Ref} {p : Path} {n : Nat}

/-- What is read from a value and from its mirror has the same form. -/
theorem Mirrors.readStep (hm : h.Mirrors g (n + 1) v w) (st : PathStep) :
    h.Mirrors g n (h.readStep v st) (g.readStep w st) := by
  have absent : h.Mirrors g n .undefined .undefined :=
    mirrors_of_scalar ⟨rfl, fun _ _ => rfl⟩ rfl n
  cases hv : v.handle? with
  | none =>
    have hw : w.handle? = none := by
      cases hw : w.handle? with
      | none => rfl
      | some u =>
        obtain rfl := Value.handle?_eq_some_iff.mp hw
        obtain ⟨t, rfl⟩ := Value.exists_handle_of_kind_eq hm.shell.1
        simp at hv
    rw [readStep_of_scalar hv, readStep_of_scalar hw]
    exact absent
  | some t =>
    obtain rfl := Value.handle?_eq_some_iff.mp hv
    obtain ⟨u, rfl⟩ := Value.exists_handle_of_kind_eq hm.shell.1.symm
    have hrel := hm.2 t u st rfl rfl
    rw [readStep_toValue, readStep_toValue]
    exact Related.rel_getD hrel absent

theorem Mirrors.readPath (hm : h.Mirrors g n v w) (hp : p.length ≤ n) :
    h.Mirrors g (n - p.length) (h.readPath v p) (g.readPath w p) := by
  induction p generalizing n v w with
  | nil => exact hm
  | cons st p ih =>
    cases n with
    | zero => cases hp
    | succ n =>
      rw [List.length_cons, Nat.add_sub_add_right]
      exact ih (hm.readStep st) (Nat.le_of_succ_le_succ hp)

theorem Mirrors.length_eq (hm : h.Mirrors g (n + 1) (.array r) (.array r')) :
    (h.array r).length = (g.array r').length := by
  have ends (i : Nat) : (h.array r).length ≤ i ↔ (g.array r').length ≤ i := by
    have hrel : Option.Rel (h.Mirrors g n) (h.array r)[i]? (g.array r')[i]? :=
      hm.2 (.array r) (.array r') (.index i) rfl rfl
    rw [← List.getElem?_eq_none_iff, ← List.getElem?_eq_none_iff]
    exact Related.eq_none_iff hrel
  exact Nat.le_antisymm ((ends _).mpr (Nat.le_refl _)) ((ends _).mp (Nat.le_refl _))

theorem Mirrors.alike {s : Schema} (hm : h.Mirrors g n v w) (hd : s.depth ≤ n) :
    s.Alike h v g w where
  kind p m hl := by
    have hle := Nat.le_trans hl.length_le hd
    exact (hm.readPath (Nat.le_trans (Nat.le_add_right _ _) hle)).shell.1
  length p items r r' hl hr hr' := by
    have hle : p.length + (items.depth + 1) ≤ n := Nat.le_trans hl.length_le hd
    have hread := hm.readPath (p := p) (by omega)
    rw [hr, hr', show n - p.length = n - p.length - 1 + 1 by omega] at hread
    exact hread.length_eq

end

end Heap

/-- The check of a value ends after as many steps into it as the schema is deep, and gives the
answer for the finite tree, without sharing and in cells of its own, that copies the value down
to there. -/
theorem check_eq_check_copy (c : Catalogue) (hc : c.KindOnly) (h : Heap) (s : Schema) (v : Value)
    (g : Heap) :
    let tree := h.copy s.depth v g
    (tree.2.Tree tree.1 ∧ tree.2.Shallow (s.depth + 1) tree.1 ∧
      (∀ t, tree.2.Reaches tree.1 t → g.next ≤ t.ref) ∧ h.Mirrors tree.2 s.depth v tree.1) ∧
    (∀ p n, s.Leads p n → p.length ≤ s.depth) ∧
    check c h s v = check c tree.2 s tree.1 := by
  have built := Heap.built_copy h s.depth v g
  have mirrors := Heap.mirrors_copy h s.depth v g
  refine ⟨⟨built.tree List.mem_cons_self, mirrors.shallow,
    fun t ht => (built.reaches List.mem_cons_self ht).1, mirrors⟩, fun p n hl => ?_,
    check_of_alike hc (mirrors.alike (Nat.le_refl _))⟩
  exact Nat.le_trans (Nat.le_add_right _ _) hl.length_le

/-- An object that holds itself and a list, whose elements are that list and the object. -/
def loopHeap : Heap :=
  ((Heap.empty.allocArray []).2.allocFields [("again", .object 1), ("list", .array 0)]).2.setArray 0
    [.array 0, .object 1, .object 1]

/-- An object that holds one with a list of lists. -/
def loopSchema : Schema :=
  .object [("again", .nullable (.object [("list", .array (.array .any))]))]

/-- The cyclic object fails at the second element of its list, and so does the tree. -/
theorem check_eq_check_copy_loop : Catalogue.builtin.KindOnly ∧ loopSchema.depth = 4 ∧
    check .builtin loopHeap loopSchema (.object 1) =
      .error ⟨.shape, "array<any>", "object", [.field "again", .field "list", .index 1]⟩ ∧
    check .builtin loopHeap loopSchema (.object 1) =
      check .builtin (loopHeap.copy loopSchema.depth (.object 1) .empty).2 loopSchema
        (loopHeap.copy loopSchema.depth (.object 1) .empty).1 :=
  ⟨Catalogue.kindOnly_builtin, by decide, by decide,
    (check_eq_check_copy .builtin Catalogue.kindOnly_builtin loopHeap loopSchema (.object 1)
      .empty).2.2⟩

end GuardedData
