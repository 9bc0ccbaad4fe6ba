import GuardedData.Heap.Json
import GuardedData.Proofs.Heap.Fresh
import GuardedData.Proofs.Json.Generic
import GuardedData.Proofs.Related

/-!
# Values made of documents

`g.Represents j w` says that a value is a document laid out in a heap: numbers
are binary64 numbers, items and members lie in the cells of arrays and objects.
The value of a generic document represents it (`represents_ofJson`), in fresh
cells (`built_ofJson`) and for as long as the heap only grows. The document of
such a value is the normal form of the one it was made of (`toJsonUpTo?_eq`).
-/

namespace GuardedData.Heap

/-- The value is the document, laid out in the heap. -/
inductive Represents (g : Heap) : Json → Value → Prop where
  | null : Represents g .null .null
  | bool (b : Bool) : Represents g (.bool b) (.bool b)
  | number (n : Number) : Represents g (.number n) (.number n.toFloat)
  | string (s : String) : Represents g (.string s) (.string s)
  | array {items : List Json} {r : Ref} : List.Forall₂ (Represents g) items (g.array r) →
      Represents g (.array items) (.array r)
  | object {members : Keyed Json} {r : Ref} :
      (∀ k : String, Option.Rel (Represents g) (Keyed.get? k members) (g.object r)[k]?) →
      Represents g (.object members) (.object r)

section
variable {g g' : Heap} {j : Json} {items : List Json} {members : Keyed Json} {v w : Value} {n : Nat}

/-! ## The value of a document -/

theorem keys_ofJsonMembers (g : Heap) (members : Keyed Json) :
    Keyed.keys (g.ofJsonMembers members).1 = Keyed.keys members := by
  induction members generalizing g with
  | nil => rfl
  | cons p rest ih => exact congrArg (p.1 :: ·) (ih _)

theorem distinct_ofJsonMembers (hd : Keyed.Distinct members) (g : Heap) :
    Keyed.Distinct (g.ofJsonMembers members).1 := by
  rw [Keyed.Distinct, keys_ofJsonMembers]
  exact hd

mutual

/-- The value of a document is a tree in fresh cells. -/
theorem built_ofJson : ∀ {j : Json}, j.Generic → ∀ g : Heap,
    Built g (g.ofJson j).2 [(g.ofJson j).1]
  | .null, _, g | .bool _, _, g | .number _, _, g | .string _, _, g => built_scalar g rfl rfl
  | .array _, .array hj, g => (built_ofJsonItems hj g).array
  | .object _, .object hd hj, g => (built_ofJsonMembers hj g).object (distinct_ofJsonMembers hd g)

theorem built_ofJsonItems : ∀ {items : List Json}, (∀ j ∈ items, j.Generic) → ∀ g : Heap,
    Built g (g.ofJsonItems items).2 (g.ofJsonItems items).1
  | [], _, g => built_nil g
  | _ :: _, hj, g => (built_ofJson (hj _ List.mem_cons_self) g).cons
      (built_ofJsonItems (fun j hm => hj j (List.mem_cons_of_mem _ hm)) _)

theorem built_ofJsonMembers : ∀ {members : List (String × Json)},
    (∀ k j, (k, j) ∈ members → j.Generic) → ∀ g : Heap,
    Built g (g.ofJsonMembers members).2 ((g.ofJsonMembers members).1.map Prod.snd)
  | [], _, g => built_nil g
  | (_, _) :: _, hj, g => (built_ofJson (hj _ _ List.mem_cons_self) g).cons
      (built_ofJsonMembers (fun k j hm => hj k j (List.mem_cons_of_mem _ hm)) _)

end

mutual

/-- The value of a document represents it while the heap grows. -/
theorem represents_ofJson : ∀ {j : Json}, j.Generic → ∀ g : Heap, (g.ofJson j).2.Grows g' →
    g'.Represents j (g.ofJson j).1
  | .null, _, _, _ => .null
  | .bool b, _, _, _ => .bool b
  | .number n, _, _, _ => .number n
  | .string s, _, _, _ => .string s
  | .array items, .array hj, g, hg => by
    refine .array ?_
    rw [hg.array_allocArray]
    exact represents_ofJsonItems hj g ((grows_allocArray _ _).trans hg)
  | .object members, .object hd hj, g, hg => by
    refine .object fun k => ?_
    rw [hg.object_allocObject,
      Properties.getElem?_ofPairs_of_distinct (distinct_ofJsonMembers hd g)]
    exact Keyed.rel_get? (represents_ofJsonMembers hj g ((grows_allocObject _ _).trans hg)) k

theorem represents_ofJsonItems : ∀ {items : List Json}, (∀ j ∈ items, j.Generic) → ∀ g : Heap,
    (g.ofJsonItems items).2.Grows g' →
    List.Forall₂ g'.Represents items (g.ofJsonItems items).1
  | [], _, _, _ => .nil
  | _ :: _, hj, g, hg =>
    have hrest := fun j hm => hj j (List.mem_cons_of_mem _ hm)
    .cons (represents_ofJson (hj _ List.mem_cons_self) g
        ((built_ofJsonItems hrest _).grows.trans hg))
      (represents_ofJsonItems hrest _ hg)

theorem represents_ofJsonMembers : ∀ {members : List (String × Json)},
    (∀ k j, (k, j) ∈ members → j.Generic) → ∀ g : Heap,
    (g.ofJsonMembers members).2.Grows g' →
    List.Forall₂ (fun p q => p.1 = q.1 ∧ g'.Represents p.2 q.2) members (g.ofJsonMembers members).1
  | [], _, _, _ => .nil
  | (_, _) :: _, hj, g, hg =>
    have hrest := fun k j hm => hj k j (List.mem_cons_of_mem _ hm)
    .cons ⟨rfl, represents_ofJson (hj _ _ List.mem_cons_self) g
        ((built_ofJsonMembers hrest _).grows.trans hg)⟩
      (represents_ofJsonMembers hrest _ hg)

end

/-! ## The document of such a value -/

theorem toJsonUpTo?_of_scalar (hv : v.handle? = none) (n : Nat) :
    g.toJsonUpTo? n v = v.toJsonWith? fun _ => .null := by
  cases n <;> cases v <;> first | rfl | cases hv

/-- The document of a value that represents one is its normal form. -/
theorem toJsonUpTo?_eq (hj : j.Generic) (hr : g.Represents j w) (hw : g.Shallow n w) :
    g.toJsonUpTo? n w = some j.normalize := by
  induction hj generalizing n w with
  | null =>
    cases hr
    exact toJsonUpTo?_of_scalar rfl n
  | bool b =>
    cases hr
    exact toJsonUpTo?_of_scalar rfl n
  | string s =>
    cases hr
    exact toJsonUpTo?_of_scalar rfl n
  | number hn =>
    cases hr
    rw [toJsonUpTo?_of_scalar rfl n, Value.toJsonWith?, Json.ofFloat, if_pos hn.isFinite]
    rfl
  | @array items _ ih =>
    cases hr with
    | @array _ r hr =>
      obtain ⟨n, rfl⟩ := hw.exists_succ (t := .array r)
      have hitems : ((g.array r).map fun v => (g.toJsonUpTo? n v).getD .null) =
          items.map Json.normalize :=
        Related.map_eq hr fun j hj x hx hjx => by
          rw [ih j hj hjx (hw.of_mem (t := .array r) hx), Option.getD_some]
      rw [Json.normalize, Json.normalizeItems_eq, ← hitems]
      rfl
  | @object members hd _ ih =>
    cases hr with
    | @object _ r hr =>
      obtain ⟨n, rfl⟩ := hw.exists_succ (t := .object r)
      have hmembers := Properties.filterMap_toList_eq (f := g.toJsonUpTo? n)
        (e := Json.normalize) hd fun k => Related.rel_imp (hr k) fun j x hj hx hjx =>
          have hc : g.child? (.object r) (.field k) = some x := hx
          ih k j (Keyed.mem_of_get? hj) hjx (hw.child (t := .object r) hc)
      rw [Json.normalize, Json.normalizeMembers_eq, ← hmembers]
      rfl

/-- The document of the value of a document is its normal form. -/
theorem toJson_ofJson (hj : j.Generic) (h : Heap) :
    (h.ofJson j).2.toJson (h.ofJson j).1 = j.normalize := by
  have hw := (built_ofJson hj h).shallow List.mem_cons_self
  rw [toJson, toJson?, toJsonUpTo?_eq hj (represents_ofJson hj h (.refl _)) hw, Option.getD_some]

end

end GuardedData.Heap
