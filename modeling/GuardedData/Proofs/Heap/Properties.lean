import Mathlib.Data.List.Sort
import Mathlib.Data.String.Basic
import GuardedData.Heap.Equality
import GuardedData.Proofs.Keyed

/-!
# Fields put in one after the other

An object made of pairs has under each name the last entry given for it
(`getElem?_ofPairs`). If no name is given twice, its sorted list of fields is
a permutation of the pairs (`toList_ofPairs`). Two sorted lists of fields are
related one after the other if they are name by name (`pairwise_toList_iff`).
-/

namespace GuardedData.Properties

/-- The fields of the pairs; the last entry of a repeated name wins. -/
abbrev ofPairs (pairs : List (String × Value)) : Properties :=
  pairs.foldl (fun p kv => p.insert kv.1 kv.2) ∅

section
variable {pairs : Keyed Value} {props : Properties} {k : String}

theorem getElem?_foldl_insert (pairs : Keyed Value) (props : Properties) (k : String) :
    (pairs.foldl (fun p kv => p.insert kv.1 kv.2) props)[k]? =
      (Keyed.get? k pairs.reverse).or props[k]? := by
  induction pairs using List.reverseRecOn with
  | nil => rfl
  | append_singleton pairs p ih =>
    rw [List.foldl_append, List.foldl_cons, List.foldl_nil, Std.ExtTreeMap.getElem?_insert, ih,
      List.reverse_append, List.reverse_singleton, List.singleton_append, Keyed.get?]
    by_cases hp : p.1 = k
    · simp [hp]
    · simp [hp]

theorem getElem?_ofPairs (pairs : Keyed Value) (k : String) :
    (ofPairs pairs)[k]? = Keyed.get? k pairs.reverse := by
  rw [getElem?_foldl_insert, Std.ExtTreeMap.getElem?_empty, Option.or_none]

/-- Pairs that come later win. -/
theorem getElem?_ofPairs_append (pairs later : Keyed Value) (k : String) :
    (ofPairs (pairs ++ later))[k]? = (ofPairs later)[k]?.or (ofPairs pairs)[k]? := by
  rw [ofPairs, List.foldl_append, getElem?_foldl_insert, ← getElem?_ofPairs]

/-- Names that are given once have their entries. -/
theorem getElem?_ofPairs_of_distinct (hd : Keyed.Distinct pairs) (k : String) :
    (ofPairs pairs)[k]? = Keyed.get? k pairs := by
  have hd' : Keyed.Distinct pairs.reverse := by
    rw [Keyed.Distinct, Keyed.keys, List.map_reverse, List.nodup_reverse]
    exact hd
  rw [getElem?_ofPairs]
  refine Option.ext fun x => ⟨fun hx => ?_, fun hx => ?_⟩
  · exact hd.get?_of_mem (List.mem_reverse.mp (Keyed.mem_of_get? hx))
  · exact hd'.get?_of_mem (List.mem_reverse.mpr (Keyed.mem_of_get? hx))

/-! ## The sorted list of fields -/

theorem distinct_toList (props : Properties) : Keyed.Distinct props.toList := by
  rw [Keyed.Distinct, Keyed.keys, Std.ExtTreeMap.map_fst_toList_eq_keys]
  refine Std.ExtTreeMap.distinct_keys.imp fun h => ?_
  rintro rfl
  exact h Std.ReflCmp.compare_self

theorem get?_toList (props : Properties) (k : String) :
    Keyed.get? k props.toList = props[k]? := by
  refine Option.ext fun x => ?_
  rw [← Std.ExtTreeMap.mem_toList_iff_getElem?_eq_some]
  exact ⟨Keyed.mem_of_get?, (distinct_toList props).get?_of_mem⟩

theorem toList_ofPairs (hd : Keyed.Distinct pairs) : (ofPairs pairs).toList.Perm pairs :=
  Keyed.perm_of_get?_eq (distinct_toList _) hd fun k => by
    rw [get?_toList, getElem?_ofPairs_of_distinct hd]

theorem sorted_toList (props : Properties) : props.toList.Pairwise fun p q => p.1 < q.1 :=
  (Std.ExtTreeMap.ordered_keys_toList (t := props)).imp fun h => compareOfLessAndEq_eq_lt.mp h

theorem mem_keys_toList : k ∈ Keyed.keys props.toList ↔ ∃ x : Value, props[k]? = some x := by
  rw [Keyed.keys, List.mem_map]
  constructor
  · rintro ⟨p, hp, rfl⟩
    exact ⟨p.2, Std.ExtTreeMap.mem_toList_iff_getElem?_eq_some.mp hp⟩
  · rintro ⟨x, hx⟩
    exact ⟨(k, x), Std.ExtTreeMap.mem_toList_iff_getElem?_eq_some.mpr hx, rfl⟩

theorem keys_toList_congr {props' : Properties}
    (hk : ∀ k : String, (∃ x : Value, props[k]? = some x) ↔ ∃ x : Value, props'[k]? = some x) :
    Keyed.keys props.toList = Keyed.keys props'.toList := by
  have sorted (p : Properties) : (Keyed.keys p.toList).Pairwise (· < ·) :=
    List.pairwise_map.mpr (sorted_toList p)
  exact (sorted props).eq_of_mem_iff (sorted props') fun k => by
    rw [mem_keys_toList, mem_keys_toList, hk k]

/-! ## Objects compared -/

theorem pairwise_eq_true_iff {α : Type} {eq : α → α → Bool} {xs ys : List α} :
    Heap.pairwise eq xs ys = true ↔ List.Forall₂ (fun x y => eq x y = true) xs ys :=
  Related.iff_forall₂ rfl (fun _ _ => rfl) (fun _ _ => rfl) fun _ _ _ _ => rfl

/-- The lists of fields of two objects are compared name by name. -/
theorem pairwise_toList_iff {eq : Value → Value → Bool} {props props' : Properties} :
    Heap.pairwise (fun p q => p.1 == q.1 && eq p.2 q.2) props.toList props'.toList = true ↔
      ∀ k : String, Option.Rel (fun x y : Value => eq x y = true) props[k]? props'[k]? := by
  rw [pairwise_eq_true_iff]
  simp only [Bool.and_eq_true, beq_iff_eq]
  constructor
  · intro h k
    rw [← get?_toList, ← get?_toList]
    exact Keyed.rel_get? h k
  · intro h
    refine Keyed.forall₂_of_rel_get? (R := fun x y => eq x y = true)
      (keys_toList_congr fun k => ?_) (distinct_toList props) fun k => ?_
    · have hk := h k
      generalize props[k]? = x, props'[k]? = y at hk
      cases hk with
      | some _ => exact ⟨fun _ => ⟨_, rfl⟩, fun _ => ⟨_, rfl⟩⟩
      | none => exact ⟨nofun, nofun⟩
    · rw [get?_toList, get?_toList]
      exact h k

/-- What becomes of the fields of an object, in the order of their names. -/
theorem filterMap_toList_eq {α β : Type} {members : Keyed α} {f : Value → Option β} {e : α → β}
    (hd : Keyed.Distinct members)
    (hr : ∀ k : String, Option.Rel (fun a x => f x = some (e a)) (Keyed.get? k members) props[k]?) :
    (props.toList.filterMap fun p => (f p.2).map fun b => (p.1, b)) =
      (members.map fun p => (p.1, e p.2)).mergeSort fun p q => p.1 ≤ q.1 := by
  have hsub : (Keyed.keys (props.toList.filterMap fun p => (f p.2).map fun b => (p.1, b))).Sublist
      (Keyed.keys props.toList) := Keyed.keys_filterMap_sublist f _
  have hd' : Keyed.Distinct (props.toList.filterMap fun p => (f p.2).map fun b => (p.1, b)) :=
    (distinct_toList props).sublist hsub
  have hmap : Keyed.Distinct (members.map fun p => (p.1, e p.2)) := by
    rw [Keyed.Distinct, Keyed.keys, List.map_map]
    exact hd
  have hperm := Keyed.perm_of_get?_eq hd' hmap fun k => by
    rw [(distinct_toList props).get?_filterMap, get?_toList, Keyed.get?_map]
    have hk := hr k
    generalize Keyed.get? k members = a, props[k]? = x at hk
    cases hk with
    | some hx => exact hx
    | none => rfl
  have hsorted : (props.toList.filterMap fun p => (f p.2).map fun b => (p.1, b)).Pairwise
      fun p q => p.1 < q.1 :=
    List.pairwise_map.mp ((List.pairwise_map.mpr (sorted_toList props)).sublist hsub)
  refine (hperm.trans (List.mergeSort_perm _ _).symm).eq_of_pairwise (fun p q hp hq hpq hqp => ?_)
    (hsorted.imp fun h => decide_eq_true (le_of_lt h))
    (List.pairwise_mergeSort (fun p q r hpq hqr => ?_) (fun p q => ?_) _)
  · have hkey : p.1 = q.1 := le_antisymm (of_decide_eq_true hpq) (of_decide_eq_true hqp)
    have hq := hperm.mem_iff.mpr (List.mem_mergeSort.mp hq)
    exact Prod.ext hkey (hd'.eq_of_mem (hkey ▸ hp) hq)
  · exact decide_eq_true (le_trans (of_decide_eq_true hpq) (of_decide_eq_true hqr))
  · rw [Bool.or_eq_true, decide_eq_true_iff, decide_eq_true_iff]
    exact le_total p.1 q.1

end

end GuardedData.Properties
