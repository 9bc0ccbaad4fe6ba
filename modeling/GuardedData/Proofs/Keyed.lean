import Mathlib.Data.List.Induction
import Mathlib.Data.List.Nodup
import GuardedData.Keyed
import GuardedData.Proofs.Related

/-!
# Looking up names

What is found under a name of a list with repeated names (`keys_ofList`,
`get?_ofList`), and in a list whose entries are all changed. Entries of two
lists that are related one after the other are related by name (`rel_get?`), and
the other way round if the names are the same (`forall₂_of_rel_get?`). The only
entry of a name (`only?`) does not depend on the order (`only?_perm`).
-/

namespace GuardedData.Keyed

section
variable {α β : Type} {members : Keyed α} {key : String} {a b : α}

/-! ## Names that are there once -/

theorem any_map_name (f : String × α → β) :
    ((members.map fun p => (p.1, f p)).any fun p => p.1 = key) =
      members.any fun p => p.1 = key := by
  rw [List.any_map]
  rfl

theorem only?_map (f : String → α → β) (key : String) (members : Keyed α) :
    only? key (members.map fun p => (p.1, f p.1 p.2)) = (only? key members).map (f key) := by
  induction members with
  | nil => rfl
  | cons p rest ih =>
    rw [List.map_cons, only?, only?, any_map_name fun p => f p.1 p.2, ih]
    split
    · next hp =>
      split
      · rfl
      · exact congrArg (fun k => some (f k p.2)) hp
    · rfl

theorem only?_map_self (a : α) :
    only? name (members.map fun p => (p.1, if p.1 = name then a else p.2)) =
      (only? name members).map fun _ => a := by
  rw [only?_map fun k b => if k = name then a else b]
  simp only [if_true]

theorem only?_map_ne (h : other ≠ name) (a : α) :
    only? other (members.map fun p => (p.1, if p.1 = name then a else p.2)) =
      only? other members := by
  rw [only?_map fun k b => if k = name then a else b]
  simp only [if_neg h, Option.map_id']

theorem map_of_only? {a : α} (h : only? name members = some a) :
    members.map (fun p => (p.1, if p.1 = name then a else p.2)) = members := by
  induction members with
  | nil => rfl
  | cons p rest ih =>
    obtain ⟨k, b⟩ := p
    rw [only?] at h
    rw [List.map_cons]
    by_cases hk : k = name
    · rw [if_pos hk] at h
      split at h
      · cases h
      · next hrest =>
        obtain rfl := Option.some.inj h
        have hne : ∀ p ∈ rest, ¬ p.1 = name := fun p hp e =>
          hrest (List.any_eq_true.mpr ⟨p, hp, decide_eq_true e⟩)
        have hsame : rest.map (fun p => (p.1, if p.1 = name then b else p.2)) = rest.map id :=
          List.map_congr_left fun p hp => by rw [if_neg (hne p hp)]; rfl
        rw [if_pos hk, hsame, List.map_id]
    · rw [if_neg hk] at h
      rw [if_neg hk, ih h]

theorem eq_of_only? (h : only? key members = some a) (hm : (key, b) ∈ members) : b = a := by
  induction members with
  | nil => cases hm
  | cons p rest ih =>
    rw [only?] at h
    split at h
    · split at h
      · cases h
      · next hp hrest =>
        rcases List.mem_cons.mp hm with rfl | hm
        · exact Option.some.inj h
        · exact absurd (List.any_eq_true.mpr ⟨_, hm, decide_eq_true rfl⟩) hrest
    · next hp =>
      rcases List.mem_cons.mp hm with rfl | hm
      · exact absurd rfl hp
      · exact ih h hm

theorem Distinct.only?_eq (hd : Distinct members) (hm : (key, a) ∈ members) :
    only? key members = some a := by
  induction members with
  | nil => cases hm
  | cons p rest ih =>
    obtain ⟨hp, hrest⟩ := List.nodup_cons.mp hd
    rw [only?]
    rcases List.mem_cons.mp hm with rfl | hm
    · rw [if_pos rfl, if_neg]
      intro hany
      obtain ⟨q, hq, e⟩ := List.any_eq_true.mp hany
      exact hp (List.mem_map.mpr ⟨q, hq, of_decide_eq_true e⟩)
    · have hne : ¬ p.1 = key := fun e => hp (e ▸ List.mem_map_of_mem hm)
      rw [if_neg hne, ih hrest hm]

theorem only?_perm {members' : Keyed α} (hp : members.Perm members') (key : String) :
    only? key members' = only? key members := by
  induction hp with
  | nil => rfl
  | cons p hp ih => rw [only?, only?, ih, hp.any_eq]
  | swap p q rest =>
    simp only [only?, List.any_cons]
    by_cases hpk : p.1 = key <;> by_cases hqk : q.1 = key
    all_goals simp only [hpk, hqk, decide_true, decide_false, Bool.true_or, Bool.false_or, if_true,
      if_false]
  | trans _ _ ih ih' => rw [ih', ih]

theorem only?_cons_ne {name : String} (hne : name ≠ key) (a : α) (members : Keyed α) :
    only? key ((name, a) :: members) = only? key members := by
  rw [only?, if_neg hne]

/-! ## Repeated names -/

theorem mem_of_get? (h : get? key members = some a) : (key, a) ∈ members := by
  induction members with
  | nil => cases h
  | cons p rest ih =>
    rw [get?] at h
    split at h
    · next hp =>
      obtain rfl := Option.some.inj h
      exact hp ▸ List.mem_cons_self
    · exact List.mem_cons_of_mem _ (ih h)

theorem exists_get?_of_mem (h : (key, a) ∈ members) : ∃ b, get? key members = some b := by
  induction members with
  | nil => cases h
  | cons p rest ih =>
    rw [get?]
    split
    · exact ⟨_, rfl⟩
    · next hp =>
      rcases List.mem_cons.mp h with rfl | h
      · exact absurd rfl hp
      · exact ih h

theorem mem_keys (h : (key, a) ∈ members) : key ∈ keys members :=
  List.mem_map.mpr ⟨(key, a), h, rfl⟩

theorem Distinct.get?_of_mem (hd : Distinct members) (h : (key, a) ∈ members) :
    get? key members = some a := by
  induction members with
  | nil => cases h
  | cons p rest ih =>
    obtain ⟨l, b⟩ := p
    obtain ⟨hl, hd⟩ := List.nodup_cons.mp hd
    rcases List.mem_cons.mp h with e | h
    · obtain ⟨rfl, rfl⟩ := Prod.mk.inj e
      simp [get?]
    · have hne : l ≠ key := by
        rintro rfl
        exact hl (mem_keys h)
      rw [get?, if_neg hne]
      exact ih hd h

theorem Distinct.eq_of_mem (hd : Distinct members) (ha : (key, a) ∈ members)
    (hb : (key, b) ∈ members) : a = b :=
  Option.some.inj ((hd.get?_of_mem ha).symm.trans (hd.get?_of_mem hb))

theorem get?_eq_none_of_not_mem (h : key ∉ keys members) : get? key members = none := by
  cases e : get? key members with
  | none => rfl
  | some a => exact absurd (mem_keys (mem_of_get? e)) h

/-- Of a name that occurs once, what becomes of its entry. -/
theorem Distinct.get?_filterMap (hd : Distinct members) (f : α → Option β) (key : String) :
    get? key (members.filterMap fun p => (f p.2).map fun b => (p.1, b)) =
      (get? key members).bind f := by
  induction members with
  | nil => rfl
  | cons p rest ih =>
    obtain ⟨hp, hd⟩ := List.nodup_cons.mp hd
    rw [get?, List.filterMap_cons]
    by_cases hk : p.1 = key
    · rw [if_pos hk, Option.bind_some]
      cases hf : f p.2 with
      | none =>
        rw [Option.map_none, ih hd, get?_eq_none_of_not_mem (hk ▸ hp)]
        rfl
      | some b => rw [Option.map_some, get?, if_pos hk]
    · rw [if_neg hk, ← ih hd]
      cases f p.2 with
      | none => rfl
      | some b => rw [Option.map_some, get?, if_neg hk]

theorem get?_map (f : α → β) (key : String) (members : Keyed α) :
    get? key (members.map fun p => (p.1, f p.2)) = (get? key members).map f := by
  induction members with
  | nil => rfl
  | cons p rest ih =>
    rw [List.map_cons, get?, get?, ih]
    split <;> rfl

theorem keys_of_mapM (g : α → Option β) {fields : Keyed β}
    (h : members.mapM (fun p => (g p.2).map fun b => (p.1, b)) = some fields) :
    keys fields = keys members := by
  induction members generalizing fields with
  | nil => rw [← Option.some.inj h]; rfl
  | cons p rest ih =>
    rw [List.mapM_cons] at h
    obtain ⟨q, hq, h⟩ := Option.bind_eq_some_iff.mp h
    obtain ⟨fields', hfields, h⟩ := Option.bind_eq_some_iff.mp h
    obtain ⟨b, -, rfl⟩ := Option.map_eq_some_iff.mp hq
    rw [← Option.some.inj h]
    exact congrArg (p.1 :: ·) (ih hfields)

theorem keys_filterMap_sublist (f : α → Option β) (members : Keyed α) :
    (keys (members.filterMap fun p => (f p.2).map fun b => (p.1, b))).Sublist (keys members) := by
  induction members with
  | nil => exact .slnil
  | cons p rest ih =>
    rw [List.filterMap_cons]
    cases f p.2 with
    | none => exact ih.cons p.1
    | some b => exact ih.cons_cons p.1

theorem Distinct.nodup (hd : Distinct members) : members.Nodup := List.Nodup.of_map _ hd

/-- Entries of distinct names that are the same by name are the same up to their order. -/
theorem perm_of_get?_eq {members' : Keyed α} (hd : Distinct members) (hd' : Distinct members')
    (h : ∀ key, get? key members = get? key members') : members.Perm members' := by
  refine (List.perm_ext_iff_of_nodup hd.nodup hd'.nodup).mpr fun p => ⟨fun hp => ?_, fun hp => ?_⟩
  · exact mem_of_get? (h p.1 ▸ hd.get?_of_mem hp)
  · exact mem_of_get? (h p.1 ▸ hd'.get?_of_mem hp)

theorem ofList_concat (pairs : List (String × α)) (p : String × α) :
    ofList (pairs ++ [p]) = insert p.1 p.2 (ofList pairs) := by
  rw [ofList, List.foldl_append]
  rfl

/-- A repeated name has its first position. -/
theorem keys_ofList (pairs : Keyed α) : keys (ofList pairs) = (keys pairs).eraseDups := by
  induction pairs using List.reverseRecOn with
  | nil => rfl
  | append_singleton pairs p ih =>
    have hkeys : keys (pairs ++ [p]) = keys pairs ++ [p.1] := List.map_append
    rw [ofList_concat, keys_insert, ih, hkeys, List.eraseDups_append]
    by_cases hp : p.1 ∈ keys pairs
    · have hold : [p.1].removeAll (keys pairs) = [] := by simp [List.removeAll, hp]
      rw [if_pos (List.mem_eraseDups.mpr hp), hold]
      exact (List.append_nil _).symm
    · have hnew : [p.1].removeAll (keys pairs) = [p.1] := by simp [List.removeAll, hp]
      rw [if_neg fun h => hp (List.mem_eraseDups.mp h), hnew]
      rfl

/-- A repeated name has its last entry. -/
theorem get?_ofList (key : String) (pairs : Keyed α) :
    get? key (ofList pairs) = get? key pairs.reverse := by
  induction pairs using List.reverseRecOn with
  | nil => rfl
  | append_singleton pairs p ih =>
    rw [ofList_concat, List.reverse_append, List.reverse_singleton, List.singleton_append, get?]
    by_cases hp : p.1 = key
    · rw [if_pos hp, hp, get?_insert_self]
    · rw [if_neg hp, get?_insert_ne hp, ih]

theorem mem_of_mem_ofList {p : String × α} (h : p ∈ ofList members) : p ∈ members := by
  have hp : get? p.1 (ofList members) = some p.2 := (distinct_ofList members).get?_of_mem h
  rw [get?_ofList] at hp
  exact List.mem_reverse.mp (mem_of_get? hp)

theorem mem_ofList_of_only? (h : only? key members = some a) (hm : (key, a) ∈ members) :
    (key, a) ∈ ofList members := by
  obtain ⟨b, hb⟩ := exists_get?_of_mem (List.mem_reverse.mpr hm)
  have hba : b = a := eq_of_only? h (List.mem_reverse.mp (mem_of_get? hb))
  rw [← get?_ofList, hba] at hb
  exact mem_of_get? hb

/-! ## Entries that are related -/

variable {R : α → β → Prop} {ps : Keyed α} {qs : Keyed β}

theorem rel_get? (hr : List.Forall₂ (fun p q => p.1 = q.1 ∧ R p.2 q.2) ps qs) (key : String) :
    Option.Rel R (get? key ps) (get? key qs) := by
  induction hr with
  | nil => exact .none
  | cons hpq _ ih =>
    obtain ⟨hk, hpq⟩ := hpq
    rw [get?, get?, hk]
    split
    · exact .some hpq
    · exact ih

theorem forall₂_of_rel_get? (hk : keys ps = keys qs) (hd : Distinct ps)
    (hr : ∀ key, Option.Rel R (get? key ps) (get? key qs)) :
    List.Forall₂ (fun p q => p.1 = q.1 ∧ R p.2 q.2) ps qs := by
  induction ps generalizing qs with
  | nil =>
    cases qs with
    | nil => exact .nil
    | cons q qs => cases hk
  | cons p ps ih =>
    cases qs with
    | nil => cases hk
    | cons q qs =>
      obtain ⟨hp, hd⟩ := List.nodup_cons.mp hd
      obtain ⟨hpq, hk⟩ := List.cons.inj hk
      have here := hr p.1
      rw [get?, get?, if_pos rfl, if_pos hpq.symm] at here
      refine .cons ⟨hpq, by cases here; assumption⟩ (ih hk hd fun key => ?_)
      by_cases hkey : p.1 = key
      · have hp' : p.1 ∉ keys qs := fun hm => hp (hk ▸ hm)
        rw [get?_eq_none_of_not_mem (hkey ▸ hp), get?_eq_none_of_not_mem (hkey ▸ hp')]
        exact .none
      · have there := hr key
        rwa [get?, get?, if_neg hkey, if_neg (hpq ▸ hkey)] at there

/-- What is under a name depends on the member of that name only. -/
theorem rel_only?_around {R : α → α → Prop} (hrefl : ∀ a, R a a) {name : String}
    (hab : name = key → R a b) (before after : Keyed α) :
    Option.Rel R (only? key (before ++ (name, a) :: after))
      (only? key (before ++ (name, b) :: after)) := by
  induction before with
  | nil =>
    rw [List.nil_append, List.nil_append, only?, only?]
    split
    · next h =>
      split
      · exact .none
      · exact .some (hab h)
    · exact Related.rel_refl hrefl _
  | cons p rest ih =>
    have hany : (rest ++ (name, b) :: after).any (fun p => p.1 = key) =
        (rest ++ (name, a) :: after).any fun p => p.1 = key := by
      simp only [List.any_append, List.any_cons]
    rw [List.cons_append, List.cons_append, only?, only?, hany]
    split
    · exact Related.rel_refl hrefl _
    · exact ih

theorem only?_around {name : String} (hne : name ≠ key) {a b : α} (before after : Keyed α) :
    only? key (before ++ (name, b) :: after) = only? key (before ++ (name, a) :: after) :=
  (Related.eq_of_rel (rel_only?_around (fun _ => rfl) (fun e => absurd e hne) before after)).symm

theorem forall₂_insert {b : β}
    (hr : List.Forall₂ (fun p q => p.1 = q.1 ∧ R p.2 q.2) ps qs) (hab : R a b) (key : String) :
    List.Forall₂ (fun p q => p.1 = q.1 ∧ R p.2 q.2) (insert key a ps) (insert key b qs) := by
  induction hr with
  | nil => exact .cons ⟨rfl, hab⟩ .nil
  | @cons p q _ _ hpq hrest ih =>
    rw [insert, insert, hpq.1]
    split
    · exact .cons ⟨rfl, hab⟩ hrest
    · exact .cons ⟨rfl, hpq.2⟩ ih

/-- Lists of pairs that are related one after the other are inserted alike. -/
theorem forall₂_ofList (hr : List.Forall₂ (fun p q => p.1 = q.1 ∧ R p.2 q.2) ps qs) :
    List.Forall₂ (fun p q => p.1 = q.1 ∧ R p.2 q.2) (ofList ps) (ofList qs) := by
  have inserted {ps' : Keyed α} {qs' : Keyed β}
      (hr' : List.Forall₂ (fun p q => p.1 = q.1 ∧ R p.2 q.2) ps' qs') :
      List.Forall₂ (fun p q => p.1 = q.1 ∧ R p.2 q.2)
        (ps.foldl (fun m p => insert p.1 p.2 m) ps')
        (qs.foldl (fun m p => insert p.1 p.2 m) qs') := by
    induction hr generalizing ps' qs' with
    | nil => exact hr'
    | @cons p q _ _ hpq _ ih =>
      rw [List.foldl_cons, List.foldl_cons, hpq.1]
      exact ih (forall₂_insert hr' hpq.2 q.1)
  exact inserted .nil

end

end GuardedData.Keyed
