/-!
# Keyed lists

Pairs of a name and an entry, in the order in which the names were first
given. `insert` replaces the entry of a name in its place or adds the name at
the end; `ofList` inserts pairs one after the other, so that the last entry of
a repeated name wins and its first position stays.
-/

namespace GuardedData

/-- Entries under names, in order. -/
abbrev Keyed (α : Type) := List (String × α)

namespace Keyed

variable {α : Type}

/-- Puts `a` under `key`: in the place of the entry that is there, or at the end. -/
def insert (key : String) (a : α) : Keyed α → Keyed α
  | [] => [(key, a)]
  | (k, b) :: rest => if k = key then (key, a) :: rest else (k, b) :: insert key a rest

/-- The first entry under `key`. -/
def get? (key : String) : Keyed α → Option α
  | [] => none
  | (k, b) :: rest => if k = key then some b else get? key rest

/-- The entry under `key`, if the name is there exactly once. -/
def only? (key : String) : Keyed α → Option α
  | [] => none
  | (k, b) :: rest =>
    if k = key then (if (rest.any fun p => p.1 = key) then none else some b)
    else only? key rest

def ofList (pairs : List (String × α)) : Keyed α :=
  pairs.foldl (fun m p => insert p.1 p.2 m) []

def keys (m : Keyed α) : List String := m.map Prod.fst

/-- No name occurs twice. -/
def Distinct (m : Keyed α) : Prop := (keys m).Nodup

theorem get?_insert_self (key : String) (a : α) (m : Keyed α) :
    get? key (insert key a m) = some a := by
  induction m with
  | nil => simp [insert, get?]
  | cons p rest ih =>
    obtain ⟨k, b⟩ := p
    by_cases h : k = key <;> simp [insert, get?, h, ih]

theorem get?_insert_ne {key other : String} (h : key ≠ other) (a : α) (m : Keyed α) :
    get? other (insert key a m) = get? other m := by
  induction m with
  | nil => simp [insert, get?, h]
  | cons p rest ih =>
    obtain ⟨k, b⟩ := p
    by_cases hk : k = key
    · simp [insert, get?, hk, h]
    · simp only [insert, hk, if_false, get?]
      rw [ih]

/-- A name that is there keeps its place, a new one goes to the end. -/
theorem keys_insert (key : String) (a : α) (m : Keyed α) :
    keys (insert key a m) = if key ∈ keys m then keys m else keys m ++ [key] := by
  induction m with
  | nil => simp [insert, keys]
  | cons p rest ih =>
    obtain ⟨k, b⟩ := p
    by_cases hk : k = key
    · simp [insert, keys, hk]
    · have hk' : ¬key = k := fun h => hk h.symm
      simp only [keys] at ih
      simp only [insert, hk, keys, List.map_cons, List.mem_cons, hk', false_or, if_false]
      rw [ih]
      split <;> simp [*]

theorem Distinct.insert {m : Keyed α} (h : Distinct m) (key : String) (a : α) :
    Distinct (Keyed.insert key a m) := by
  unfold Distinct
  rw [keys_insert]
  split
  · exact h
  · next hk =>
    rw [List.nodup_append]
    refine ⟨h, by simp, ?_⟩
    intro x hx y hy
    simp only [List.mem_singleton] at hy
    subst hy
    intro e
    exact hk (e ▸ hx)

theorem insert_of_not_mem {key : String} {m : Keyed α} (h : key ∉ keys m) (a : α) :
    insert key a m = m ++ [(key, a)] := by
  induction m with
  | nil => rfl
  | cons p rest ih =>
    obtain ⟨k, b⟩ := p
    obtain ⟨hk, hrest⟩ := not_or.mp fun hm => h (List.mem_cons.mpr hm)
    rw [insert, if_neg fun e => hk e.symm, ih hrest]
    rfl

/-- Pairs inserted after entries with which they share no name come after them. -/
theorem foldl_insert_of_distinct {front m : Keyed α} (h : Distinct (front ++ m)) :
    m.foldl (fun m p => insert p.1 p.2 m) front = front ++ m := by
  induction m generalizing front with
  | nil => rw [List.append_nil]; rfl
  | cons p rest ih =>
    have hfresh : p.1 ∉ keys front := by
      intro hm
      rw [Distinct, keys, List.map_append] at h
      exact (List.nodup_append.mp h).2.2 _ hm _ List.mem_cons_self rfl
    have hstep : front ++ p :: rest = (front ++ [(p.1, p.2)]) ++ rest := by
      rw [List.append_assoc]
      rfl
    rw [List.foldl_cons, insert_of_not_mem hfresh, hstep]
    exact ih (hstep ▸ h)

theorem Distinct.foldl_insert {m : Keyed α} (h : Distinct m) (pairs : List (String × α)) :
    Distinct (pairs.foldl (fun m p => Keyed.insert p.1 p.2 m) m) := by
  induction pairs generalizing m with
  | nil => exact h
  | cons p rest ih => exact ih (h.insert p.1 p.2)

theorem distinct_ofList (pairs : List (String × α)) : Distinct (ofList pairs) :=
  Distinct.foldl_insert (show Distinct [] from List.nodup_nil) pairs

theorem Distinct.ofList_eq {m : Keyed α} (h : Distinct m) : ofList m = m :=
  foldl_insert_of_distinct (show Distinct ([] ++ m) from h)

end Keyed

end GuardedData
