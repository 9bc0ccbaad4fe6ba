import GuardedData.Json.Basic

/-!
# Documents as trees

`Fits ok d j` bounds a document: its containers nest at most `d` deep, and its
numbers are all `ok`. `mapNumbers? f j` is the document with each number
replaced, if `f` has something in the place of every one of them.
-/

namespace GuardedData.Json

/-- Containers nest at most so deep, and every number is in order. -/
inductive Fits (ok : Number → Prop) : Nat → Json → Prop where
  | null {d : Nat} : Fits ok d .null
  | bool {d : Nat} (b : Bool) : Fits ok d (.bool b)
  | number {d : Nat} {n : Number} : ok n → Fits ok d (.number n)
  | string {d : Nat} (s : String) : Fits ok d (.string s)
  | array {d : Nat} {items : List Json} : (∀ j ∈ items, Fits ok d j) →
      Fits ok (d + 1) (.array items)
  | object {d : Nat} {members : List (String × Json)} :
      (∀ k j, (k, j) ∈ members → Fits ok d j) → Fits ok (d + 1) (.object members)

/-- The document is an item or the value of a member of the other one. -/
inductive Inside (content : Json) : Json → Prop where
  | item {items : List Json} : content ∈ items → Inside content (.array items)
  | member {members : List (String × Json)} (k : String) : (k, content) ∈ members →
      Inside content (.object members)

section
variable {ok : Number → Prop} {d : Nat} {j content : Json} {k : String} {members : Keyed Json}

/-- What is inside a document fits one level below it. -/
theorem Fits.inside (hj : j.Fits ok d) (hc : content.Inside j) :
    ∃ d', d = d' + 1 ∧ content.Fits ok d' := by
  cases hc with
  | item hm => cases hj with | array h => exact ⟨_, rfl, h _ hm⟩
  | member k hm => cases hj with | object h => exact ⟨_, rfl, h _ _ hm⟩

theorem Fits.mono {d' : Nat} (hj : j.Fits ok d) (hd : d ≤ d') : j.Fits ok d' := by
  induction hj generalizing d' with
  | null => exact .null
  | bool b => exact .bool b
  | number hn => exact .number hn
  | string s => exact .string s
  | array _ ih =>
    obtain _ | d' := d'
    · cases hd
    · exact .array fun j hj => ih j hj (Nat.le_of_succ_le_succ hd)
  | object _ ih =>
    obtain _ | d' := d'
    · cases hd
    · exact .object fun k j hj => ih k j hj (Nat.le_of_succ_le_succ hd)

theorem Fits.imp {ok' : Number → Prop} (hj : j.Fits ok d) (h : ∀ n, ok n → ok' n) :
    j.Fits ok' d := by
  induction hj with
  | null => exact .null
  | bool b => exact .bool b
  | number hn => exact .number (h _ hn)
  | string s => exact .string s
  | array _ ih => exact .array ih
  | object _ ih => exact .object ih

theorem mem_of_only? (h : Keyed.only? k members = some j) : (k, j) ∈ members := by
  induction members with
  | nil => cases h
  | cons p rest ih =>
    obtain ⟨l, a⟩ := p
    simp only [Keyed.only?] at h
    split at h
    · next e =>
      split at h
      · cases h
      · rw [← e, Option.some.inj h]
        exact List.mem_cons_self
    · exact List.mem_cons_of_mem _ (ih h)

end

mutual

/-- The document with other things in the places of its numbers. -/
def mapNumbers? (f : Number → Option Json) : Json → Option Json
  | .number n => f n
  | .array items => (mapItems? f items).map .array
  | .object members => (mapMembers? f members).map .object
  | .null => some .null
  | .bool b => some (.bool b)
  | .string s => some (.string s)

def mapItems? (f : Number → Option Json) : List Json → Option (List Json)
  | [] => some []
  | j :: rest => do
    let j ← mapNumbers? f j
    let js ← mapItems? f rest
    some (j :: js)

def mapMembers? (f : Number → Option Json) : List (String × Json) → Option (List (String × Json))
  | [] => some []
  | (k, j) :: rest => do
    let j ← mapNumbers? f j
    let js ← mapMembers? f rest
    some ((k, j) :: js)

end

theorem mapItems?_eq (f : Number → Option Json) (items : List Json) :
    mapItems? f items = items.mapM (mapNumbers? f) := by
  induction items with
  | nil => rfl
  | cons j rest ih => simp only [mapItems?, ih, List.mapM_cons]; rfl

theorem mapMembers?_eq (f : Number → Option Json) (members : List (String × Json)) :
    mapMembers? f members =
      members.mapM fun p => (mapNumbers? f p.2).map fun j => (p.1, j) := by
  induction members with
  | nil => rfl
  | cons p rest ih =>
    simp only [mapMembers?, ih, List.mapM_cons]
    cases mapNumbers? f p.2 <;> rfl

end GuardedData.Json
